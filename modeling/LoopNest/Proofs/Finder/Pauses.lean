import LoopNest.Proofs.Finder.Levels
import LoopNest.Proofs.Links

/-! Pauses of a run between two visits: the state of its sweep, and the loops recorded so far. At
every pause the sweep has collapsed the clusters of the numbers visited, the links of its partition
go back, and the bodies of the recorded loops are these clusters. The run goes on from there and
keeps these loops.
-/

namespace LoopNest

namespace Sweep

variable {numbering : Numbering} {bound : Int} {done rest : List Nat} {sweep state : Sweep}

/-- Visits in two rows: the second goes on where the first ends, unless that gave up. Witness:
induction on the first row.
-/
theorem visitAll_append (numbering : Numbering) (bound : Int) (done rest : List Nat)
    (sweep : Sweep)
    : visitAll numbering bound (done ++ rest) sweep
      = if (visitAll numbering bound done sweep).2 = none
        then visitAll numbering bound rest (visitAll numbering bound done sweep).1
        else visitAll numbering bound done sweep := by
  induction done generalizing sweep with
  | nil => rfl
  | cons number done ih =>
      rw [List.cons_append, visitAll, visitAll]
      cases sweep.gather numbering bound number with
      | error halt => rfl
      | ok found =>
          cases found with
          | none => exact ih sweep
          | some chase => exact ih (sweep.collapse number chase)

/-- Visits that do not give up pass through the state after the first of them. -/
theorem exists_of_visitAll_append
    (ended : visitAll numbering bound (done ++ rest) sweep = (state, none))
    : ∃ between,
        visitAll numbering bound done sweep = (between, none)
        ∧ visitAll numbering bound rest between = (state, none) := by
  rw [visitAll_append] at ended
  split at ended
  · next firstEnded => exact ⟨_, Prod.ext rfl firstEnded, ended⟩
  · next halted => exact absurd (congrArg Prod.snd ended) halted

end Sweep

/-- What holds at the start holds after the visits from a number on. Witness: induction on the
visits, the last of which is that of the number.
-/
theorem Traversal.Swept.visitFrom {walk : Traversal} {sweep state : Sweep} {bound : Int}
    {first count : Nat} (swept : walk.Swept walk.size sweep) (linksBack : sweep.sets.LinksBack)
    (inTable : first + count = walk.size)
    (visited : Sweep.visitAll walk.toNumbering bound (List.range' first count).reverse sweep
      = (state, none))
    : walk.Swept first state ∧ state.sets.LinksBack := by
  induction count generalizing first state with
  | zero =>
      obtain rfl := (Prod.mk.inj visited).1
      rw [show first = walk.size from inTable]
      exact ⟨swept, linksBack⟩
  | succ count ih =>
      rw [List.range'_succ, List.reverse_cons] at visited
      obtain ⟨between, earlier, last⟩ := Sweep.exists_of_visitAll_append visited
      obtain ⟨sweptBetween, linksBetween⟩ := ih (by omega) earlier
      have known : first < walk.size := by omega
      refine ⟨?_, sweptBetween.linksBack_visit walk.last_size known linksBetween last⟩
      rcases sweptBetween.visit known bound [] with ⟨next, onward, -, same⟩ | ⟨x, -, -, gaveUp⟩
      · obtain rfl := (Prod.mk.inj (same.symm.trans last)).1
        exact onward
      · cases gaveUp.symm.trans last

namespace Finder

variable {program : Program} {finder : Finder} {start : BlockRef} {first : Nat} {state : Sweep}

/-- The state of a finder's sweep between two visits, when the numbers from the first one on were
visited and no others. There is none if the run makes no sweep or gives up before.
-/
def pause? (finder : Finder) (program : Program) (first : Nat) : Option Sweep :=
  (program.graph finder.graph).start?.bind fun start =>
    let numbering := program.number start
    if (program.graph finder.graph).size < numbering.size then none
    else
      (Sweep.start program numbering).toOption.bind fun sweep =>
        let visited := Sweep.visitAll numbering finder.bound
          (List.range' first (numbering.size - first)).reverse sweep
        if visited.2 = none then some visited.1 else none

theorem pause?_eq_some_iff (isStart : (program.graph finder.graph).start? = some start)
    : finder.pause? program first = some state
      ↔ (program.number start).size ≤ (program.graph finder.graph).size
        ∧ ∃ sweep,
            Sweep.start program (program.number start) = .ok sweep
            ∧ Sweep.visitAll (program.number start) finder.bound
                (List.range' first ((program.number start).size - first)).reverse sweep
              = (state, none) := by
  rw [pause?, isStart, Option.bind_some]
  simp only
  cases Nat.lt_or_ge (program.graph finder.graph).size (program.number start).size with
  | inl outgrown => simp [outgrown]
  | inr fits =>
      rw [if_neg (Nat.not_lt.mpr fits), and_iff_right fits]
      cases Sweep.start program (program.number start) with
      | error cause => simp [Except.toOption]
      | ok sweep => simp [Except.toOption, Prod.ext_iff, and_comm]

/-- The numbers in the order of a sweep, those from the first one on before the others. -/
theorem reverse_range_eq {size : Nat} (inTable : first ≤ size)
    : (List.range size).reverse
      = (List.range' first (size - first)).reverse ++ (List.range first).reverse := by
  have joined := @List.range'_append_1 0 first (size - first)
  rw [Nat.zero_add, Nat.add_sub_cancel' inTable] at joined
  rw [← List.reverse_append, List.range_eq_range', List.range_eq_range', joined]

/-- The sweep of a run goes on from each of its pauses. -/
theorem sweep_of_pause? (isStart : (program.graph finder.graph).start? = some start)
    (paused : finder.pause? program first = some state)
    : finder.sweep program
      = Sweep.visitAll (program.number start) finder.bound
          (List.range (min first (program.number start).size)).reverse state := by
  obtain ⟨fits, sweep, started, visited⟩ := (pause?_eq_some_iff isStart).mp paused
  rw [sweep_of_started isStart fits started, Sweep.run]
  rcases Nat.le_total first (program.number start).size with inTable | past
  · rw [Nat.min_eq_left inTable, reverse_range_eq inTable, Sweep.visitAll_append, visited,
      if_pos rfl]
  · rw [Nat.sub_eq_zero_of_le past] at visited
    obtain rfl := (Prod.mk.inj visited).1
    rw [Nat.min_eq_right past]

/-- A run that ends pauses before each of its visits, so no default is needed. -/
theorem pause?_of_ended (consistent : program.Consistent)
    (isStart : (program.graph finder.graph).start? = some start)
    (inTable : first ≤ (program.number start).size) (ended : (finder.sweep program).2 = none)
    : finder.pause? program first = some ((finder.pause? program first).getD {}) := by
  have registered := FlowGraph.mem_of_start? isStart
  have fits := consistent.number_size_le registered
  obtain ⟨sweep, started, -⟩ := (consistent.walk registered).swept_start program fun _ _ => rfl
  have started : Sweep.start program (program.number start) = .ok sweep := started
  rw [sweep_of_started isStart fits started, Sweep.run, reverse_range_eq inTable] at ended
  obtain ⟨state, visited, -⟩ := Sweep.exists_of_visitAll_append (Prod.ext rfl ended)
  have paused : finder.pause? program first = some state :=
    (pause?_eq_some_iff isStart).mpr ⟨fits, sweep, started, visited⟩
  rw [paused, Option.getD_some]

/-- At a pause the sweep has visited the numbers from the first one on. -/
theorem pause?_swept (consistent : program.Consistent)
    (isStart : (program.graph finder.graph).start? = some start)
    (paused : finder.pause? program first = some state)
    : (consistent.walk (FlowGraph.mem_of_start? isStart)).Swept
          (min first (program.number start).size) state
      ∧ state.sets.LinksBack := by
  have registered := FlowGraph.mem_of_start? isStart
  obtain ⟨-, sweep, started, visited⟩ := (pause?_eq_some_iff isStart).mp paused
  have linksBack := Sweep.linksBack_start (consistent.walk registered).last_size started
  obtain ⟨again, startedAgain, swept⟩ :=
    (consistent.walk registered).swept_start program fun _ _ => rfl
  obtain rfl := Except.ok.inj (started.symm.trans startedAgain)
  rcases Nat.le_total first (program.number start).size with inTable | past
  · rw [Nat.min_eq_left inTable]
    exact swept.visitFrom linksBack (Nat.add_sub_cancel' inTable) visited
  · rw [Nat.sub_eq_zero_of_le past] at visited
    rw [Nat.min_eq_right past]
    exact swept.visitFrom linksBack (Nat.add_zero _) visited

end Finder

------------------------------------------------------------------------------------------
-- The loops recorded so far
------------------------------------------------------------------------------------------

namespace LoopStore

/-- The store with the regions of a sweep recorded in a fresh forest, as it is before loops
without a parent are put below the root.
-/
def recordFresh (store : LoopStore) (numbering : Numbering) (regions : Array Region) : LoopStore :=
  store.addForest.1.record store.addForest.2 numbering regions

/-- A later store grows from an earlier one in a forest: the forest begins with the loops it had, of
which nothing but the parents changed, so that their bodies are the same.
-/
structure GrowsFrom (later earlier : LoopStore) (forest : ForestRef) : Prop where
  loops_prefix : (earlier.forest forest).loops.toList <+: (later.forest forest).loops.toList
  loop_eq
    : ∀ ref ∈ (earlier.forest forest).loops,
        ∃ parent, later.loop ref = { earlier.loop ref with parent }
  body_eq : ∀ ref ∈ earlier.properLoops forest, later.body ref = earlier.body ref

/-- Putting loops below the root changes nothing but their parents. -/
theorem exists_loop_graftAll (store : LoopStore) (forest : ForestRef) (ref : LoopRef)
    : ∃ parent, (store.graftAll forest).loop ref = { store.loop ref with parent } := by
  rw [graftAll, loop_foldl_graft]
  split
  · exact ⟨_, rfl⟩
  · exact ⟨(store.loop ref).parent, rfl⟩

theorem graftAll_keeps (store : LoopStore) (forest : ForestRef) (ref : LoopRef)
    : ((store.graftAll forest).loop ref).header = (store.loop ref).header
      ∧ ((store.graftAll forest).loop ref).blocks = (store.loop ref).blocks
      ∧ ((store.graftAll forest).loop ref).children = (store.loop ref).children := by
  obtain ⟨parent, same⟩ := store.exists_loop_graftAll forest ref
  rw [same]
  exact ⟨rfl, rfl, rfl⟩

theorem body_graftAll (store : LoopStore) (forest : ForestRef) (ref : LoopRef)
    : (store.graftAll forest).body ref = store.body ref := by
  have blocks_eq (ref : LoopRef) := (store.graftAll_keeps forest ref).2.1
  have children_eq (ref : LoopRef) := (store.graftAll_keeps forest ref).2.2
  simp only [body, children_eq, blocks_eq]

namespace Grown

variable {earlier later : LoopStore} {order : Array BlockRef} {regions more : List Region}
  {root ref : LoopRef} {forest : ForestRef}

/-- A forest of more regions begins with the loops of the first ones. -/
theorem loops_prefix (grown : Grown order regions root (earlier.graftAll forest) forest)
    (grownOn : Grown order more root later forest) (regions_le : regions <+: more)
    : (earlier.forest forest).loops.toList <+: (later.forest forest).loops.toList := by
  obtain ⟨rest, rfl⟩ := regions_le
  rw [← forest_graftAll earlier forest forest, grown.loops_eq, grownOn.loops_eq,
    List.length_append, Nat.add_right_comm]
  exact ⟨_, List.range'_append_1⟩

/-- More regions change nothing but the parents of the loops of the first ones. -/
theorem exists_loop_eq (grown : Grown order regions root (earlier.graftAll forest) forest)
    (grownOn : Grown order more root later forest) (regions_le : regions <+: more)
    (listed : ref ∈ (earlier.forest forest).loops)
    : ∃ parent, later.loop ref = { earlier.loop ref with parent } := by
  rw [← forest_graftAll earlier forest forest, grown.mem_loops_iff] at listed
  have grafted : ∃ parent, later.loop ref = { (earlier.graftAll forest).loop ref with parent } := by
    rcases listed with rfl | ⟨i, region, found, rfl⟩
    · exact ⟨none, by rw [grown.root_loop, grownOn.root_loop]⟩
    · obtain ⟨inTable, rfl⟩ := List.getElem?_eq_some_iff.mp found
      obtain ⟨_, -, loop_eq⟩ := grown.region_loop i _ found
      obtain ⟨parent, -, later_eq⟩ :=
        grownOn.region_loop i _ (List.prefix_iff_getElem?.mp regions_le i inTable)
      exact ⟨some (parent.getD root), by rw [loop_eq, later_eq]; rfl⟩
  obtain ⟨_, same⟩ := earlier.exists_loop_graftAll forest ref
  obtain ⟨parent, later_eq⟩ := grafted
  exact ⟨parent, by rw [later_eq, same]⟩

end Grown

end LoopStore

namespace Program.Consistent

variable {program : Program} {g : GraphRef} {start : BlockRef} {consistent : program.Consistent}
  {registered : start ∈ (program.graph g).blocks} {first reached i : Nat} {state later : Sweep}
  {region : Region}

/-- The loops recorded so far are those of the regions found so far. -/
theorem mem_recordFresh_iff (swept : (consistent.walk registered).Swept first state)
    (store : LoopStore) {ref : LoopRef}
    : ref ∈ (store.recordFresh (program.number start) state.regions).properLoops store.addForest.2
      ↔ ∃ (i : Nat) (region : Region),
          state.regions[i]? = some region ∧ ref = store.loops.size + 1 + i := by
  have grown := swept.grown_record store (program.number start)
  have stored : ref ∈ _ ∧ ref ≠ _ ↔ _ := grown.stored_iff
  simp only [LoopStore.forest_graftAll, Array.getElem?_toList] at stored
  exact stored

/-- The loop of a region has its header, and the blocks of the header's cluster as body. -/
theorem loop_recordFresh (swept : (consistent.walk registered).Swept first state)
    (store : LoopStore) (found : state.regions[i]? = some region)
    : ((store.recordFresh (program.number start) state.regions).loop
          (store.loops.size + 1 + i)).header
        = some ((program.number start).blockOf region.header)
      ∧ (store.recordFresh (program.number start) state.regions).body (store.loops.size + 1 + i)
        = consistent.clusterBlocks registered region.header := by
  have grown := swept.grown_record store (program.number start)
  have body_eq := body_eq swept grown found
  obtain ⟨_, -, loop_eq⟩ := grown.region_loop i region (by rwa [Array.getElem?_toList])
  rw [LoopStore.body_graftAll] at body_eq
  refine ⟨?_, body_eq⟩
  have header_eq := congrArg Loop.header loop_eq
  rw [(LoopStore.graftAll_keeps _ _ _).1] at header_eq
  exact header_eq

/-- What is recorded of a sweep that found more grows from what was recorded before. Witness: the
regions found before come first, and their bodies are the clusters of their headers in both.
-/
theorem recordFresh_growsFrom (swept : (consistent.walk registered).Swept first state)
    (sweptOn : (consistent.walk registered).Swept reached later)
    (regions_le : state.regions.toList <+: later.regions.toList) (store : LoopStore)
    : LoopStore.GrowsFrom
        ((store.recordFresh (program.number start) later.regions).graftAll store.addForest.2)
        (store.recordFresh (program.number start) state.regions) store.addForest.2 := by
  have grown := swept.grown_record store (program.number start)
  have grownOn := sweptOn.grown_record store (program.number start)
  refine ⟨grown.loops_prefix grownOn regions_le,
    fun _ listed => grown.exists_loop_eq grownOn regions_le listed, ?_⟩
  intro ref proper
  obtain ⟨i, region, found, rfl⟩ := (mem_recordFresh_iff swept store).mp proper
  have foundOn : later.regions[i]? = some region := by
    rw [← Array.getElem?_toList] at found ⊢
    obtain ⟨inTable, rfl⟩ := List.getElem?_eq_some_iff.mp found
    exact List.prefix_iff_getElem?.mp regions_le i inTable
  rw [LoopStore.body_graftAll, (loop_recordFresh swept store found).2,
    (loop_recordFresh sweptOn store foundOn).2]

end Program.Consistent

------------------------------------------------------------------------------------------
-- The run around a pause
------------------------------------------------------------------------------------------

/-- A run on a fresh forest passes through the state of a pause: its sweep goes on from there, its
forest holds what that sweep finds, and grows from what was recorded until then.
-/
structure Finder.PassesThrough (finder : Finder) (program : Program) (store : LoopStore)
    (numbering : Numbering) (first : Nat) (state : Sweep)
    : Prop where
  sweep_eq
    : finder.sweep program
      = Sweep.visitAll numbering finder.bound (List.range (min first numbering.size)).reverse state
  store_eq
    : (finder.runFresh program store).store
      = (store.recordFresh numbering (finder.sweep program).1.regions).graftAll store.addForest.2
  store_grows
    : (finder.runFresh program store).store.GrowsFrom (store.recordFresh numbering state.regions)
        store.addForest.2

namespace Finder

variable {program : Program} {finder : Finder} {start : BlockRef} {first : Nat} {state : Sweep}

/-- The forest of a run holds what its sweep finds, whether or not that gives up. -/
theorem runFresh_store (isStart : (program.graph finder.graph).start? = some start)
    (fits : (program.number start).size ≤ (program.graph finder.graph).size) (store : LoopStore)
    : (finder.runFresh program store).store
      = (store.recordFresh (program.number start) (finder.sweep program).1.regions).graftAll
          store.addForest.2 := by
  obtain ⟨sweep, final, _, _, started, -, ended | ⟨x, fanIn, gaveUp⟩⟩ :=
    exists_sweep program start finder.bound
  · have ran : finder.runFresh program store = _ :=
      @run_of_ended program { finder with forest := store.addForest.2 } start sweep final
        isStart fits started ended store.addForest.1
    rw [ran, sweep_of_started isStart fits started, ended]
    rfl
  · have ran : finder.runFresh program store = _ :=
      @run_of_gaveUp program { finder with forest := store.addForest.2 } start sweep final
        x fanIn isStart fits started gaveUp store.addForest.1
    rw [ran, sweep_of_started isStart fits started, gaveUp]
    rfl

/-- A run passes through each of its pauses. Witness: what its sweep finds after a pause comes after
what it found before.
-/
theorem passesThrough (consistent : program.Consistent)
    (isStart : (program.graph finder.graph).start? = some start)
    (paused : finder.pause? program first = some state) (store : LoopStore)
    : finder.PassesThrough program store (program.number start) first state := by
  have registered := FlowGraph.mem_of_start? isStart
  have sweep_eq := sweep_of_pause? isStart paused
  have store_eq := runFresh_store isStart (consistent.number_size_le registered) store
  have regions_le : state.regions.toList <+: (finder.sweep program).1.regions.toList := by
    rw [sweep_eq]
    exact Sweep.regions_visitAll _ _ _ state
  obtain ⟨swept, -⟩ := pause?_swept consistent isStart paused
  obtain ⟨reached, sweptOn⟩
      : ∃ reached, (consistent.walk registered).Swept reached (finder.sweep program).1 := by
    rw [sweep_eq]
    obtain ⟨final, ⟨ended, visited⟩ | ⟨header, _, -, halted, -, -, visited⟩⟩ :=
      swept.visitAll (Nat.min_le_right _ _) finder.bound
    · exact ⟨0, congrArg Prod.fst visited ▸ ended⟩
    · exact ⟨header + 1, congrArg Prod.fst visited ▸ halted⟩
  refine ⟨sweep_eq, store_eq, ?_⟩
  rw [store_eq]
  exact Program.Consistent.recordFresh_growsFrom swept sweptOn regions_le store

end Finder

end LoopNest
