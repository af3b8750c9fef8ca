import LoopNest.Proofs.Finder.Bounds
import LoopNest.Proofs.Finder.Nesting
import LoopNest.Proofs.Program.EdgeOrder
import LoopNest.Proofs.Relabeling

/-! A run sees of a built graph nothing but the part that can be reached from its start, and that
part in order: on two graphs whose reachable parts correspond, runs find corresponding loops.
-/

namespace LoopNest

theorem getD_map_of_lt {α β : Type} (f : α → β) {xs : Array α} {i : Nat}
    (inRange : i < xs.size) (default : α) (otherDefault : β)
    : (xs.map f).getD i otherDefault = f (xs.getD i default) := by
  simp [inRange]

------------------------------------------------------------------------------------------
-- Graphs with corresponding reachable parts
------------------------------------------------------------------------------------------

namespace Program

variable {program other : Program} {g h : GraphRef} {start ref succ : BlockRef}
  {label : BlockRef → BlockRef}

open Classical in
/-- The reachable parts of two graphs correspond: the starts do, the edges out of each reached block
do in order, and of the edges into it those from reached blocks do in order.
-/
structure SameReached (program : Program) (g : GraphRef) (other : Program) (h : GraphRef)
    (label : BlockRef → BlockRef) : Prop where
  start_eq : (other.graph h).start? = (program.graph g).start?.map label
  bijOn : Set.BijOn label (program.reached g) (other.reached h)
  succs_eq
    : ∀ {ref}, ref ∈ program.reached g
      → (other.block (label ref)).succs.toList = (program.block ref).succs.toList.map label
  preds_eq
    : ∀ {ref}, ref ∈ program.reached g
      → (other.block (label ref)).preds.toList.filter (· ∈ other.reached h)
        = ((program.block ref).preds.toList.filter (· ∈ program.reached g)).map label

theorem start_mem_reached (isStart : (program.graph g).start? = some start)
    : start ∈ program.reached g :=
  ⟨start, isStart, .refl trivial⟩

theorem flows_mem_reached (reached : ref ∈ program.reached g) (flows : program.Flows ref succ)
    : succ ∈ program.reached g := by
  obtain ⟨start, isStart, connected⟩ := reached
  exact ⟨start, isStart, connected.tail flows trivial⟩

namespace Consistent

theorem reached_mem (consistent : program.Consistent) (reached : ref ∈ program.reached g)
    : ref ∈ (program.graph g).blocks := by
  obtain ⟨start, isStart, connected⟩ := reached
  have registered := FlowGraph.mem_of_start? isStart
  obtain ⟨number, known, rfl⟩ := (consistent.reached_iff registered).mp connected
  exact consistent.blockOf_mem registered known

/-- A registered block has a number exactly if it can be reached. -/
theorem number?_isSome_iff (consistent : program.Consistent)
    (isStart : (program.graph g).start? = some start) (member : ref ∈ (program.graph g).blocks)
    : ((program.number start).number? (program.idOf ref)).isSome ↔ ref ∈ program.reached g := by
  rw [consistent.reached_eq isStart, Option.isSome_iff_exists]
  exact exists_congr fun number =>
    consistent.number?_iff (FlowGraph.mem_of_start? isStart) member

theorem mem_reached_iff (consistent : program.Consistent)
    (isStart : (program.graph g).start? = some start)
    : ref ∈ program.reached g ↔ ref ∈ (program.number start).order := by
  rw [consistent.reached_eq isStart, Array.mem_iff_getElem]
  constructor
  · rintro ⟨number, known, rfl⟩
    exact ⟨number, known, Array.getElem_eq_getD 0⟩
  · rintro ⟨number, known, rfl⟩
    exact ⟨number, known, (Array.getElem_eq_getD 0).symm⟩

open Classical in
/-- The sources of a number are the numbers of the reached predecessors. -/
theorem sources_eq_filter (consistent : program.Consistent)
    (isStart : (program.graph g).start? = some start) {number : Nat}
    (known : number < (program.number start).size)
    : Sweep.sources program (program.number start) number
      = ((program.block ((program.number start).blockOf number)).preds.toList.filter
          (· ∈ program.reached g)).filterMap
            fun ref => (program.number start).number? (program.idOf ref) := by
  rw [Sweep.sources, List.filterMap_filter]
  refine List.filterMap_congr fun ref listed => ?_
  have target := consistent.blockOf_mem (FlowGraph.mem_of_start? isStart) known
  have edge := (consistent.mem_preds_iff target).mp (Array.mem_toList_iff.mp listed)
  by_cases reached : ref ∈ program.reached g
  · simp only [reached, decide_true, if_true]
  · -- A predecessor that is not reached is registered all the same, so its id is no reached one.
    have unnumbered := mt (consistent.number?_isSome_iff isStart (consistent.ends_mem edge).1).mp
      reached
    simp only [reached, decide_false, Bool.false_eq_true, if_false]
    exact Option.not_isSome_iff_eq_none.mp unnumbered

end Consistent

namespace SameReached

theorem carries (same : program.SameReached g other h label) (consistent : program.Consistent)
    (otherConsistent : other.Consistent)
    : program.Carries other label (program.reached g) where
  block_lt reached := consistent.block_lt (consistent.reached_mem reached)
  label_lt reached :=
    otherConsistent.block_lt (otherConsistent.reached_mem (same.bijOn.mapsTo reached))
  succ_mem reached listed := flows_mem_reached reached (Array.mem_toList_iff.mp listed)
  succs_eq := same.succs_eq
  idOf_iff := by
    intro a b aIn bIn
    constructor
    · intro sameId
      have sameLabel := otherConsistent.eq_of_idOf_eq
        (otherConsistent.reached_mem (same.bijOn.mapsTo aIn))
        (otherConsistent.reached_mem (same.bijOn.mapsTo bIn)) sameId
      rw [same.bijOn.injOn aIn bIn sameLabel]
    · intro sameId
      rw [consistent.eq_of_idOf_eq (consistent.reached_mem aIn) (consistent.reached_mem bIn) sameId]

/-- Corresponding graphs are numbered alike, and their numbers have the same sources. -/
theorem numbered_alike (same : program.SameReached g other h label)
    (consistent : program.Consistent) (otherConsistent : other.Consistent)
    (isStart : (program.graph g).start? = some start)
    : (program.number start).Carried program other label (program.reached g)
          (other.number (label start))
      ∧ ∀ number < (program.number start).size,
          Sweep.sources other (other.number (label start)) number
          = Sweep.sources program (program.number start) number := by
  have carries := same.carries consistent otherConsistent
  have carried := Numbering.carried_number carries (start_mem_reached isStart)
  have isOther : (other.graph h).start? = some (label start) := by
    rw [same.start_eq, isStart, Option.map_some]
  refine ⟨carried, fun number known => ?_⟩
  rw [otherConsistent.sources_eq_filter isOther (carried.size_eq.symm ▸ known),
    carried.blockOf_eq known, same.preds_eq (carried.blockOf_mem known), List.filterMap_map,
    consistent.sources_eq_filter isStart known]
  refine List.filterMap_congr fun ref listed => ?_
  exact carried.number?_eq carries (by simpa using (List.mem_filter.mp listed).2)

end SameReached

/-- Reachable parts correspond if the blocks in order of their numbers do, with their neighbours.
This can be evaluated.
-/
theorem sameReached_of_order (consistent : program.Consistent)
    (otherConsistent : other.Consistent) (isStart : (program.graph g).start? = some start)
    (isOther : (other.graph h).start? = some (label start))
    (order_eq : (other.number (label start)).order = (program.number start).order.map label)
    (succs_eq : ∀ ref ∈ (program.number start).order,
      (other.block (label ref)).succs.toList = (program.block ref).succs.toList.map label)
    (preds_eq : ∀ ref ∈ (program.number start).order,
      (other.block (label ref)).preds.toList.filter (· ∈ (other.number (label start)).order)
        = ((program.block ref).preds.toList.filter
            (· ∈ (program.number start).order)).map label)
    : program.SameReached g other h label where
  start_eq := by rw [isOther, isStart, Option.map_some]
  bijOn := by
    have size_eq : (other.number (label start)).size = (program.number start).size := by
      rw [Numbering.size, Numbering.size, order_eq, Array.size_map]
    have blockOf_eq {number : Nat} (known : number < (program.number start).size)
        : (other.number (label start)).blockOf number
          = label ((program.number start).blockOf number) := by
      rw [Numbering.blockOf, Numbering.blockOf, order_eq, getD_map_of_lt label known 0 0]
    rw [consistent.reached_eq isStart, otherConsistent.reached_eq isOther, size_eq]
    refine ⟨?_, ?_, ?_⟩
    · rintro _ ⟨number, known, rfl⟩
      exact ⟨number, known, blockOf_eq known⟩
    · rintro _ ⟨number, known, rfl⟩ _ ⟨number', known', rfl⟩ same
      rw [← blockOf_eq known, ← blockOf_eq known'] at same
      rw [otherConsistent.blockOf_injOn (FlowGraph.mem_of_start? isOther)
        (size_eq.symm ▸ known) (size_eq.symm ▸ known') same]
    · rintro _ ⟨number, known, rfl⟩
      exact ⟨_, ⟨number, known, rfl⟩, (blockOf_eq known).symm⟩
  succs_eq reached := succs_eq _ ((consistent.mem_reached_iff isStart).mp reached)
  preds_eq reached := by
    simp only [consistent.mem_reached_iff isStart, otherConsistent.mem_reached_iff isOther]
    convert preds_eq _ ((consistent.mem_reached_iff isStart).mp reached)

end Program

------------------------------------------------------------------------------------------
-- What runs leave
------------------------------------------------------------------------------------------

/-- The number at which a sweep gave up. -/
def Halt.number? : Halt → Option Nat
  | .overload number _ => some number
  | .fault _ => none

/-- An outline with its blocks replaced by their images. -/
def Outline.relabel (label : BlockRef → BlockRef) (outline : Outline) : Outline :=
  { outline with
    header := outline.header.map label
    blocks := outline.blocks.map label }

/-- The header and the blocks of a region have numbers in the order. -/
def Region.InOrder (order : Array BlockRef) (region : Region) : Prop :=
  region.header < order.size ∧ ∀ number, Part.block number ∈ region.parts → number < order.size

theorem Region.members_map {order : Array BlockRef} {region : Region}
    (inOrder : region.InOrder order) (label : BlockRef → BlockRef)
    : region.members (order.map label) = (region.members order).map label := by
  rw [members, members, List.map_cons, getD_map_of_lt label inOrder.1 0 0, List.map_filterMap]
  refine congrArg (_ :: ·) (List.filterMap_congr fun part listed => ?_)
  cases part with
  | block number => exact congrArg some (getD_map_of_lt label (inOrder.2 number listed) 0 0)
  | loop index => rfl

/-- A region in an order of images has the outline with images. -/
theorem Region.outline_map {order : Array BlockRef} {region : Region}
    (inOrder : region.InOrder order) (label : BlockRef → BlockRef) (regions : List Region)
    (i : Nat)
    : region.outline (order.map label) regions i
      = (region.outline order regions i).relabel label := by
  simp only [outline, Outline.relabel, members_map inOrder, getD_map_of_lt label inOrder.1 0 0,
    Option.map_some]

namespace Finder

variable {program other : Program} {finder reader : Finder} {label : BlockRef → BlockRef}

/-- A run gives up at the block of the number at which its sweep does. -/
theorem runFresh_stoppedAt (finder : Finder) (program : Program) (store : LoopStore)
    : (finder.runFresh program store).finder.stoppedAt
      = ((finder.sweep program).2.bind Halt.number?).map
          fun number => (finder.order program).getD number 0 := by
  simp only [runFresh, run, sweep, order]
  cases (program.graph finder.graph).start? with
  | none => rfl
  | some start =>
      by_cases outgrown : (program.graph finder.graph).size < (program.number start).size
      · simp only [if_pos outgrown]
        rfl
      · simp only [if_neg outgrown]
        cases Sweep.start program (program.number start) with
        | error cause => rfl
        | ok sweep =>
            cases ran : (sweep.run (program.number start) finder.bound).2 with
            | none => simp only [ran]; rfl
            | some halt => cases halt <;> simp only [ran] <;> rfl

/-- What a sweep over a built graph finds has numbers in its order. -/
theorem sweep_inOrder (finder : Finder) (consistent : program.Consistent)
    : (∀ region ∈ (finder.sweep program).1.regions, region.InOrder (finder.order program))
      ∧ ∀ number ∈ (finder.sweep program).2.bind Halt.number?,
          number < (finder.order program).size := by
  cases isStart : (program.graph finder.graph).start? with
  | none =>
      rw [sweep_of_none isStart]
      exact ⟨fun _ recorded => absurd recorded (Array.not_mem_empty _),
        fun _ given => absurd given (Option.not_mem_none _)⟩
  | some start =>
      have registered := FlowGraph.mem_of_start? isStart
      obtain ⟨sweep, started, swept⟩ :=
        (consistent.walk registered).swept_start program fun _ _ => rfl
      have order_eq : finder.order program = (program.number start).order := by
        simp only [order, isStart]
      have inOrder {first : Nat} {final : Sweep}
          (swept : (consistent.walk registered).Swept first final)
          : ∀ region ∈ final.regions, region.InOrder (finder.order program) := by
        intro region recorded
        have heads := (swept.header_iff.mp ⟨region, recorded, rfl⟩).2
        rw [order_eq]
        refine ⟨heads.lt, fun number listed => ?_⟩
        obtain ⟨x, numbered, inner⟩ := (swept.described region recorded).part_inner listed
        obtain rfl := Option.some.inj numbered
        exact Traversal.number_lt (inner.2.1.below heads.lt)
      obtain ⟨final, course⟩ := swept.visitAll (Nat.le_refl _) finder.bound
      rw [sweep_of_started isStart (consistent.number_size_le registered) started]
      rcases course with ⟨ended, visited⟩ | ⟨header, x, known, stopped, inner, -, visited⟩
      · have visited : sweep.run (program.number start) finder.bound = _ := visited
        rw [visited]
        exact ⟨inOrder ended, fun _ given => absurd given (Option.not_mem_none _)⟩
      · have visited : sweep.run (program.number start) finder.bound = _ := visited
        rw [visited]
        refine ⟨inOrder stopped, fun number given => ?_⟩
        obtain rfl := Option.some.inj given
        rw [order_eq]
        exact Traversal.number_lt (inner.2.1.below known)

/-- A run on a built graph answers with a count: 0 if it gives up or has no start, and else the
number of loops with the root.
-/
theorem runFresh_outcome (finder : Finder) (consistent : program.Consistent) (store : LoopStore)
    : (finder.runFresh program store).outcome
      = .ok (if (finder.sweep program).2.isSome || (program.graph finder.graph).start?.isNone
          then 0 else (finder.sweep program).1.regions.size + 1) := by
  rw [(finder.shows program store).outcome_eq]
  cases isStart : (program.graph finder.graph).start? with
  | none => simp
  | some start =>
      have fits := consistent.number_size_le (FlowGraph.mem_of_start? isStart)
      simp only [if_neg (Nat.not_lt.mpr fits), Option.isNone_some, Bool.or_false]
      split <;> rfl

/-- Runs on corresponding graphs under one bound sweep alike. -/
theorem sweep_eq_of_sameReached
    (same : program.SameReached finder.graph other reader.graph label)
    (consistent : program.Consistent) (otherConsistent : other.Consistent)
    (sameBound : finder.bound = reader.bound)
    : reader.sweep other = finder.sweep program
      ∧ reader.order other = (finder.order program).map label := by
  cases isStart : (program.graph finder.graph).start? with
  | none =>
      have isOther : (other.graph reader.graph).start? = none := by
        rw [same.start_eq, isStart, Option.map_none]
      rw [sweep_of_none isStart, sweep_of_none isOther, order, order, isStart, isOther]
      exact ⟨rfl, Array.map_empty.symm⟩
  | some start =>
      have isOther : (other.graph reader.graph).start? = some (label start) := by
        rw [same.start_eq, isStart, Option.map_some]
      have fits := consistent.number_size_le (FlowGraph.mem_of_start? isStart)
      have otherFits := otherConsistent.number_size_le (FlowGraph.mem_of_start? isOther)
      obtain ⟨carried, sources_eq⟩ := same.numbered_alike consistent otherConsistent isStart
      have last_size := carried.sound.last_size
      have started := Sweep.start_eq program last_size
      have otherStarted := (Sweep.start_congr carried.last_eq carried.size_eq last_size
        sources_eq).trans started
      constructor
      · rw [sweep_of_started isStart fits started, sweep_of_started isOther otherFits otherStarted,
          Sweep.run_congr carried.last_eq carried.size_eq, sameBound]
      · rw [order, order, isStart, isOther]
        exact carried.order_eq

/-- Runs on built graphs whose reachable parts correspond count alike, give up at corresponding
blocks, and leave the same loops with corresponding blocks in the same order. Ids, other blocks and
the order of registration do not matter.
-/
theorem runFresh_sameReached (calls others : List BuildCall) (finder reader : Finder)
    (store otherStore : LoopStore) {label : BlockRef → BlockRef}
    (same : (Program.build calls).SameReached finder.graph (Program.build others) reader.graph
      label)
    (sameBound : finder.bound = reader.bound)
    : let run := finder.runFresh (Program.build calls) store
      let image := reader.runFresh (Program.build others) otherStore
      (∃ count, run.outcome = .ok count ∧ image.outcome = .ok count)
      ∧ image.finder.stopped = run.finder.stopped
      ∧ image.finder.stoppedAt = run.finder.stoppedAt.map label
      ∧ image.store.outlines otherStore.addForest.2
        = (run.store.outlines store.addForest.2).map (Outline.relabel label) := by
  intro run image
  have consistent := Program.consistent_build calls
  have otherConsistent := Program.consistent_build others
  obtain ⟨sweep_eq, order_eq⟩ :=
    sweep_eq_of_sameReached same consistent otherConsistent sameBound
  obtain ⟨regionsIn, haltIn⟩ := finder.sweep_inOrder consistent
  have shows := finder.shows (Program.build calls) store
  have showsImage := reader.shows (Program.build others) otherStore
  have stoppedAt_eq : image.finder.stoppedAt = run.finder.stoppedAt.map label := by
    rw [runFresh_stoppedAt, runFresh_stoppedAt, sweep_eq, order_eq, Option.map_map]
    exact Option.map_congr fun number given =>
      getD_map_of_lt label (haltIn number given) 0 0
  refine ⟨?_, ?_, stoppedAt_eq, ?_⟩
  · refine ⟨_, finder.runFresh_outcome consistent store, ?_⟩
    rw [reader.runFresh_outcome otherConsistent otherStore, sweep_eq, same.start_eq,
      Option.isNone_map]
  · rw [stopped, stopped, stoppedAt_eq, Option.isSome_map]
  · rw [shows.outlines_eq, showsImage.outlines_eq, sweep_eq, order_eq, List.map_cons]
    refine congrArg (Outline.root :: ·) (List.ext_getElem (by simp) fun i inRange _ => ?_)
    rw [List.length_mapIdx] at inRange
    rw [List.getElem_map, List.getElem_mapIdx, List.getElem_mapIdx]
    exact Region.outline_map
      (regionsIn _ (Array.mem_toList_iff.mp (List.getElem_mem inRange))) label _ i

/-- Three nested loops of which a run finds one before it gives up, and their images among other
ids, registered in another order and entered from a block that cannot be reached.
-/
theorem runFresh_sameReached_nested
    : let calls := BuildCall.ofEdges 4 [(0, 1), (1, 2), (2, 3), (3, 3), (3, 2), (3, 1), (0, 3)]
      let others :=
        [.graph, .register 0 "" 9, .register 0 "" 3, .register 0 "" 7, .register 0 "" 5,
            .register 0 "" 1]
          ++ BuildCall.connects 0 [(3, 1), (9, 5), (5, 7), (3, 7), (7, 1), (1, 1), (3, 3), (1, 7),
            (1, 5), (3, 1), (9, 1)]
      let label := fun ref => [0, 3, 2, 4].getD ref 0
      let finder : Finder := { graph := 0, forest := 0, bound := 1 }
      (Program.build calls).SameReached 0 (Program.build others) 0 label
      ∧ (finder.runFresh (Program.build calls) {}).finder.stoppedAt = some 3
      ∧ ((finder.runFresh (Program.build calls) {}).store.outlines 0).map Outline.blocks
        = [[], [3]]
      ∧ (finder.runFresh (Program.build others) {}).finder.stoppedAt
        = (finder.runFresh (Program.build calls) {}).finder.stoppedAt.map label
      ∧ (finder.runFresh (Program.build others) {}).store.outlines 0
        = ((finder.runFresh (Program.build calls) {}).store.outlines 0).map
            (Outline.relabel label) := by
  intro calls others label finder
  have same : (Program.build calls).SameReached 0 (Program.build others) 0 label :=
    Program.sameReached_of_order (Program.consistent_build _) (Program.consistent_build _)
      (by decide +kernel : _ = some 0) (by decide +kernel) (by decide +kernel) (by decide +kernel)
      (by decide +kernel)
  obtain ⟨-, -, stoppedAt_eq, outlines_eq⟩ :=
    runFresh_sameReached calls others finder finder {} {} same rfl
  exact ⟨same, by decide +kernel, by decide +kernel, stoppedAt_eq, outlines_eq⟩

end Finder

end LoopNest
