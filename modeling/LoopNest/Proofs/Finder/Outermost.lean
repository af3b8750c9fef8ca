import LoopNest.Proofs.Finder.Pauses
import LoopNest.Proofs.Finder.Headers
import LoopNest.Proofs.Finder.Innermost

/-! Representatives at the pauses of a run: a number is represented by the header of the largest
loop recorded so far around its block, or by itself if there is none.
-/

namespace LoopNest

/-- The loop that a number heads, where the loops of a sweep are recorded from a base on. -/
def Sweep.headedLoop? (state : Sweep) (base : LoopRef) (number : Nat) : Option LoopRef :=
  (state.headed.getD number none).map (base + ·)

/-- The body of a loop holds the block and strictly includes all other bodies that do. -/
def LoopStore.IsLargestAround (store : LoopStore) (forest : ForestRef) (block : BlockRef)
    (outer : LoopRef) : Prop :=
  outer ∈ store.holding forest block
  ∧ ∀ other ∈ store.holding forest block, other ≠ outer → store.body other ⊂ store.body outer

/-- Representatives are the headers of the largest recorded loops, which stand above what they
represent and are known to head these loops; and no link leads to a later number.
-/
structure Sweep.ShowsLargest (state : Sweep) (base : LoopRef) (program : Program) (g : GraphRef)
    (numbering : Numbering) (store : LoopStore) (forest : ForestRef)
    : Prop where
  represented
    : ∀ block ∈ program.reached g,
        ∃ number,
          numbering.number? (program.idOf block) = some number
          ∧ (store.holding forest block = ∅
              ∧ (state.sets.find number).1 = number
              ∧ state.headedLoop? base number = none
            ∨ ∃ outer header,
                store.IsLargestAround forest block outer
                ∧ (store.loop outer).header = some header
                ∧ numbering.number? (program.idOf header) = some (state.sets.find number).1
                ∧ numbering.Descends program header block
                ∧ state.headedLoop? base (state.sets.find number).1 = some outer)
  linked : ∀ number, state.sets.parent number = number ∨ state.sets.parent number < number

namespace Traversal

variable {walk : Traversal} {first x : Nat} {sweep : Sweep} {region : Region}

/-- A recorded cluster around a number lies in the cluster of the number's representative. -/
theorem Swept.cluster_outermost (swept : walk.Swept first sweep) (recorded : region ∈ sweep.regions)
    (member : walk.Cluster region.header x)
    : walk.Cluster (walk.outermost first x) region.header := by
  have after := (swept.header_iff.mp ⟨region, recorded, rfl⟩).1
  obtain ⟨-, around, least⟩ := walk.outermost_spec (after.trans member.le)
  exact around.of_common (least region.header after member) member

/-- A number around which no cluster is recorded represents itself. -/
theorem Swept.outermost_eq_self (swept : walk.Swept first sweep)
    (unrecorded : ∀ region ∈ sweep.regions, region.header ≠ walk.outermost first x)
    : walk.outermost first x = x := by
  by_contra differs
  have after : first ≤ x := by
    by_contra before
    exact differs (outermost_of_lt (Nat.not_le.mp before))
  obtain ⟨later, around, -⟩ := walk.outermost_spec after
  have heads := around.heads (Ne.symm differs)
  obtain ⟨region, recorded, isHeader⟩ := swept.header_iff.mpr ⟨later, heads⟩
  exact unrecorded region recorded isHeader

end Traversal

namespace Program.Consistent

variable {program : Program} {g : GraphRef} {start : BlockRef} {consistent : program.Consistent}
  {registered : start ∈ (program.graph g).blocks} {first i x : Nat} {state : Sweep}
  {region : Region}

/-- The recorded loops around a block are those of the regions around its number. -/
theorem mem_holding_iff (swept : (consistent.walk registered).Swept first state)
    (store : LoopStore) (known : x < (program.number start).size) {ref : LoopRef}
    : ref ∈ (store.recordFresh (program.number start) state.regions).holding store.addForest.2
          ((program.number start).blockOf x)
      ↔ ∃ (i : Nat) (region : Region),
          state.regions[i]? = some region
          ∧ ref = store.loops.size + 1 + i
          ∧ (consistent.walk registered).Cluster region.header x := by
  constructor
  · intro holds
    obtain ⟨proper, inside⟩ := holds
    obtain ⟨i, region, found, rfl⟩ := (mem_recordFresh_iff swept store).mp proper
    rw [(loop_recordFresh swept store found).2] at inside
    exact ⟨i, region, found, rfl,
      (consistent.mem_clusterBlocks_iff registered (swept.heads found).lt known).mp inside⟩
  · intro around
    obtain ⟨i, region, found, rfl, member⟩ := around
    refine ⟨(mem_recordFresh_iff swept store).mpr ⟨i, region, found, rfl⟩, ?_⟩
    rw [(loop_recordFresh swept store found).2]
    exact ⟨x, member, rfl⟩

/-- The loop that a representative heads has the largest body of all recorded around what it
represents.
-/
theorem isLargestAround (swept : (consistent.walk registered).Swept first state)
    (store : LoopStore) (known : x < (program.number start).size)
    (found : state.regions[i]? = some region)
    (isHeader : region.header = (consistent.walk registered).outermost first x)
    : (store.recordFresh (program.number start) state.regions).IsLargestAround store.addForest.2
        ((program.number start).blockOf x) (store.loops.size + 1 + i) := by
  have around := (consistent.walk registered).outermost_cluster first x
  rw [← isHeader] at around
  refine ⟨(mem_holding_iff swept store known).mpr ⟨i, region, found, rfl, around⟩, ?_⟩
  intro ref holds differs
  obtain ⟨j, other, foundToo, rfl, member⟩ := (mem_holding_iff swept store known).mp holds
  have inside := swept.cluster_outermost (Array.mem_of_getElem? foundToo) member
  rw [← isHeader] at inside
  rw [(loop_recordFresh swept store found).2, (loop_recordFresh swept store foundToo).2]
  refine consistent.clusterBlocks_ssubset registered inside ?_ (swept.heads found).lt
  intro sameHeader
  exact differs (by rw [swept.index_eq foundToo found sameHeader])

/-- What a sweep shows between two visits. Witness: a number's representative is the top of the
outermost cluster around it; either a loop was recorded for that top, or the number is its own
representative and no recorded loop is around it.
-/
theorem showsLargest (isStart : (program.graph g).start? = some start)
    (swept : (consistent.walk (FlowGraph.mem_of_start? isStart)).Swept first state)
    (linksBack : state.sets.LinksBack) (store : LoopStore)
    : state.ShowsLargest (store.loops.size + 1) program g (program.number start)
        (store.recordFresh (program.number start) state.regions) store.addForest.2 := by
  have registered := FlowGraph.mem_of_start? isStart
  have sound := (consistent.whole registered).sound
  refine ⟨?_, fun number => (linksBack number).eq_or_lt⟩
  intro block isReached
  rw [consistent.reached_eq isStart] at isReached
  obtain ⟨x, known, rfl⟩ := isReached
  refine ⟨x, sound.number_blockOf known, ?_⟩
  by_cases recorded : ∃ region ∈ state.regions,
      region.header = (consistent.walk registered).outermost first x
  · obtain ⟨region, isRegion, isHeader⟩ := recorded
    obtain ⟨i, found⟩ := Array.getElem?_of_mem isRegion
    have headerKnown := (swept.heads found).lt
    refine Or.inr ⟨store.loops.size + 1 + i, (program.number start).blockOf region.header,
      isLargestAround swept store known found isHeader, (loop_recordFresh swept store found).1,
      ?_, ?_, ?_⟩
    · rw [swept.find_eq, ← isHeader]
      exact sound.number_blockOf headerKnown
    · have member := consistent.blockOf_mem registered known
      apply (consistent.descends_iff registered headerKnown member).mpr
      have around := (consistent.walk registered).outermost_cluster first x
      rw [← isHeader] at around
      exact ⟨x, around.below headerKnown, rfl⟩
    · have headed : state.headed.getD region.header none = some i := by
        rw [swept.indexed, found, Option.map_some]
      rw [swept.find_eq, ← isHeader, Sweep.headedLoop?, headed, Option.map_some]
  · have unrecorded : ∀ region ∈ state.regions,
        region.header ≠ (consistent.walk registered).outermost first x :=
      fun region isRegion isHeader => recorded ⟨region, isRegion, isHeader⟩
    have self := swept.outermost_eq_self unrecorded
    refine Or.inl ⟨?_, by rw [swept.find_eq, self], ?_⟩
    · apply Set.eq_empty_iff_forall_notMem.mpr
      intro ref holds
      obtain ⟨i, region, found, -, member⟩ := (mem_holding_iff swept store known).mp holds
      have isRegion := Array.mem_of_getElem? found
      have before := (swept.cluster_outermost isRegion member).le
      have after := member.le
      exact unrecorded region isRegion (by omega)
    · rw [Sweep.headedLoop?, Option.map_eq_none_iff, Option.eq_none_iff_forall_ne_some]
      intro i headed
      obtain ⟨region, found, isHeader⟩ :=
        Option.map_eq_some_iff.mp ((swept.indexed x i).mp headed)
      exact unrecorded region (Array.mem_of_getElem? found) (isHeader.trans self.symm)

end Program.Consistent

/-- A run passes through each of its pauses, where each reached block is represented by the header
of the largest loop recorded so far around it, or by itself if there is none.
-/
theorem Finder.pause_showsLargest (calls : List BuildCall) (finder : Finder) (store : LoopStore)
    {start : BlockRef} {first : Nat} {state : Sweep}
    (isStart : ((Program.build calls).graph finder.graph).start? = some start)
    (paused : finder.pause? (Program.build calls) first = some state)
    : let numbering := (Program.build calls).number start
      finder.PassesThrough (Program.build calls) store numbering first state
      ∧ state.ShowsLargest (store.loops.size + 1) (Program.build calls) finder.graph numbering
          (store.recordFresh numbering state.regions) store.addForest.2 := by
  intro numbering
  have consistent := Program.consistent_build calls
  obtain ⟨swept, linksBack⟩ := pause?_swept consistent isStart paused
  exact ⟨passesThrough consistent isStart paused store,
    consistent.showsLargest isStart swept linksBack store⟩

/-- A loop with another way in, collapsed into a larger one, before the visit of the start. The
links of one block still go through the header of the inner loop.
-/
theorem Finder.pause_showsLargest_irreducible
    : let program := Program.build (BuildCall.ofEdges 5
        [(0, 1), (1, 2), (2, 3), (3, 2), (2, 4), (4, 1), (3, 1), (0, 3), (4, 0), (0, 4)])
      let finder : Finder := { graph := 0, forest := 0 }
      let state := (finder.pause? program 1).getD {}
      (program.graph 0).start? = some 0
      ∧ finder.pause? program 1 = some state
      ∧ state.sets.links = #[0, 1, 1, 2, 1]
      ∧ (List.range 5).map (fun number => (state.sets.find number).1) = [0, 1, 1, 1, 1]
      ∧ finder.PassesThrough program {} (program.number 0) 1 state
      ∧ state.ShowsLargest 1 program 0 (program.number 0)
          (({} : LoopStore).recordFresh (program.number 0) state.regions) 0 := by
  intro program finder state
  have isStart : (program.graph finder.graph).start? = some 0 := by decide +kernel
  have paused : finder.pause? program 1 = some state :=
    pause?_of_ended (Program.consistent_build _) isStart (by decide +kernel) (by decide +kernel)
  exact ⟨isStart, paused, by decide +kernel, by decide +kernel,
    pause_showsLargest _ finder {} isStart paused⟩

end LoopNest
