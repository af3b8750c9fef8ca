import LoopNest.Proofs.Finder.Multiplicity
import LoopNest.Proofs.Finder.Pauses

/-! The ways into a loop at the pauses of a run: what is kept for a visited number shows, up to
representatives, exactly the edges that lead into the body of the loop that it heads.
-/

namespace LoopNest

/-- The body of the recorded loop that a block heads, or only the block if it heads none. -/
def LoopStore.bodyAt (store : LoopStore) (forest : ForestRef) (block : BlockRef) : Set BlockRef :=
  { member | member = block
      ∨ ∃ ref ∈ store.properLoops forest,
          (store.loop ref).header = some block ∧ member ∈ store.body ref }

/-- An edge leads from a reached block outside a set of blocks into it. -/
def Program.Enters (program : Program) (g : GraphRef) (body : Set BlockRef) (source : BlockRef)
    : Prop :=
  source ∈ program.reached g ∧ source ∉ body ∧ ∃ target ∈ body, program.Flows source target

/-- What is kept for a number stands, up to representatives, for the edges from outside into a body,
and none of it lies in the subtree of the number.
-/
structure Sweep.KeepsWaysInto (state : Sweep) (number : Nat) (body : Set BlockRef)
    (program : Program) (g : GraphRef) (numbering : Numbering)
    : Prop where
  representatives_eq
    : { top | ∃ kept ∈ state.entries.getD number [], (state.sets.find kept).1 = top }
      = { top | ∃ source kept,
            program.Enters g body source
            ∧ numbering.number? (program.idOf source) = some kept
            ∧ (state.sets.find kept).1 = top }
  outside
    : ∀ kept ∈ state.entries.getD number [], numbering.inSubtree number kept = .ok false

namespace Program.Consistent

variable {program : Program} {g : GraphRef} {start : BlockRef} {consistent : program.Consistent}
  {registered : start ∈ (program.graph g).blocks} {first top x : Nat} {state : Sweep}

/-- The body at a visited number is its cluster. Witness: a loop was recorded for the number exactly
if it heads one, and a cluster without back edges is one number.
-/
theorem bodyAt_recordFresh (swept : (consistent.walk registered).Swept first state)
    (store : LoopStore) (visited : first ≤ top) (known : top < (program.number start).size)
    : (store.recordFresh (program.number start) state.regions).bodyAt store.addForest.2
          ((program.number start).blockOf top)
      = consistent.clusterBlocks registered top := by
  have topMember : (program.number start).blockOf top ∈ consistent.clusterBlocks registered top :=
    ⟨top, (consistent.walk registered).cluster_self top, rfl⟩
  -- Only the region of the number itself has its block as header.
  have headed {ref : LoopRef}
      (proper : ref ∈ (store.recordFresh (program.number start) state.regions).properLoops
        store.addForest.2)
      (heads : ((store.recordFresh (program.number start) state.regions).loop ref).header
        = some ((program.number start).blockOf top))
      : (store.recordFresh (program.number start) state.regions).body ref
          = consistent.clusterBlocks registered top := by
    obtain ⟨i, region, found, rfl⟩ := (mem_recordFresh_iff swept store).mp proper
    obtain ⟨header_eq, body_eq⟩ := loop_recordFresh swept store found
    have same := Option.some.inj (header_eq.symm.trans heads)
    rw [body_eq, consistent.blockOf_injOn registered (swept.heads found).lt known same]
  ext block
  constructor
  · intro inside
    rcases inside with rfl | ⟨ref, proper, heads, member⟩
    · exact topMember
    · rwa [headed proper heads] at member
  · intro member
    by_cases heads : (consistent.walk registered).Heads top
    · obtain ⟨region, recorded, rfl⟩ := swept.header_iff.mpr ⟨visited, heads⟩
      obtain ⟨i, found⟩ := Array.getElem?_of_mem recorded
      obtain ⟨header_eq, body_eq⟩ := loop_recordFresh swept store found
      have proper := (mem_recordFresh_iff swept store).mpr ⟨i, region, found, rfl⟩
      exact Or.inr ⟨_, proper, header_eq, by rwa [body_eq]⟩
    · rw [clusterBlocks_of_not_heads heads] at member
      exact Or.inl member

/-- The edges into the blocks of a cluster are those into the cluster. -/
theorem enters_clusterBlocks_iff (consistent : program.Consistent)
    (isStart : (program.graph g).start? = some start)
    (known : top < (program.number start).size) (inTable : x < (program.number start).size)
    : program.Enters g (consistent.clusterBlocks (FlowGraph.mem_of_start? isStart) top)
        ((program.number start).blockOf x)
      ↔ (consistent.walk (FlowGraph.mem_of_start? isStart)).Enters top x := by
  have registered := FlowGraph.mem_of_start? isStart
  have outside_iff := not_congr (consistent.mem_clusterBlocks_iff registered known inTable)
  constructor
  · intro enters
    obtain ⟨-, outside, _, ⟨y, member, rfl⟩, flows⟩ := enters
    have targetKnown : y < (program.number start).size :=
      Traversal.number_lt (Traversal.Cluster.below member known)
    have taken := (consistent.walk_flows_iff registered).mpr ⟨inTable, targetKnown, flows⟩
    exact ⟨y, taken, member, outside_iff.mp outside⟩
  · intro enters
    obtain ⟨y, taken, member, apart⟩ := enters
    have flows := ((consistent.walk_flows_iff registered).mp taken).2.2
    refine ⟨?_, outside_iff.mpr apart, _, ⟨y, member, rfl⟩, flows⟩
    rw [consistent.reached_eq isStart]
    exact ⟨x, inTable, rfl⟩

/-- What a sweep keeps for a visited number. Witness: what is kept shows the edges into the number's
cluster up to the collapsing done before its visit, and what was collapsed together stays together.
-/
theorem keepsWaysInto (isStart : (program.graph g).start? = some start)
    (swept : (consistent.walk (FlowGraph.mem_of_start? isStart)).Swept first state)
    (visited : first ≤ top) (known : top < (program.number start).size)
    : state.KeepsWaysInto top (consistent.clusterBlocks (FlowGraph.mem_of_start? isStart) top)
        program g (program.number start) := by
  have registered := FlowGraph.mem_of_start? isStart
  have sound := (consistent.whole registered).sound
  have faithful := swept.faithful visited known
  refine ⟨Set.Subset.antisymm ?_ ?_, ?_⟩
  · intro rep shown
    obtain ⟨kept, listed, rfl⟩ := shown
    obtain ⟨source, enters, alike⟩ := faithful.sound kept listed
    refine ⟨_, source, (consistent.enters_clusterBlocks_iff isStart known enters.lt).mpr enters,
      sound.number_blockOf enters.lt, ?_⟩
    rw [swept.find_eq, swept.find_eq]
    exact Traversal.outermost_congr visited alike
  · intro rep shown
    obtain ⟨block, source, enters, numbered, rfl⟩ := shown
    have isReached := enters.1
    rw [consistent.reached_eq isStart] at isReached
    obtain ⟨x, inTable, rfl⟩ := isReached
    obtain rfl := Option.some.inj ((sound.number_blockOf inTable).symm.trans numbered)
    have entersNumber := (consistent.enters_clusterBlocks_iff isStart known inTable).mp enters
    obtain ⟨kept, listed, alike⟩ := faithful.complete x entersNumber
    refine ⟨kept, listed, ?_⟩
    rw [swept.find_eq, swept.find_eq]
    exact Traversal.outermost_congr visited alike
  · intro kept listed
    rw [Numbering.inSubtree_eq (sound.last_size ▸ known)]
    exact congrArg Except.ok (decide_eq_false (faithful.outside kept listed).2)

end Program.Consistent

/-- A run passes through each of its pauses, where what is kept for a visited number stands for the
edges from outside into the body of the loop that its block heads.
-/
theorem Finder.pause_keepsWaysInto (calls : List BuildCall) (finder : Finder) (store : LoopStore)
    {start block : BlockRef} {first number : Nat} {state : Sweep}
    (isStart : ((Program.build calls).graph finder.graph).start? = some start)
    (paused : finder.pause? (Program.build calls) first = some state)
    (isReached : block ∈ (Program.build calls).reached finder.graph)
    (numbered : ((Program.build calls).number start).number? ((Program.build calls).idOf block)
      = some number)
    (visited : first ≤ number)
    : let numbering := (Program.build calls).number start
      let recorded := store.recordFresh numbering state.regions
      finder.PassesThrough (Program.build calls) store numbering first state
      ∧ state.KeepsWaysInto number (recorded.bodyAt store.addForest.2 block) (Program.build calls)
          finder.graph numbering := by
  intro numbering recorded
  have consistent := Program.consistent_build calls
  refine ⟨passesThrough consistent isStart paused store, ?_⟩
  have registered := FlowGraph.mem_of_start? isStart
  obtain ⟨swept, -⟩ := pause?_swept consistent isStart paused
  rw [consistent.reached_eq isStart] at isReached
  obtain ⟨x, known, rfl⟩ := isReached
  have sameNumber := (consistent.whole registered).sound.number_blockOf known
  obtain rfl := Option.some.inj (sameNumber.symm.trans numbered)
  have after := (Nat.min_le_left first numbering.size).trans visited
  rw [Program.Consistent.bodyAt_recordFresh swept store after known]
  exact consistent.keepsWaysInto isStart swept after known

/-- A loop with another way in, after it was collapsed into a larger one: its header keeps the
header of the larger loop and the start.
-/
theorem Finder.pause_keepsWaysInto_irreducible
    : let program := Program.build (BuildCall.ofEdges 5
        [(0, 1), (1, 2), (2, 3), (3, 2), (2, 4), (4, 1), (3, 1), (0, 3), (4, 0), (0, 4)])
      let finder : Finder := { graph := 0, forest := 0 }
      let state := (finder.pause? program 1).getD {}
      (program.graph 0).start? = some 0
      ∧ finder.pause? program 1 = some state
      ∧ 2 ∈ program.reached 0
      ∧ (program.number 0).number? (program.idOf 2) = some 2
      ∧ state.entries.getD 2 [] = [1, 0]
      ∧ finder.PassesThrough program {} (program.number 0) 1 state
      ∧ state.KeepsWaysInto 2
          ((({} : LoopStore).recordFresh (program.number 0) state.regions).bodyAt 0 2) program 0
          (program.number 0) := by
  intro program finder state
  have isStart : (program.graph finder.graph).start? = some 0 := by decide +kernel
  have paused : finder.pause? program 1 = some state :=
    pause?_of_ended (Program.consistent_build _) isStart (by decide +kernel) (by decide +kernel)
  have isReached : 2 ∈ program.reached 0 := by
    rw [(Program.consistent_build _).reached_eq isStart]
    exact ⟨2, by decide +kernel, by decide +kernel⟩
  have numbered : (program.number 0).number? (program.idOf 2) = some 2 := by decide +kernel
  exact ⟨isStart, paused, isReached, numbered, by decide +kernel,
    pause_keepsWaysInto _ finder {} isStart paused isReached numbered (by decide)⟩

end LoopNest
