import LoopNest.Proofs.Finder.FanIn
import LoopNest.Proofs.Finder.Relabeling
import LoopNest.Proofs.Reordering

/-! How the edges out of different blocks are interleaved does not matter to a run but for the order
in which it lists what it finds: a block's successors keep their order, so the numbering is the
same, and the sources of each number are the same up to order.
-/

namespace LoopNest

------------------------------------------------------------------------------------------
-- Graphs with interleaved edges
------------------------------------------------------------------------------------------

namespace Program

variable {program other : Program} {g h : GraphRef} {start ref : BlockRef} {id : Int}

/-- The registered block with an id. -/
def blockAt (program : Program) (g : GraphRef) (id : Int) : BlockRef :=
  ((program.graph g).find? id).getD 0

/-- The block of another graph with the id of a block. -/
def counterpart (program other : Program) (h : GraphRef) (ref : BlockRef) : BlockRef :=
  other.blockAt h (program.idOf ref)

namespace Consistent

theorem blockAt_idOf (consistent : program.Consistent) (member : ref ∈ (program.graph g).blocks)
    : program.blockAt g (program.idOf ref) = ref := by
  rw [blockAt, consistent.find?_iff.mpr ⟨member, rfl⟩, Option.getD_some]

/-- Ids give the blocks of a list back. -/
theorem map_blockAt (consistent : program.Consistent) {refs : List BlockRef}
    (members : ∀ ref ∈ refs, ref ∈ (program.graph g).blocks)
    : (refs.map program.idOf).map (program.blockAt g) = refs := by
  rw [List.map_map]
  exact (List.map_congr_left fun ref listed => consistent.blockAt_idOf (members ref listed)).trans
    (List.map_id refs)

theorem blockAt_spec (consistent : program.Consistent) (known : id ∈ program.idsOf g)
    : program.blockAt g id ∈ (program.graph g).blocks
      ∧ program.idOf (program.blockAt g id) = id := by
  obtain ⟨ref, found⟩ := consistent.mem_idsOf_iff.mp known
  rw [blockAt, found, Option.getD_some]
  exact consistent.find?_iff.mp found

/-- The sources of a number by the ids of the edges. -/
theorem sources_eq_edgeIds (consistent : program.Consistent)
    (registered : start ∈ (program.graph g).blocks) {number : Nat}
    (known : number < (program.number start).size)
    : Sweep.sources program (program.number start) number
      = (program.edgeIdsOf g).filterMap fun edge =>
          if edge.2 = program.idOf ((program.number start).blockOf number)
          then (program.number start).number? edge.1 else none := by
  have target := consistent.blockOf_mem registered known
  rw [edgeIdsOf, List.filterMap_map]
  refine (consistent.sources_eq registered known).trans ?_
  refine List.filterMap_congr fun edge listed => ?_
  have target_iff : edge.dst = (program.number start).blockOf number
      ↔ program.idOf edge.dst = program.idOf ((program.number start).blockOf number) :=
    ⟨congrArg program.idOf,
      consistent.eq_of_idOf_eq (consistent.ends_mem listed).2 target⟩
  rw [Function.comp_apply]
  simp only [target_iff]

end Consistent

namespace InterleavesEdges

theorem counterpart_spec (interleaves : program.InterleavesEdges g other h)
    (otherConsistent : other.Consistent) (member : ref ∈ (program.graph g).blocks)
    : program.counterpart other h ref ∈ (other.graph h).blocks
      ∧ other.idOf (program.counterpart other h ref) = program.idOf ref :=
  otherConsistent.blockAt_spec (interleaves.ids_eq ▸ idOf_mem_idsOf member)

/-- Blocks are carried to the blocks with their ids. -/
theorem carries (interleaves : program.InterleavesEdges g other h)
    (consistent : program.Consistent) (otherConsistent : other.Consistent)
    : program.Carries other (program.counterpart other h)
        { ref | ref ∈ (program.graph g).blocks } where
  block_lt member := consistent.block_lt member
  label_lt member :=
    otherConsistent.block_lt (interleaves.counterpart_spec otherConsistent member).1
  succ_mem member listed := consistent.flows_mem member (Array.mem_toList_iff.mp listed)
  succs_eq := by
    intro ref member
    obtain ⟨otherMember, sameId⟩ := interleaves.counterpart_spec otherConsistent member
    have ids_eq : (other.block (program.counterpart other h ref)).succs.toList.map other.idOf
        = (program.block ref).succs.toList.map program.idOf := by
      rw [otherConsistent.succ_ids otherMember, sameId, ← interleaves.edges_eq,
        consistent.succ_ids member]
    -- Ids tell registered blocks apart, so equal ids in order are equal blocks in order.
    rw [← otherConsistent.map_blockAt fun succ listed =>
      otherConsistent.flows_mem otherMember (Array.mem_toList_iff.mp listed), ids_eq, List.map_map]
    rfl
  idOf_iff := by
    intro a b aIn bIn
    rw [(interleaves.counterpart_spec otherConsistent aIn).2,
      (interleaves.counterpart_spec otherConsistent bIn).2]

theorem start_eq (interleaves : program.InterleavesEdges g other h)
    (otherConsistent : other.Consistent)
    : (other.graph h).start?
      = (program.graph g).start?.map (program.counterpart other h) := by
  have sameIds := interleaves.permutes.start_eq
  cases isStart : (program.graph g).start? with
  | none =>
      rw [isStart, Option.map_none, eq_comm, Option.map_eq_none_iff] at sameIds
      rw [sameIds, Option.map_none]
  | some start =>
      rw [isStart, Option.map_some, eq_comm, Option.map_eq_some_iff] at sameIds
      obtain ⟨otherStart, isOther, sameId⟩ := sameIds
      rw [isOther, Option.map_some, counterpart, ← sameId,
        otherConsistent.blockAt_idOf (FlowGraph.mem_of_start? isOther)]

/-- Graphs that interleave their edges differently are numbered alike, and their numbers have the
same sources up to order.
-/
theorem numbered_alike (interleaves : program.InterleavesEdges g other h)
    (consistent : program.Consistent) (otherConsistent : other.Consistent)
    (registered : start ∈ (program.graph g).blocks)
    : (program.number start).Carried program other
          (program.counterpart other h) { ref | ref ∈ (program.graph g).blocks }
          (other.number (program.counterpart other h start))
      ∧ ∀ number < (program.number start).size,
          (Sweep.sources program (program.number start) number).Perm
            (Sweep.sources other (other.number (program.counterpart other h start)) number) := by
  have carries := interleaves.carries consistent otherConsistent
  have carried := Numbering.carried_number carries registered
  have otherRegistered := (interleaves.counterpart_spec otherConsistent registered).1
  refine ⟨carried, fun number known => ?_⟩
  have target := carried.blockOf_mem known
  rw [consistent.sources_eq_edgeIds registered known,
    otherConsistent.sources_eq_edgeIds otherRegistered (carried.size_eq.symm ▸ known),
    carried.blockOf_eq known, (interleaves.counterpart_spec otherConsistent target).2]
  refine (interleaves.permutes.edges_perm.filterMap _).trans (List.Perm.of_eq ?_)
  refine List.filterMap_congr fun edge listed => ?_
  have numbered : (other.number (program.counterpart other h start)).number? edge.1
      = (program.number start).number? edge.1 := by
    have listed := interleaves.permutes.edges_perm.mem_iff.mpr listed
    obtain ⟨edge, recorded, rfl⟩ := List.mem_map.mp listed
    have srcMem := (consistent.ends_mem recorded).1
    have same := carried.number?_eq carries srcMem
    rwa [(interleaves.counterpart_spec otherConsistent srcMem).2] at same
  rw [numbered]

end InterleavesEdges

end Program

------------------------------------------------------------------------------------------
-- What runs leave
------------------------------------------------------------------------------------------

/-- Outlines of the same loop in two programs, with blocks compared by their ids: alike but for the
order of the blocks and that of the children.
-/
structure Outline.Reorders (program other : Program) (outline image : Outline) : Prop where
  counter_eq : image.counter = outline.counter
  header_eq : image.header.map other.idOf = outline.header.map program.idOf
  blocks_perm : (outline.blocks.map program.idOf).Perm (image.blocks.map other.idOf)
  children_perm : outline.children.Perm image.children
  parent_eq : image.parent = outline.parent
  synthetic_eq : image.synthetic = outline.synthetic
  reducible_eq : image.reducible = outline.reducible
  height_eq : image.height = outline.height
  depth_eq : image.depth = outline.depth

theorem Outline.reorders_root (program other : Program) : root.Reorders program other root :=
  ⟨rfl, rfl, .refl _, .refl _, rfl, rfl, rfl, rfl, rfl⟩

namespace Region

variable {order : Array BlockRef} {region image : Region} {regions images : List Region}

/-- Reordered regions nest the same loops. Witness: induction on the regions. -/
theorem nestingCounter_eq (alike : List.Forall₂ Reorders regions images) (i : Nat)
    : nestingCounter images i = nestingCounter regions i := by
  have found_eq : (images.findIdx? fun region => Part.loop i ∈ region.parts)
      = regions.findIdx? fun region => Part.loop i ∈ region.parts := by
    induction alike with
    | nil => rfl
    | cons reorders _ ih =>
        simp only [List.findIdx?_cons, ih, reorders.parts_perm.mem_iff]
  rw [nestingCounter, nestingCounter, found_eq]

theorem Reorders.inOrder (reorders : region.Reorders image) (inOrder : region.InOrder order)
    : image.InOrder order := by
  refine ⟨reorders.header_eq ▸ inOrder.1, fun number listed => ?_⟩
  exact inOrder.2 number (reorders.parts_perm.mem_iff.mpr listed)

theorem InOrder.mem_of_mem_members (inOrder : region.InOrder order) {block : BlockRef}
    (member : block ∈ region.members order)
    : block ∈ order := by
  have inRange {number : Nat} (known : number < order.size) : order.getD number 0 ∈ order := by
    simp [known]
  rcases mem_members.mp member with rfl | ⟨number, listed, rfl⟩
  · exact inRange inOrder.1
  · exact inRange (inOrder.2 number listed)

/-- Reordered regions have reordered outlines if blocks keep their ids. -/
theorem Reorders.outline {program other : Program} {label : BlockRef → BlockRef}
    (reorders : region.Reorders image) (inOrder : region.InOrder order)
    (ids_eq : ∀ block ∈ order, other.idOf (label block) = program.idOf block)
    (alike : List.Forall₂ Reorders regions images) (i : Nat)
    : (region.outline order regions i).Reorders program other
        (image.outline (order.map label) images i) := by
  have imageIn := reorders.inOrder inOrder
  have members_ids : (image.members (order.map label)).map other.idOf
      = (image.members order).map program.idOf := by
    rw [members_map imageIn, List.map_map]
    exact List.map_congr_left fun block member => ids_eq block (imageIn.mem_of_mem_members member)
  have members_perm : (region.members order).Perm (image.members order) := by
    rw [members, members, reorders.header_eq]
    exact (reorders.parts_perm.filterMap _).cons _
  refine ⟨rfl, ?_, ?_, ?_, ?_, rfl, reorders.reducible_eq, rfl, rfl⟩
  · have headerIn : order.getD region.header 0 ∈ order :=
      inOrder.mem_of_mem_members List.mem_cons_self
    have header_eq
        : (order.map label).getD image.header 0 = label (order.getD region.header 0) := by
      rw [reorders.header_eq, getD_map_of_lt label inOrder.1 0 0]
    simp only [Region.outline, Option.map_some, header_eq, ids_eq _ headerIn]
  · exact members_ids ▸ members_perm.map program.idOf
  · exact (reorders.parts_perm.filterMap _).map Int.ofNat
  · exact congrArg some (nestingCounter_eq alike i)

end Region

namespace Finder

variable {program other : Program} {finder reader : Finder}

/-- A run numbers registered blocks. -/
theorem mem_blocks_of_mem_order (consistent : program.Consistent) {block : BlockRef}
    (member : block ∈ finder.order program)
    : block ∈ (program.graph finder.graph).blocks := by
  rw [order] at member
  cases isStart : (program.graph finder.graph).start? with
  | none =>
      rw [isStart] at member
      exact absurd member (Array.not_mem_empty block)
  | some start =>
      rw [isStart] at member
      exact consistent.reached_mem ((consistent.mem_reached_iff isStart).mpr member)

/-- Runs under one bound on graphs that interleave their edges differently sweep alike. -/
theorem sweep_reorders
    (interleaves : program.InterleavesEdges finder.graph other reader.graph)
    (consistent : program.Consistent) (otherConsistent : other.Consistent)
    (sameBound : finder.bound = reader.bound)
    : (finder.sweep program).1.Reorders (reader.sweep other).1
      ∧ (reader.sweep other).2.isSome = (finder.sweep program).2.isSome
      ∧ reader.order other
        = (finder.order program).map (program.counterpart other reader.graph) := by
  have start_eq := interleaves.start_eq otherConsistent
  cases isStart : (program.graph finder.graph).start? with
  | none =>
      rw [isStart, Option.map_none] at start_eq
      rw [sweep_of_none isStart, sweep_of_none start_eq, order, order, isStart, start_eq]
      exact ⟨⟨fun _ => .refl _, fun _ => .refl _, rfl, .nil⟩, rfl, Array.map_empty.symm⟩
  | some start =>
      rw [isStart, Option.map_some] at start_eq
      have registered := FlowGraph.mem_of_start? isStart
      have fits := consistent.number_size_le registered
      have otherFits := otherConsistent.number_size_le (FlowGraph.mem_of_start? start_eq)
      obtain ⟨carried, sources_perm⟩ :=
        interleaves.numbered_alike consistent otherConsistent registered
      have last_size := carried.sound.last_size
      obtain ⟨sweep, started, steady⟩ := carried.sound.steady_start
      obtain ⟨otherSweep, otherStarted, otherSteady⟩ := carried.image_sound.steady_start
      have reorders := Sweep.Reorders.of_start carried.last_eq carried.size_eq last_size
        sources_perm started otherStarted
      obtain ⟨reordersEnd, both⟩ := reorders.run steady otherSteady carried.last_eq
        carried.size_eq last_size finder.bound
      rw [sweep_of_started isStart fits started,
        sweep_of_started start_eq otherFits otherStarted, ← sameBound]
      refine ⟨reordersEnd, both, ?_⟩
      rw [order, order, isStart, start_eq]
      exact carried.order_eq

/-- Runs on built graphs that differ only in how the edges out of different blocks are interleaved
both give up or both end, count alike, and leave the same loops in the same order up to the order in
which each lists its blocks and its children.
-/
theorem runFresh_interleavedEdges (calls others : List BuildCall) (finder reader : Finder)
    (store otherStore : LoopStore)
    (interleaves : (Program.build calls).InterleavesEdges finder.graph (Program.build others)
      reader.graph)
    (sameBound : finder.bound = reader.bound)
    : let run := finder.runFresh (Program.build calls) store
      let other := reader.runFresh (Program.build others) otherStore
      other.finder.stopped = run.finder.stopped
      ∧ (∃ count, run.outcome = .ok count ∧ other.outcome = .ok count)
      ∧ List.Forall₂ (Outline.Reorders (Program.build calls) (Program.build others))
          (run.store.outlines store.addForest.2)
          (other.store.outlines otherStore.addForest.2) := by
  intro run other
  have consistent := Program.consistent_build calls
  have otherConsistent := Program.consistent_build others
  obtain ⟨reorders, both, order_eq⟩ :=
    sweep_reorders interleaves consistent otherConsistent sameBound
  have alike := reorders.regions_alike
  have shows := finder.shows (Program.build calls) store
  have otherShows := reader.shows (Program.build others) otherStore
  refine ⟨?_, ?_, ?_⟩
  · exact otherShows.stopped_eq.trans (both.trans shows.stopped_eq.symm)
  · refine ⟨_, finder.runFresh_outcome consistent store, ?_⟩
    have sizes := alike.length_eq
    rw [Array.length_toList, Array.length_toList] at sizes
    rw [reader.runFresh_outcome otherConsistent otherStore, both, sizes,
      interleaves.start_eq otherConsistent, Option.isNone_map]
  · have regionsIn := (finder.sweep_inOrder consistent).1
    rw [shows.outlines_eq, otherShows.outlines_eq, order_eq]
    refine .cons (Outline.reorders_root _ _) (List.forall₂_iff_get.mpr ⟨?_, ?_⟩)
    · rw [List.length_mapIdx, List.length_mapIdx, alike.length_eq]
    · intro i inRange otherInRange
      rw [List.length_mapIdx] at inRange otherInRange
      rw [List.get_eq_getElem, List.get_eq_getElem, List.getElem_mapIdx, List.getElem_mapIdx]
      refine (alike.get inRange otherInRange).outline
        (regionsIn _ (Array.mem_toList_iff.mp (List.getElem_mem inRange))) ?_ alike i
      intro block member
      exact (interleaves.counterpart_spec otherConsistent
        (mem_blocks_of_mem_order consistent member)).2

/-- An irreducible loop inside another, with the edges once from the first source to the last and
once the other way round: the outer loop lists its blocks in two orders.
-/
theorem runFresh_interleavedEdges_irreducible
    : let registered := BuildCall.ofEdges 6 []
      let edges := [(0, 1), (0, 3), (1, 2), (1, 3), (2, 4), (2, 3), (3, 4), (3, 2), (4, 1),
        (4, 5), (5, 1)]
      let others := [(5, 1), (4, 1), (4, 5), (3, 4), (3, 2), (2, 4), (2, 3), (1, 2), (1, 3),
        (0, 1), (0, 3)]
      let finder : Finder := { graph := 0, forest := 0 }
      let program := Program.build (registered ++ BuildCall.connects 0 edges)
      let other := Program.build (registered ++ BuildCall.connects 0 others)
      let loops := (finder.runFresh program {}).store.outlines 0
      let otherLoops := (finder.runFresh other {}).store.outlines 0
      program.InterleavesEdges 0 other 0
      ∧ loops.map Outline.blocks = [[], [2, 3], [1, 4, 5]]
      ∧ otherLoops.map Outline.blocks = [[], [2, 3], [1, 5, 4]]
      ∧ loops.map Outline.reducible = [true, false, false]
      ∧ List.Forall₂ (Outline.Reorders program other) loops otherLoops := by
  intro registered edges others finder program other loops otherLoops
  have interleaves : program.InterleavesEdges 0 other 0 :=
    Program.interleavesEdges_connect registered 0 (by decide)
  obtain ⟨-, -, reorders⟩ := runFresh_interleavedEdges _ _ finder finder {} {} interleaves rfl
  exact ⟨interleaves, by decide +kernel, by decide +kernel, by decide +kernel, reorders⟩

end Finder

end LoopNest
