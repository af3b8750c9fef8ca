import LoopNest.Proofs.Finder.FanIn

/-! How often a loop lists what it holds: its header once, in front, and each other block and each
child once for every edge that leads from there to the header, or once if no edge does.
-/

namespace LoopNest

open Classical in
/-- How many edges of a graph lead from some blocks to a block. -/
noncomputable def Program.edgesFrom (program : Program) (g : GraphRef) (sources : Set BlockRef)
    (target : BlockRef) : Nat :=
  (program.edgesOf g).countP fun edge => edge.src ∈ sources ∧ edge.dst = target

/-- A loop lists its header first and only there, and everything else once for each edge from it to
the header, but at least once.
-/
structure LoopStore.ListsPerEdge (store : LoopStore) (ref : LoopRef) (program : Program)
    (g : GraphRef) (header : BlockRef)
    : Prop where
  header_eq : (store.loop ref).header = some header
  header_first : (store.loop ref).blocks[0]? = some header
  header_once : (store.loop ref).blocks.count header = 1
  count_block
    : ∀ block ∈ (store.loop ref).blocks, block ≠ header
      → (store.loop ref).blocks.count block = max 1 (program.edgesFrom g {block} header)
  count_child
    : ∀ child ∈ (store.loop ref).children,
        (store.loop ref).children.count child
          = max 1 (program.edgesFrom g (store.body child) header)

------------------------------------------------------------------------------------------
-- In numbers
------------------------------------------------------------------------------------------

namespace Traversal

variable {walk : Traversal} {header number first x j : Nat} {sweep : Sweep}
  {regions : Array Region} {region other : Region}

open Classical in
/-- A number directly inside a cluster is seeded once for each edge from its own cluster to the
header. Witness: such an edge is a back edge, since its source lies below the header.
-/
theorem count_seeds (inner : walk.Inner header x) (known : header < walk.size)
    : (walk.seeds header).count x = (walk.sources header).countP fun y => walk.Cluster x y := by
  rw [seeds, List.count_eq_countP, List.countP_map, latches, List.countP_filter,
    List.countP_filter]
  refine List.countP_congr fun y _ => ?_
  simp only [Function.comp_apply, Bool.and_eq_true, beq_iff_eq, decide_eq_true_eq]
  constructor
  · rintro ⟨⟨collapsed, -⟩, -⟩
    exact collapsed ▸ walk.outermost_cluster (header + 1) y
  · intro member
    have after : header < y := inner.1.trans_le member.le
    have collapsed : walk.outermost (header + 1) y = x := by
      rw [← inner.2.2] at member
      rw [outermost_eq_of_cluster inner.1 member, inner.2.2]
    exact ⟨⟨collapsed, Nat.ne_of_gt after⟩, (inner.2.1.trans member).below known⟩

/-- A number that heads nothing is a cluster of its own. -/
theorem cluster_iff_of_not_heads (plain : ¬ walk.Heads x) : walk.Cluster x number ↔ number = x := by
  constructor
  · intro member
    by_contra differs
    exact plain (member.heads differs)
  · rintro rfl
    exact walk.cluster_self number

/-- The parts of a region that stand for one number are as many as its pool has of it. -/
theorem Describes.countP_parts (described : walk.Describes regions region)
    (inner : walk.Inner region.header x)
    : region.parts.countP (fun part => part.number? regions == some x)
      = max 1 ((walk.seeds region.header).count x) := by
  obtain ⟨pool, parts_eq, pools⟩ := described.parts_eq
  calc region.parts.countP (fun part => part.number? regions == some x)
      = (region.parts.map (Part.number? regions)).count (some x) := by
        rw [List.count_eq_countP, List.countP_map]
        rfl
    _ = pool.count x := by
        rw [parts_eq, List.count_map_of_injective pool some (Option.some_injective Nat)]
    _ = max 1 ((walk.seeds region.header).count x) :=
        pools.count_eq ((pools.mem_iff x).mpr inner)

/-- Only a block's own part stands for a number that heads nothing. -/
theorem Swept.number?_eq_block (swept : walk.Swept first sweep) (plain : ¬ walk.Heads x)
    {part : Part}
    : part.number? sweep.regions = some x ↔ part = .block x := by
  cases part with
  | block number => simp [Part.number?]
  | loop index =>
      refine ⟨fun numbered => ?_, fun same => absurd same (by simp)⟩
      obtain ⟨region, found, rfl⟩ := Option.map_eq_some_iff.mp numbered
      exact absurd (swept.heads found) plain

/-- Among the parts of a region, only a loop's own part stands for the number of its header. -/
theorem Swept.number?_eq_loop (swept : walk.Swept first sweep)
    (recorded : region ∈ sweep.regions) (found : sweep.regions[j]? = some other) {part : Part}
    (listed : part ∈ region.parts)
    : part.number? sweep.regions = some other.header ↔ part = .loop j := by
  cases part with
  | block number =>
      refine ⟨fun numbered => ?_, fun same => absurd same (by simp)⟩
      have plain := (swept.described region recorded).block_plain number listed
      exact absurd (swept.heads found) (Option.some.inj numbered ▸ plain)
  | loop index =>
      rw [Part.loop.injEq]
      constructor
      · intro numbered
        obtain ⟨again, foundToo, same⟩ := Option.map_eq_some_iff.mp numbered
        exact swept.index_eq foundToo found same
      · rintro rfl
        rw [Part.number?, found, Option.map_some]

end Traversal

------------------------------------------------------------------------------------------
-- In blocks
------------------------------------------------------------------------------------------

namespace Program.Consistent

variable {program : Program} {g : GraphRef} {start : BlockRef} {consistent : program.Consistent}
  {registered : start ∈ (program.graph g).blocks} {header x first i : Nat} {final : Sweep}
  {store : LoopStore} {root : LoopRef} {forest : ForestRef} {region : Region}

open Classical in
/-- The edges from a cluster to a header, counted as edges of the graph. Witness: an edge of the
graph ends in registered blocks, which the numbering tells apart.
-/
theorem countP_sources (consistent : program.Consistent)
    (registered : start ∈ (program.graph g).blocks) (known : header < (program.number start).size)
    (xKnown : x < (program.number start).size)
    : ((consistent.walk registered).sources header).countP
        (fun y => (consistent.walk registered).Cluster x y)
      = program.edgesFrom g (consistent.clusterBlocks registered x)
          ((program.number start).blockOf header) := by
  rw [consistent.sources_eq registered known, List.countP_filterMap, edgesFrom]
  refine List.countP_congr fun edge listed => ?_
  have srcMem := (consistent.ends_mem listed).1
  have inCluster : edge.src ∈ consistent.clusterBlocks registered x
      ↔ ∃ y, (program.number start).number? (program.idOf edge.src) = some y
          ∧ (consistent.walk registered).Cluster x y := by
    simp only [consistent.number?_iff registered srcMem]
    constructor
    · rintro ⟨y, member, same⟩
      exact ⟨y, ⟨Traversal.number_lt (Traversal.Cluster.below member xKnown), same⟩, member⟩
    · rintro ⟨y, ⟨-, same⟩, member⟩
      exact ⟨y, member, same⟩
  rw [decide_eq_true_eq, inCluster]
  by_cases leads : edge.dst = (program.number start).blockOf header
  · rw [if_pos leads, and_iff_left leads]
    cases (program.number start).number? (program.idOf edge.src) <;> simp
  · rw [if_neg leads]
    exact ⟨fun counted => absurd counted Bool.false_ne_true, fun both => absurd both.2 leads⟩

/-- A number directly inside a cluster is seeded once for each edge of the graph from its own
cluster to the header.
-/
theorem count_seeds (inner : (consistent.walk registered).Inner header x)
    (known : header < (program.number start).size)
    : ((consistent.walk registered).seeds header).count x
      = program.edgesFrom g (consistent.clusterBlocks registered x)
          ((program.number start).blockOf header) := by
  rw [Traversal.count_seeds inner known]
  exact consistent.countP_sources registered known (Traversal.number_lt (inner.2.1.below known))

theorem clusterBlocks_of_not_heads (plain : ¬ (consistent.walk registered).Heads x)
    : consistent.clusterBlocks registered x = {(program.number start).blockOf x} := by
  simp only [clusterBlocks, Traversal.cluster_iff_of_not_heads plain, Set.ofPred_eq_eq_singleton,
    Set.image_singleton]

/-- The blocks that a region lists besides its header are those of numbers directly inside that
head nothing.
-/
theorem exists_inner_of_listed (swept : (consistent.walk registered).Swept first final)
    (recorded : region ∈ final.regions) {block : BlockRef}
    (listed : block ∈ region.parts.filterMap (Part.block? (program.number start).order))
    : ∃ x, (consistent.walk registered).Inner region.header x
        ∧ ¬ (consistent.walk registered).Heads x
        ∧ (program.number start).blockOf x = block := by
  obtain ⟨part, isPart, same⟩ := List.mem_filterMap.mp listed
  cases part with
  | loop index => cases same
  | block number =>
      have described := swept.described region recorded
      obtain ⟨x, numbered, inner⟩ := described.part_inner isPart
      obtain rfl := Option.some.inj numbered
      exact ⟨number, inner, described.block_plain number isPart, Option.some.inj same⟩

/-- A block is listed as often as its number was gathered. Witness: the numbering tells the blocks
of a region apart.
-/
theorem count_blocks (swept : (consistent.walk registered).Swept first final)
    (recorded : region ∈ final.regions) (known : region.header < (program.number start).size)
    (inner : (consistent.walk registered).Inner region.header x)
    (plain : ¬ (consistent.walk registered).Heads x)
    : (region.parts.filterMap (Part.block? (program.number start).order)).count
        ((program.number start).blockOf x)
      = max 1 (program.edgesFrom g {(program.number start).blockOf x}
          ((program.number start).blockOf region.header)) := by
  have described := swept.described region recorded
  have xKnown := Traversal.number_lt (inner.2.1.below known)
  rw [← clusterBlocks_of_not_heads plain, ← count_seeds inner known,
    ← described.countP_parts inner, List.count_filterMap]
  refine List.countP_congr fun part listed => ?_
  rw [beq_iff_eq, beq_iff_eq, swept.number?_eq_block plain]
  cases part with
  | loop index => simp [Part.block?]
  | block number =>
      obtain ⟨y, numbered, innerToo⟩ := described.part_inner listed
      obtain rfl := Option.some.inj numbered
      have numberKnown := Traversal.number_lt (innerToo.2.1.below known)
      rw [Part.block?, Option.some.injEq, Part.block.injEq]
      exact ⟨consistent.blockOf_injOn registered numberKnown xKnown, fun same => same ▸ rfl⟩

/-- A nested loop is listed as often as the number of its header was gathered. -/
theorem count_nested (swept : (consistent.walk registered).Swept first final)
    (grown : LoopStore.Grown (program.number start).order final.regions.toList root store forest)
    (recorded : region ∈ final.regions) (known : region.header < (program.number start).size)
    (isPart : Part.loop i ∈ region.parts)
    : (region.nested (root + 1)).count (root + 1 + i)
      = max 1 (program.edgesFrom g (store.body (root + 1 + i))
          ((program.number start).blockOf region.header)) := by
  have described := swept.described region recorded
  obtain ⟨other, found, inner⟩ := (swept.loop_mem_parts_iff recorded).mp isPart
  rw [body_eq swept grown found, ← count_seeds inner known, ← described.countP_parts inner,
    Region.nested, List.count_filterMap]
  refine List.countP_congr fun part listed => ?_
  rw [beq_iff_eq, beq_iff_eq, swept.number?_eq_loop recorded found listed]
  cases part with
  | block number => simp [Part.loop?]
  | loop index => simp [Part.loop?]

/-- The loop that a region becomes lists what it holds once for each edge. -/
theorem listsPerEdge (swept : (consistent.walk registered).Swept first final)
    (grown : LoopStore.Grown (program.number start).order final.regions.toList root store forest)
    (found : final.regions[i]? = some region)
    : store.ListsPerEdge (root + 1 + i) program g
        ((program.number start).blockOf region.header) := by
  have recorded := Array.mem_of_getElem? found
  have known := (swept.heads found).lt
  obtain ⟨parent, -, loop_eq⟩ := grown.region_loop i region (by rwa [Array.getElem?_toList])
  refine ⟨?_, ?_, ?_, ?_, ?_⟩ <;> rw [loop_eq, Region.toLoop]
  · rfl
  · have absent : (program.number start).blockOf region.header
        ∉ region.parts.filterMap (Part.block? (program.number start).order) := by
      intro listed
      obtain ⟨x, inner, -, same⟩ := exists_inner_of_listed swept recorded listed
      have xKnown := Traversal.number_lt (inner.2.1.below known)
      exact Nat.ne_of_gt inner.1 (consistent.blockOf_injOn registered xKnown known same)
    rw [List.count_toArray, Region.members, List.count_cons_self,
      List.count_eq_zero_of_not_mem absent]
  · intro block listed differs
    have others : block ∈ region.parts.filterMap (Part.block? (program.number start).order) :=
      (List.mem_cons.mp (List.mem_toArray.mp listed)).resolve_left differs
    obtain ⟨x, inner, plain, rfl⟩ := exists_inner_of_listed swept recorded others
    rw [List.count_toArray, Region.members, List.count_cons_of_ne differs.symm]
    exact count_blocks swept recorded known inner plain
  · intro child listed
    obtain ⟨index, isPart, rfl⟩ := Region.mem_nested.mp (List.mem_toArray.mp listed)
    rw [List.count_toArray]
    exact count_nested swept grown recorded known isPart

end Program.Consistent

/-- A run, whether it ends or gives up, lists in each loop the header once and everything else once
for each edge to the header. Witness: the pool of a header takes in the source of every back edge,
and what it meets later only once.
-/
theorem Finder.runFresh_listsPerEdge (calls : List BuildCall) (finder : Finder)
    (store : LoopStore)
    : let run := finder.runFresh (Program.build calls) store
      let whole := run.store.forest store.addForest.2
      ∀ ref ∈ whole.loops, ref ≠ whole.root
        → ∃ header, run.store.ListsPerEdge ref (Program.build calls) finder.graph header := by
  intro run whole ref stored notRoot
  cases isStart : ((Program.build calls).graph finder.graph).start? with
  | none =>
      have grown := Finder.runFresh_grown_nil isStart store
      exact absurd ((grown.eq_root stored).trans grown.root_eq.symm) notRoot
  | some start =>
      obtain ⟨first, final, swept, grown⟩ :=
        Finder.runFresh_grown (Program.consistent_build calls) isStart store
      obtain ⟨i, region, found, rfl⟩ := grown.stored_iff.mp ⟨stored, notRoot⟩
      rw [Array.getElem?_toList] at found
      exact ⟨_, Program.Consistent.listsPerEdge swept grown found⟩

theorem Finder.runFresh_listsPerEdge_parallel
    : let program := Program.build (BuildCall.ofEdges 3
        [(0, 1), (1, 2), (2, 1), (2, 1), (1, 0), (2, 0), (1, 0)])
      let run := runFresh { graph := 0, forest := 0 } program {}
      let whole := run.store.forest 0
      2 ∈ whole.loops
      ∧ 2 ≠ whole.root
      ∧ (run.store.loop 2).children = #[1, 1, 1]
      ∧ ∃ header, run.store.ListsPerEdge 2 program 0 header := by
  intro program run whole
  have stored : 2 ∈ whole.loops := by decide +kernel
  have notRoot : 2 ≠ whole.root := by decide +kernel
  have repeated : (run.store.loop 2).children = #[1, 1, 1] := by decide +kernel
  exact ⟨stored, notRoot, repeated, runFresh_listsPerEdge _ _ _ 2 stored notRoot⟩

end LoopNest
