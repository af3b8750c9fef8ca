import LoopNest.Proofs.Finder.Bodies
import LoopNest.Proofs.Traversal.Components

/-! Nesting is the recursive decomposition into strongly connected components: the loops below the
root are the cyclic components of what can be reached, and the loops inside a loop are those of
its body without its header.
-/

namespace LoopNest

namespace Traversal

variable {walk : Traversal} {first i j : Nat} {sweep : Sweep} {region other : Region}

theorem Swept.heads (swept : walk.Swept first sweep) (found : sweep.regions[i]? = some region)
    : walk.Heads region.header :=
  (swept.header_iff.mp ⟨region, Array.mem_of_getElem? found, rfl⟩).2

theorem Swept.exists_region {top : Nat} (swept : walk.Swept 0 sweep) (heads : walk.Heads top)
    : ∃ (i : Nat) (region : Region), sweep.regions[i]? = some region ∧ region.header = top := by
  obtain ⟨region, recorded, isHeader⟩ := swept.header_iff.mpr ⟨Nat.zero_le top, heads⟩
  obtain ⟨i, found⟩ := Array.getElem?_of_mem recorded
  exact ⟨i, region, found, isHeader⟩

/-- Different regions have different headers. -/
theorem Swept.index_eq (swept : walk.Swept first sweep)
    (found : sweep.regions[i]? = some region) (foundToo : sweep.regions[j]? = some other)
    (same : region.header = other.header)
    : i = j := by
  rcases Nat.lt_trichotomy i j with before | equal | after
  · exact absurd same (Nat.ne_of_gt (swept.header_lt before found foundToo))
  · exact equal
  · exact absurd same (Nat.ne_of_lt (swept.header_lt after foundToo found))

/-- A region nests exactly the regions whose headers stand directly inside its cluster. -/
theorem Swept.loop_mem_parts_iff (swept : walk.Swept first sweep)
    (recorded : region ∈ sweep.regions)
    : Part.loop i ∈ region.parts
      ↔ ∃ other, sweep.regions[i]? = some other ∧ walk.Inner region.header other.header := by
  have described := swept.described region recorded
  constructor
  · intro listed
    obtain ⟨x, numbered, inner⟩ := described.part_inner listed
    obtain ⟨other, found, rfl⟩ := Option.map_eq_some_iff.mp numbered
    exact ⟨other, found, inner⟩
  · intro ⟨other, found, inner⟩
    obtain ⟨part, listed, numbered⟩ := described.inner_part inner
    cases part with
    | block number =>
        have plain := described.block_plain number listed
        rw [Option.some.inj numbered] at plain
        exact absurd (swept.heads found) plain
    | loop index =>
        obtain ⟨again, foundToo, same⟩ := Option.map_eq_some_iff.mp numbered
        rwa [← swept.index_eq foundToo found same]

/-- No region nests the region of an outermost header, and only those. -/
theorem Swept.nestedBy_none_iff (swept : walk.Swept 0 sweep) (base : Nat)
    (found : sweep.regions[i]? = some region)
    : LoopStore.NestedBy base sweep.regions.toList (base + i) none
      ↔ walk.outermost 0 region.header = region.header := by
  rw [outermost_zero_eq_iff]
  constructor
  · intro unnested header inner
    have heads := inner.2.1.heads (Nat.ne_of_gt inner.1)
    obtain ⟨outer, recorded, rfl⟩ := swept.header_iff.mpr ⟨Nat.zero_le header, heads⟩
    refine unnested outer (Array.mem_toList_iff.mpr recorded) (Region.mem_nested.mpr ⟨i, ?_, rfl⟩)
    exact (swept.loop_mem_parts_iff recorded).mpr ⟨region, found, inner⟩
  · intro outside outer listed nested
    obtain ⟨index, listedToo, same⟩ := Region.mem_nested.mp nested
    obtain rfl : index = i := Nat.add_left_cancel same
    obtain ⟨again, foundToo, inner⟩ :=
      (swept.loop_mem_parts_iff (Array.mem_toList_iff.mp listed)).mp listedToo
    obtain rfl := Option.some.inj (found.symm.trans foundToo)
    exact outside outer.header inner

end Traversal

/-- Loops decompose a part of a graph: their bodies are its cyclic components, and each of these
is the body of just one of them.
-/
structure LoopStore.Decomposes (store : LoopStore) (refs : List LoopRef)
    (step : BlockRef → BlockRef → Prop) (scope : Set BlockRef)
    : Prop where
  component : ∀ ref ∈ refs, IsCyclicComponent step scope (store.body ref)
  unique
    : ∀ part, IsCyclicComponent step scope part
      → ∃! ref, ref ∈ refs ∧ store.body ref = part

/-- The blocks that can be reached from the start of a graph. -/
def Program.reached (program : Program) (g : GraphRef) : Set BlockRef :=
  { ref | ∃ start, (program.graph g).start? = some start
      ∧ Within program.Flows Set.univ start ref }

/-- A block comes before all others of a set in the preorder from the start of a graph. -/
def Program.IsFirstOf (program : Program) (g : GraphRef) (part : Set BlockRef)
    (block : BlockRef) : Prop :=
  block ∈ part
  ∧ ∃ start number,
      (program.graph g).start? = some start
      ∧ (program.number start).number? (program.idOf block) = some number
      ∧ ∀ other ∈ part, other ≠ block
          → ∃ later,
              (program.number start).number? (program.idOf other) = some later
              ∧ number < later

namespace Program.Consistent

variable {program : Program} {g : GraphRef} {start : BlockRef} {consistent : program.Consistent}
  {registered : start ∈ (program.graph g).blocks} {final : Sweep} {store : LoopStore}
  {root : LoopRef} {forest : ForestRef}

theorem reached_eq (consistent : program.Consistent)
    (isStart : (program.graph g).start? = some start)
    : program.reached g
      = (program.number start).blockOf '' { number | number < (program.number start).size } := by
  ext ref
  constructor
  · intro ⟨start', isStart', connected⟩
    obtain rfl := Option.some.inj (isStart.symm.trans isStart')
    exact (consistent.reached_iff (FlowGraph.mem_of_start? isStart)).mp connected
  · intro numbered
    exact ⟨start, isStart,
      (consistent.reached_iff (FlowGraph.mem_of_start? isStart)).mpr numbered⟩

/-- The loops of the outermost headers in a scope that clusters fill decompose the blocks of the
scope.
-/
theorem decomposes (swept : (consistent.walk registered).Swept 0 final)
    (grown : LoopStore.Grown (program.number start).order final.regions.toList root store forest)
    {first : Nat} {scope : Set Nat} (filled : (consistent.walk registered).Filled first scope)
    (inTable : ∀ number ∈ scope, number < (program.number start).size) {refs : List LoopRef}
    (mem_iff : ∀ ref, ref ∈ refs
      ↔ ∃ i region, final.regions[i]? = some region
          ∧ ref = root + 1 + i
          ∧ region.header ∈ scope
          ∧ (consistent.walk registered).outermost first region.header = region.header)
    : store.Decomposes refs program.Flows ((program.number start).blockOf '' scope) := by
  have included {top : Nat} (inside : top ∈ scope)
      : { x | (consistent.walk registered).Cluster top x } ⊆ scope :=
    fun number member => filled.cluster_mem top inside number member
  refine ⟨?_, ?_⟩
  · intro ref listed
    obtain ⟨i, region, found, rfl, inside, isTop⟩ := (mem_iff ref).mp listed
    rw [body_eq swept grown found, clusterBlocks,
      consistent.isCyclicComponent_blockOf_iff registered inTable (included inside),
      filled.isCyclicComponent_iff]
    exact ⟨region.header, inside, isTop, swept.heads found, rfl⟩
  · intro part' component
    have partIn : part' ⊆ (program.number start).blockOf '' scope := by
      obtain ⟨place, -, rfl⟩ := component.component
      exact fun other linked => linked.1.target_mem
    obtain ⟨part, inScope, rfl⟩ := Set.subset_image_iff.mp partIn
    rw [consistent.isCyclicComponent_blockOf_iff registered inTable inScope,
      filled.isCyclicComponent_iff] at component
    obtain ⟨top, inside, isTop, heads, rfl⟩ := component
    obtain ⟨i, region, found, rfl⟩ := swept.exists_region heads
    refine ⟨root + 1 + i, ⟨?_, body_eq swept grown found⟩, ?_⟩
    · exact (mem_iff _).mpr ⟨i, region, found, rfl, inside, isTop⟩
    intro ref ⟨listed, sameBody⟩
    obtain ⟨j, other, foundToo, rfl, insideToo, -⟩ := (mem_iff ref).mp listed
    rw [body_eq swept grown foundToo, clusterBlocks,
      ((consistent.blockOf_injOn registered).mono inTable).image_eq_image_iff
        (included insideToo) (included inside)] at sameBody
    -- Both headers lie in both clusters, so neither stands before the other.
    have otherIn : other.header ∈ { x | (consistent.walk registered).Cluster region.header x } :=
      sameBody ▸ (consistent.walk registered).cluster_self other.header
    have regionIn : region.header ∈ { x | (consistent.walk registered).Cluster other.header x } :=
      sameBody ▸ (consistent.walk registered).cluster_self region.header
    have headers := Nat.le_antisymm (Traversal.Cluster.le regionIn) (Traversal.Cluster.le otherIn)
    rw [swept.index_eq foundToo found headers]

/-- Below the root hang the loops of the outermost headers. -/
theorem mem_inner_root_iff (swept : (consistent.walk registered).Swept 0 final)
    (grown : LoopStore.Grown (program.number start).order final.regions.toList root store forest)
    (ref : LoopRef)
    : ref ∈ store.inner forest (store.forest forest).root
      ↔ ∃ i region, final.regions[i]? = some region
          ∧ ref = root + 1 + i
          ∧ region.header ∈ { number | number < (program.number start).size }
          ∧ (consistent.walk registered).outermost 0 region.header = region.header := by
  rw [LoopStore.inner, if_pos rfl, List.mem_filter, Array.mem_toList_iff, grown.mem_loops_iff,
    grown.root_eq, beq_iff_eq]
  constructor
  · rintro ⟨stored, below⟩
    rcases stored with rfl | ⟨i, region, found, rfl⟩
    · rw [grown.root_loop] at below
      cases below
    · obtain ⟨parent, nestedBy, loop_eq⟩ := grown.region_loop i region found
      rw [Array.getElem?_toList] at found
      rw [loop_eq] at below
      have outermost : parent = none := by
        cases parent with
        | none => rfl
        | some parent =>
            obtain ⟨j, _, _, _, rfl⟩ := nestedBy
            have above : root < root + 1 + j :=
              (Nat.lt_succ_self root).trans_le (Nat.le_add_right _ j)
            exact absurd (Option.some.inj below) (Nat.ne_of_gt above)
      subst outermost
      exact ⟨i, region, found, rfl, (swept.heads found).lt,
        (swept.nestedBy_none_iff (root + 1) found).mp nestedBy⟩
  · rintro ⟨i, region, found, same, _, isTop⟩
    have found' : final.regions.toList[i]? = some region := by
      rwa [Array.getElem?_toList]
    obtain ⟨parent, nestedBy, loop_eq⟩ := grown.region_loop i region found'
    refine ⟨Or.inr ⟨i, region, found', same⟩, ?_⟩
    subst same
    rw [loop_eq]
    cases parent with
    | none => rfl
    | some parent =>
        obtain ⟨j, outer, foundOuter, listed, -⟩ := nestedBy
        have unnested := (swept.nestedBy_none_iff (root + 1) found).mpr isTop
        exact absurd listed (unnested outer (List.mem_of_getElem? foundOuter))

/-- The children of a loop are the loops of the headers directly inside its header's cluster. -/
theorem mem_children_iff (swept : (consistent.walk registered).Swept 0 final)
    (grown : LoopStore.Grown (program.number start).order final.regions.toList root store forest)
    {i : Nat} {region : Region} (found : final.regions[i]? = some region) (ref : LoopRef)
    : ref ∈ (store.loop (root + 1 + i)).children.toList
      ↔ ∃ j other, final.regions[j]? = some other
          ∧ ref = root + 1 + j
          ∧ other.header
            ∈ { x | (consistent.walk registered).Cluster region.header x } \ {region.header}
          ∧ (consistent.walk registered).outermost (region.header + 1) other.header
            = other.header := by
  obtain ⟨parent, -, loop_eq⟩ := grown.region_loop i region (by rwa [Array.getElem?_toList])
  rw [loop_eq, Region.toLoop, List.toList_toArray, Region.mem_nested]
  constructor
  · rintro ⟨j, listed, same⟩
    obtain ⟨other, foundToo, inner⟩ :=
      (swept.loop_mem_parts_iff (Array.mem_of_getElem? found)).mp listed
    exact ⟨j, other, foundToo, same.symm, Traversal.inner_iff.mp inner⟩
  · rintro ⟨j, other, foundToo, same, inner⟩
    refine ⟨j, ?_, same.symm⟩
    exact (swept.loop_mem_parts_iff (Array.mem_of_getElem? found)).mpr
      ⟨other, foundToo, Traversal.inner_iff.mpr inner⟩

theorem isFirstOf_body (swept : (consistent.walk registered).Swept 0 final)
    (grown : LoopStore.Grown (program.number start).order final.regions.toList root store forest)
    (isStart : (program.graph g).start? = some start) {i : Nat} {region : Region}
    (found : final.regions[i]? = some region)
    : program.IsFirstOf g (store.body (root + 1 + i))
        ((program.number start).blockOf region.header) := by
  have sound := (consistent.whole registered).sound
  have known := (swept.heads found).lt
  rw [body_eq swept grown found]
  refine ⟨⟨region.header, (consistent.walk registered).cluster_self _, rfl⟩, start, region.header,
    isStart, sound.number_blockOf known, ?_⟩
  intro other ⟨x, member, same⟩ differs
  have member : (consistent.walk registered).Cluster region.header x := member
  subst same
  have later : region.header ≠ x := fun equal => differs (equal ▸ rfl)
  exact ⟨x, sound.number_blockOf (Traversal.number_lt (member.below known)),
    Nat.lt_of_le_of_ne member.le later⟩

end Program.Consistent

------------------------------------------------------------------------------------------
-- Nesting after a run
------------------------------------------------------------------------------------------

/-- The nesting in a forest is the recursive decomposition of a graph into strongly connected
components: the loops below the root, each listed once, are the cyclic components of what is
reached, the children of each other loop are those of its body without its header, and the header
comes first in the body.
-/
structure LoopStore.NestsComponents (store : LoopStore) (forest : ForestRef)
    (program : Program) (g : GraphRef)
    : Prop where
  outermost
    : store.Decomposes (store.inner forest (store.forest forest).root) program.Flows
        (program.reached g)
  outermost_nodup : (store.inner forest (store.forest forest).root).Nodup
  inside
    : ∀ ref ∈ (store.forest forest).loops, ref ≠ (store.forest forest).root
      → ∃ header,
          (store.loop ref).header = some header
          ∧ store.Decomposes (store.loop ref).children.toList program.Flows
              (store.body ref \ {header})
          ∧ program.IsFirstOf g (store.body ref) header

/-- A run that does not give up nests loops as components. Witness: in numbers, bodies are
clusters, and the components of a scope that clusters fill are its outermost clusters.
-/
theorem Finder.runFresh_nestsComponents (calls : List BuildCall) (finder : Finder)
    (store : LoopStore)
    (complete : (finder.runFresh (Program.build calls) store).finder.stopped = false)
    : (finder.runFresh (Program.build calls) store).store.NestsComponents store.addForest.2
        (Program.build calls) finder.graph := by
  have consistent := Program.consistent_build calls
  cases isStart : ((Program.build calls).graph finder.graph).start? with
  | none =>
      have grown := Finder.runFresh_grown_nil isStart store
      refine ⟨⟨?_, ?_⟩, grown.nodup_inner_root, ?_⟩
      · intro ref listed
        rw [LoopStore.inner, if_pos rfl, List.mem_filter] at listed
        have isRoot := grown.eq_root (Array.mem_toList_iff.mp listed.1)
        rw [isRoot, grown.root_loop] at listed
        cases listed.2
      · intro part component
        obtain ⟨place, ⟨start, isStart', _⟩, _⟩ := component.component
        rw [isStart] at isStart'
        cases isStart'
      · intro ref listed notRoot
        exact absurd ((grown.eq_root listed).trans grown.root_eq.symm) notRoot
  | some start =>
      obtain ⟨final, swept, grown, -⟩ := Finder.runFresh_complete consistent isStart complete
      refine ⟨?_, grown.nodup_inner_root, ?_⟩
      · rw [consistent.reached_eq isStart]
        exact Program.Consistent.decomposes swept grown
          (consistent.walk (FlowGraph.mem_of_start? isStart)).filled_all (fun _ known => known)
          (Program.Consistent.mem_inner_root_iff swept grown)
      · intro ref listed notRoot
        rcases grown.mem_loops_iff.mp listed with isRoot | ⟨i, region, found, rfl⟩
        · exact absurd (isRoot.trans grown.root_eq.symm) notRoot
        · obtain ⟨parent, -, loop_eq⟩ := grown.region_loop i region found
          rw [Array.getElem?_toList] at found
          refine ⟨((Program.build calls).number start).blockOf region.header,
            by rw [loop_eq]; rfl, ?_,
            Program.Consistent.isFirstOf_body swept grown isStart found⟩
          rw [Program.Consistent.body_eq swept grown found,
            consistent.clusterBlocks_diff _ (swept.heads found).lt]
          refine Program.Consistent.decomposes swept grown
            ((consistent.walk (FlowGraph.mem_of_start? isStart)).filled_inside region.header) ?_
            (Program.Consistent.mem_children_iff swept grown found)
          intro number inside
          exact Traversal.number_lt (inside.1.below (swept.heads found).lt)

theorem Finder.runFresh_nestsComponents_irreducible
    : let calls := BuildCall.ofEdges 5 [(0, 1), (1, 2), (2, 3), (3, 2), (3, 1), (0, 3), (4, 4)]
      let run := runFresh { graph := 0, forest := 0 } (Program.build calls) {}
      run.finder.stopped = false ∧ run.store.NestsComponents 0 (Program.build calls) 0 :=
  have complete : (runFresh { graph := 0, forest := 0 } (Program.build (BuildCall.ofEdges 5
      [(0, 1), (1, 2), (2, 3), (3, 2), (3, 1), (0, 3), (4, 4)])) {}).finder.stopped = false := by
    decide +kernel
  ⟨complete, runFresh_nestsComponents _ _ _ complete⟩

end LoopNest
