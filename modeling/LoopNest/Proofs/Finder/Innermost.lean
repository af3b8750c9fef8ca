import LoopNest.Proofs.Finder.Nesting
import LoopNest.Proofs.Traversal.Innermost
import Mathlib.Data.Set.Lattice
import Mathlib.Order.CompletePartialOrder

/-! Every block on a cycle is listed by exactly one loop, the innermost one around it, and the
lookup of a block finds that loop.
-/

namespace LoopNest

namespace Traversal

variable {walk : Traversal} {i j x : Nat} {sweep : Sweep} {region other : Region}

/-- A region lists exactly the numbers whose innermost cluster it describes. Witness: a number
directly inside that heads nothing has no cluster in between; any other number inside lies in the
cluster of a nested region.
-/
theorem Swept.isInnermost_iff (swept : walk.Swept 0 sweep) (found : sweep.regions[i]? = some region)
    : walk.IsInnermost region.header x
      ↔ region.header = x ∨ Part.block x ∈ region.parts := by
  have recorded := Array.mem_of_getElem? found
  have described := swept.described region recorded
  constructor
  · intro innermost
    rcases (swept.cluster_iff_parts recorded).mp innermost.member with
      isHeader | listed | ⟨index, inner, listed, foundToo, member⟩
    · exact Or.inl isHeader
    · exact Or.inr listed
    · have between := (innermost.inside _ (swept.heads foundToo) member).le
      obtain ⟨again, foundAgain, directly⟩ := (swept.loop_mem_parts_iff recorded).mp listed
      obtain rfl := Option.some.inj (foundToo.symm.trans foundAgain)
      exact absurd directly.1 (Nat.not_lt.mpr between)
  · intro known
    rcases known with rfl | listed
    · exact ⟨swept.heads found, walk.cluster_self _, fun _ _ member => member⟩
    · obtain ⟨y, numbered, inner⟩ := described.part_inner listed
      obtain rfl : x = y := Option.some.inj numbered
      refine ⟨swept.heads found, inner.2.1, fun top heads member => ?_⟩
      cases Nat.lt_or_ge region.header top with
      | inr before => exact member.of_common before inner.2.1
      | inl between =>
          have least := (walk.outermost_spec inner.1).2.2 top between member
          rw [inner.2.2] at least
          have isTop : top = x := Nat.le_antisymm member.le least
          exact absurd (isTop ▸ heads) (described.block_plain x listed)

end Traversal

namespace Program.Consistent

variable {program : Program} {g : GraphRef} {start : BlockRef} {consistent : program.Consistent}
  {registered : start ∈ (program.graph g).blocks} {final : Sweep} {store : LoopStore}
  {root : LoopRef} {forest : ForestRef} {i j x : Nat} {region other : Region}

/-- A numbered block lies on a cycle exactly if its number does. Witness: what a numbered block
leads to is numbered too.
-/
theorem transGen_blockOf_iff (consistent : program.Consistent)
    (registered : start ∈ (program.graph g).blocks) (known : x < (program.number start).size)
    : Relation.TransGen program.Flows ((program.number start).blockOf x)
        ((program.number start).blockOf x)
      ↔ Relation.TransGen (consistent.walk registered).Flows x x := by
  constructor
  · intro cycle
    have carried : ∀ ref, Relation.TransGen program.Flows ((program.number start).blockOf x) ref
        → ∃ y < (program.number start).size,
            (program.number start).blockOf y = ref
            ∧ Relation.TransGen (consistent.walk registered).Flows x y := by
      intro ref connected
      induction connected with
      | single flows =>
          obtain ⟨y, knownToo, same, taken⟩ := consistent.exists_flows registered known flows
          exact ⟨y, knownToo, same, .single taken⟩
      | tail _ flows ih =>
          obtain ⟨y, knownToo, rfl, onward⟩ := ih
          obtain ⟨z, knownLast, same, taken⟩ := consistent.exists_flows registered knownToo flows
          exact ⟨z, knownLast, same, onward.tail taken⟩
    obtain ⟨y, knownToo, same, connected⟩ := carried _ cycle
    rwa [consistent.blockOf_injOn registered knownToo known same] at connected
  · intro cycle
    exact cycle.lift (program.number start).blockOf fun _ _ flows =>
      ((consistent.walk_flows_iff registered).mp flows).2.2

/-- A recorded loop lists the blocks whose innermost cluster is its own. -/
theorem mem_blocks_iff (swept : (consistent.walk registered).Swept 0 final)
    (grown : LoopStore.Grown (program.number start).order final.regions.toList root store forest)
    (found : final.regions[i]? = some region) {block : BlockRef}
    : block ∈ (store.loop (root + 1 + i)).blocks
      ↔ ∃ x < (program.number start).size,
          (program.number start).blockOf x = block
          ∧ (consistent.walk registered).IsInnermost region.header x := by
  obtain ⟨_, -, loop_eq⟩ := grown.region_loop i region (by rwa [Array.getElem?_toList])
  rw [loop_eq, Region.toLoop, List.mem_toArray, Region.mem_members]
  constructor
  · intro listed
    obtain ⟨x, same, listed⟩ : ∃ x, (program.number start).blockOf x = block
        ∧ (region.header = x ∨ Part.block x ∈ region.parts) := by
      rcases listed with isHeader | ⟨x, listed, same⟩
      · exact ⟨region.header, isHeader, Or.inl rfl⟩
      · exact ⟨x, same, Or.inr listed⟩
    have innermost := (swept.isInnermost_iff found).mpr listed
    have known := Traversal.number_lt (innermost.member.below innermost.heads.lt)
    exact ⟨x, known, same, innermost⟩
  · rintro ⟨x, _, same, innermost⟩
    rcases (swept.isInnermost_iff found).mp innermost with rfl | listed
    · exact Or.inl same
    · exact Or.inr ⟨x, listed, same⟩

/-- A cluster inside another has fewer blocks. Witness: the outer top is not among them. -/
theorem clusterBlocks_ssubset (consistent : program.Consistent)
    (registered : start ∈ (program.graph g).blocks) {top inner : Nat}
    (member : (consistent.walk registered).Cluster top inner) (differs : inner ≠ top)
    (known : top < (program.number start).size)
    : consistent.clusterBlocks registered inner ⊂ consistent.clusterBlocks registered top := by
  have innerKnown : inner < (program.number start).size := Traversal.number_lt (member.below known)
  refine ⟨Set.image_mono fun z inside => member.trans inside, fun included => ?_⟩
  have topInside := (consistent.mem_clusterBlocks_iff registered innerKnown known).mp
    (included ⟨top, (consistent.walk registered).cluster_self _, rfl⟩)
  exact differs (Nat.le_antisymm topInside.le member.le)

/-- The loop that lists a block has a smaller body than every other loop around the block. -/
theorem body_ssubset (swept : (consistent.walk registered).Swept 0 final)
    (grown : LoopStore.Grown (program.number start).order final.regions.toList root store forest)
    (found : final.regions[i]? = some region) (foundToo : final.regions[j]? = some other)
    (known : x < (program.number start).size)
    (innermost : (consistent.walk registered).IsInnermost region.header x)
    (around : (program.number start).blockOf x ∈ store.body (root + 1 + j)) (differs : j ≠ i)
    : store.body (root + 1 + i) ⊂ store.body (root + 1 + j) := by
  have heads := swept.heads foundToo
  rw [body_eq swept grown foundToo] at around ⊢
  rw [body_eq swept grown found]
  have member := (consistent.mem_clusterBlocks_iff registered heads.lt known).mp around
  have outer := innermost.inside other.header heads member
  refine consistent.clusterBlocks_ssubset registered outer ?_ heads.lt
  exact fun sameHeader => differs (swept.index_eq found foundToo sameHeader).symm

end Program.Consistent

------------------------------------------------------------------------------------------
-- The lookup after a run
------------------------------------------------------------------------------------------

namespace LoopStore

variable {store : LoopStore} {forest : ForestRef} {ref root : LoopRef} {block : BlockRef}
  {order : Array BlockRef} {regions : List Region}

theorem innermost?_eq_none_iff
    : store.innermost? forest block = none
      ↔ ∀ ref ∈ (store.forest forest).loops, block ∉ (store.loop ref).blocks := by
  rw [innermost?, List.find?_eq_none]
  simp

theorem mem_of_innermost? (found : store.innermost? forest block = some ref)
    : ref ∈ (store.forest forest).loops ∧ block ∈ (store.loop ref).blocks := by
  rw [innermost?] at found
  refine ⟨Array.mem_toList_iff.mp (List.mem_of_find?_eq_some found), ?_⟩
  have listed := List.find?_some found
  exact Array.contains_iff_mem.mp listed

theorem Grown.not_mem_root (grown : Grown order regions root store forest)
    : block ∉ store.body root := by
  rw [mem_body_iff, grown.root_loop]
  simp

/-- A forest lists the blocks on cycles that can be reached, each in one loop, which has the
smallest body of all around the block and is what the lookup finds.
-/
structure FindsInnermost (store : LoopStore) (forest : ForestRef) (program : Program)
    (g : GraphRef)
    : Prop where
  listed_iff
    : ∀ block, (∃ ref ∈ (store.forest forest).loops, block ∈ (store.loop ref).blocks)
        ↔ block ∈ program.reached g ∧ Relation.TransGen program.Flows block block
  listed_once
    : ∀ block, ∀ ref ∈ (store.forest forest).loops, block ∈ (store.loop ref).blocks
      → ∀ other ∈ (store.forest forest).loops, block ∈ (store.loop other).blocks → other = ref
  smallest
    : ∀ block, ∀ ref ∈ (store.forest forest).loops, block ∈ (store.loop ref).blocks
      → ∀ other ∈ (store.forest forest).loops, block ∈ store.body other → other ≠ ref
        → store.body ref ⊂ store.body other
  finds
    : ∀ block, ∀ ref ∈ (store.forest forest).loops, block ∈ (store.loop ref).blocks
      → store.innermost? forest block = some ref
  misses
    : ∀ block, ¬ (block ∈ program.reached g ∧ Relation.TransGen program.Flows block block)
      → store.innermost? forest block = none

/-- What is listed once is found by the lookup. -/
theorem FindsInnermost.of_listed {program : Program} {g : GraphRef}
    (listed_iff : ∀ block,
      (∃ ref ∈ (store.forest forest).loops, block ∈ (store.loop ref).blocks)
      ↔ block ∈ program.reached g ∧ Relation.TransGen program.Flows block block)
    (listed_once : ∀ block, ∀ ref ∈ (store.forest forest).loops,
      block ∈ (store.loop ref).blocks
      → ∀ other ∈ (store.forest forest).loops, block ∈ (store.loop other).blocks → other = ref)
    (smallest : ∀ block, ∀ ref ∈ (store.forest forest).loops, block ∈ (store.loop ref).blocks
      → ∀ other ∈ (store.forest forest).loops, block ∈ store.body other → other ≠ ref
        → store.body ref ⊂ store.body other)
    : store.FindsInnermost forest program g := by
  refine ⟨listed_iff, listed_once, smallest, ?_, ?_⟩
  · intro block ref stored listed
    cases found : store.innermost? forest block with
    | none => exact absurd listed (innermost?_eq_none_iff.mp found ref stored)
    | some first =>
        obtain ⟨storedToo, listedToo⟩ := mem_of_innermost? found
        rw [listed_once block ref stored listed first storedToo listedToo]
  · intro block acyclic
    apply innermost?_eq_none_iff.mpr
    exact fun ref stored listed => acyclic ((listed_iff block).mp ⟨ref, stored, listed⟩)

end LoopStore

/-- The forest of a finished sweep. -/
theorem Program.Consistent.findsInnermost {program : Program} {g : GraphRef} {start : BlockRef}
    {consistent : program.Consistent} {final : Sweep} {store : LoopStore} {root : LoopRef}
    {forest : ForestRef} (isStart : (program.graph g).start? = some start)
    (swept : (consistent.walk (FlowGraph.mem_of_start? isStart)).Swept 0 final)
    (grown : LoopStore.Grown (program.number start).order final.regions.toList root store forest)
    : store.FindsInnermost forest program g := by
  have registered := FlowGraph.mem_of_start? isStart
  -- Only recorded loops list blocks, and only they have bodies.
  have stored_cases {ref : LoopRef} {block : BlockRef} (stored : ref ∈ (store.forest forest).loops)
      (inside : block ∈ store.body ref)
      : ∃ i region, final.regions[i]? = some region ∧ ref = root + 1 + i := by
    rcases grown.mem_loops_iff.mp stored with rfl | ⟨i, region, found, same⟩
    · exact absurd inside grown.not_mem_root
    · exact ⟨i, region, by rwa [Array.getElem?_toList] at found, same⟩
  have inBody {ref : LoopRef} {block : BlockRef} (listed : block ∈ (store.loop ref).blocks)
      : block ∈ store.body ref :=
    LoopStore.mem_body_iff.mpr (Or.inl listed)
  have injective := consistent.blockOf_injOn registered
  apply LoopStore.FindsInnermost.of_listed
  · intro block
    rw [consistent.reached_eq isStart]
    constructor
    · intro ⟨ref, stored, listed⟩
      obtain ⟨i, region, found, rfl⟩ := stored_cases stored (inBody listed)
      obtain ⟨x, known, rfl, innermost⟩ := (mem_blocks_iff swept grown found).mp listed
      refine ⟨⟨x, known, rfl⟩, (consistent.transGen_blockOf_iff registered known).mpr ?_⟩
      exact Traversal.transGen_iff.mpr ⟨region.header, innermost.heads, innermost.member⟩
    · intro ⟨⟨x, known, same⟩, cycle⟩
      subst same
      obtain ⟨top, heads, member⟩ :=
        Traversal.transGen_iff.mp ((consistent.transGen_blockOf_iff registered known).mp cycle)
      obtain ⟨top, innermost⟩ := Traversal.exists_isInnermost heads member
      obtain ⟨i, region, found, rfl⟩ := swept.exists_region innermost.heads
      refine ⟨root + 1 + i, ?_, (mem_blocks_iff swept grown found).mpr ⟨x, known, rfl, innermost⟩⟩
      exact grown.mem_loops_iff.mpr (Or.inr ⟨i, region, by rwa [Array.getElem?_toList], rfl⟩)
  · intro block ref stored listed other storedToo listedToo
    obtain ⟨i, region, found, rfl⟩ := stored_cases stored (inBody listed)
    obtain ⟨j, outer, foundToo, rfl⟩ := stored_cases storedToo (inBody listedToo)
    obtain ⟨x, known, rfl, innermost⟩ := (mem_blocks_iff swept grown found).mp listed
    obtain ⟨y, knownToo, same, innermostToo⟩ := (mem_blocks_iff swept grown foundToo).mp listedToo
    obtain rfl := injective knownToo known same
    rw [swept.index_eq foundToo found (innermostToo.unique innermost)]
  · intro block ref stored listed other storedToo around differs
    obtain ⟨i, region, found, rfl⟩ := stored_cases stored (inBody listed)
    obtain ⟨j, outer, foundToo, rfl⟩ := stored_cases storedToo around
    obtain ⟨x, known, rfl, innermost⟩ := (mem_blocks_iff swept grown found).mp listed
    exact body_ssubset swept grown found foundToo known innermost around
      fun same => differs (same ▸ rfl)

/-- A run that does not give up lists every reached block on a cycle in its innermost loop, where
the lookup finds it. Witness: loops list the numbers whose innermost cluster they describe.
-/
theorem Finder.runFresh_findsInnermost (calls : List BuildCall) (finder : Finder)
    (store : LoopStore)
    (complete : (finder.runFresh (Program.build calls) store).finder.stopped = false)
    : (finder.runFresh (Program.build calls) store).store.FindsInnermost store.addForest.2
        (Program.build calls) finder.graph := by
  have consistent := Program.consistent_build calls
  cases isStart : ((Program.build calls).graph finder.graph).start? with
  | some start =>
      obtain ⟨final, swept, grown, -⟩ := Finder.runFresh_complete consistent isStart complete
      exact Program.Consistent.findsInnermost isStart swept grown
  | none =>
      have grown := Finder.runFresh_grown_nil isStart store
      have nothing {ref : LoopRef} {block : BlockRef}
          (stored : ref ∈ ((finder.runFresh (Program.build calls) store).store.forest
            store.addForest.2).loops)
          : block ∉ ((finder.runFresh (Program.build calls) store).store.loop ref).blocks := by
        rw [grown.eq_root stored, grown.root_loop]
        exact Array.not_mem_empty block
      apply LoopStore.FindsInnermost.of_listed
      · intro block
        constructor
        · intro ⟨ref, stored, listed⟩
          exact absurd listed (nothing stored)
        · intro ⟨⟨start, isStart', _⟩, _⟩
          rw [isStart] at isStart'
          cases isStart'
      · exact fun block ref stored listed => absurd listed (nothing stored)
      · exact fun block ref stored listed => absurd listed (nothing stored)

theorem Finder.runFresh_findsInnermost_irreducible
    : let calls := BuildCall.ofEdges 6
        [(0, 1), (1, 2), (2, 3), (3, 3), (3, 2), (3, 1), (0, 3), (3, 4), (5, 5)]
      let run := runFresh { graph := 0, forest := 0 } (Program.build calls) {}
      run.finder.stopped = false
      ∧ [0, 1, 2, 3, 4, 5].map (run.store.innermost? 0)
        = [none, some 3, some 2, some 1, none, none]
      ∧ run.store.FindsInnermost 0 (Program.build calls) 0 := by
  intro calls run
  have complete : run.finder.stopped = false := by decide +kernel
  exact ⟨complete, by decide +kernel, runFresh_findsInnermost calls _ {} complete⟩

end LoopNest
