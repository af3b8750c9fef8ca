import LoopNest.Proofs.Finder.Runs
import Mathlib.Data.Set.Image

/-! The body of a loop: its blocks and those of all loops below it. The bodies of the loops found
by a sweep are the clusters of their headers.
-/

namespace LoopNest

theorem Region.mem_members {order : Array BlockRef} {region : Region} {block : BlockRef}
    : block ∈ region.members order
      ↔ order.getD region.header 0 = block
        ∨ ∃ number, Part.block number ∈ region.parts ∧ order.getD number 0 = block := by
  rw [Region.members, List.mem_cons, List.mem_filterMap]
  refine or_congr eq_comm ⟨?_, ?_⟩
  · rintro ⟨part, listed, same⟩
    cases part with
    | block number => exact ⟨number, listed, Option.some.inj same⟩
    | loop index => cases same
  · rintro ⟨number, listed, same⟩
    exact ⟨.block number, listed, congrArg some same⟩

namespace LoopStore

variable {store : LoopStore} {ref root : LoopRef} {block : BlockRef}

/-- The blocks of a loop and of all loops that can be reached from it through children. -/
def body (store : LoopStore) (ref : LoopRef) : Set BlockRef :=
  { block | ∃ inner,
      Relation.ReflTransGen (fun outer nested => nested ∈ (store.loop outer).children) ref inner
      ∧ block ∈ (store.loop inner).blocks }

theorem mem_body_iff
    : block ∈ store.body ref
      ↔ block ∈ (store.loop ref).blocks
        ∨ ∃ nested ∈ (store.loop ref).children, block ∈ store.body nested := by
  constructor
  · intro ⟨inner, below, listed⟩
    rcases below.cases_head with rfl | ⟨nested, child, rest⟩
    · exact Or.inl listed
    · exact Or.inr ⟨nested, child, inner, rest, listed⟩
  · intro known
    rcases known with listed | ⟨nested, child, inner, rest, listed⟩
    · exact ⟨ref, .refl, listed⟩
    · exact ⟨inner, .head child rest, listed⟩

end LoopStore

namespace Traversal

variable {walk : Traversal} {first x : Nat} {sweep : Sweep} {region : Region}

/-- A cluster is its header with the blocks and the clusters that its region lists. Witness: what
stands directly inside a cluster and heads nothing is a cluster of one number.
-/
theorem Swept.cluster_iff_parts (swept : walk.Swept first sweep)
    (recorded : region ∈ sweep.regions)
    : walk.Cluster region.header x
      ↔ region.header = x
        ∨ Part.block x ∈ region.parts
        ∨ ∃ index other,
            Part.loop index ∈ region.parts
            ∧ sweep.regions[index]? = some other
            ∧ walk.Cluster other.header x := by
  have described := swept.described region recorded
  constructor
  · intro member
    cases Nat.eq_or_lt_of_le member.le with
    | inl same => exact Or.inl same
    | inr later =>
        have inner := inner_outermost member (Nat.ne_of_gt later)
        have around := walk.outermost_cluster (region.header + 1) x
        obtain ⟨part, listed, numbered⟩ := described.inner_part inner
        cases part with
        | block number =>
            have plain := described.block_plain number listed
            rw [← Option.some.inj numbered] at around
            have only : x = number := by
              by_contra differs
              exact plain (around.heads differs)
            exact Or.inr (Or.inl (only ▸ listed))
        | loop index =>
            obtain ⟨other, found, isHeader⟩ := Option.map_eq_some_iff.mp numbered
            rw [← isHeader] at around
            exact Or.inr (Or.inr ⟨index, other, listed, found, around⟩)
  · intro known
    rcases known with rfl | listed | ⟨index, other, listed, found, member⟩
    · exact walk.cluster_self _
    · obtain ⟨y, numbered, inner⟩ := described.part_inner listed
      exact Option.some.inj numbered ▸ inner.2.1
    · obtain ⟨y, numbered, inner⟩ := described.part_inner listed
      have isHeader : other.header = y := by simpa [Part.number?, found] using numbered
      exact inner.2.1.trans (isHeader ▸ member)

/-- The body of a recorded loop is the cluster of its header. Witness: strong induction, as
regions nest earlier ones only.
-/
theorem Swept.body_eq {store : LoopStore} {root : LoopRef} {forest : ForestRef}
    (swept : walk.Swept first sweep)
    (grown : LoopStore.Grown walk.order sweep.regions.toList root store forest) {i : Nat}
    (found : sweep.regions[i]? = some region)
    : store.body (root + 1 + i) = walk.blockOf '' { x | walk.Cluster region.header x } := by
  induction i using Nat.strong_induction_on generalizing region with
  | _ i ih =>
      have found' : sweep.regions.toList[i]? = some region := by
        rwa [Array.getElem?_toList]
      obtain ⟨parent, -, loop_eq⟩ := grown.region_loop i region found'
      have earlier := swept.nestsEarlier i region found'
      have recorded := Array.mem_of_getElem? found
      ext block
      rw [LoopStore.mem_body_iff, loop_eq, Set.mem_image]
      simp only [Region.toLoop, List.mem_toArray, Region.mem_members, Region.mem_nested]
      constructor
      · intro known
        rcases known with
          (isHeader | ⟨number, listed, same⟩) | ⟨nested, ⟨index, listed, rfl⟩, inside⟩
        · exact ⟨region.header, walk.cluster_self _, isHeader⟩
        · exact ⟨number, (swept.cluster_iff_parts recorded).mpr (Or.inr (Or.inl listed)), same⟩
        · obtain ⟨y, numbered, -⟩ := (swept.described region recorded).part_inner listed
          obtain ⟨other, foundToo, -⟩ := Option.map_eq_some_iff.mp numbered
          rw [ih index (earlier index listed) foundToo] at inside
          obtain ⟨x, member, same⟩ := inside
          refine ⟨x, (swept.cluster_iff_parts recorded).mpr (Or.inr (Or.inr ?_)), same⟩
          exact ⟨index, other, listed, foundToo, member⟩
      · rintro ⟨x, member, same⟩
        rcases (swept.cluster_iff_parts recorded).mp member with
          rfl | listed | ⟨index, other, listed, foundToo, memberToo⟩
        · exact Or.inl (Or.inl same)
        · exact Or.inl (Or.inr ⟨x, listed, same⟩)
        · refine Or.inr ⟨root + 1 + index, ⟨index, listed, rfl⟩, ?_⟩
          rw [ih index (earlier index listed) foundToo]
          exact ⟨x, memberToo, same⟩

end Traversal

namespace Program.Consistent

variable {program : Program} {g : GraphRef} {start : BlockRef} {consistent : program.Consistent}
  {registered : start ∈ (program.graph g).blocks} {first top : Nat} {final : Sweep}
  {store : LoopStore} {root : LoopRef} {forest : ForestRef}

/-- The blocks of a cluster. -/
def clusterBlocks (consistent : program.Consistent)
    (registered : start ∈ (program.graph g).blocks) (top : Nat) : Set BlockRef :=
  (program.number start).blockOf '' { x | (consistent.walk registered).Cluster top x }

theorem body_eq (swept : (consistent.walk registered).Swept first final)
    (grown : LoopStore.Grown (program.number start).order final.regions.toList root store forest)
    {i : Nat} {region : Region} (found : final.regions[i]? = some region)
    : store.body (root + 1 + i) = consistent.clusterBlocks registered region.header :=
  swept.body_eq grown found

/-- A numbered block is one of a cluster's exactly if its number is in the cluster. -/
theorem mem_clusterBlocks_iff (consistent : program.Consistent)
    (registered : start ∈ (program.graph g).blocks) (known : top < (program.number start).size)
    {x : Nat} (inTable : x < (program.number start).size)
    : (program.number start).blockOf x ∈ consistent.clusterBlocks registered top
      ↔ (consistent.walk registered).Cluster top x := by
  constructor
  · intro listed
    obtain ⟨y, member, same⟩ := listed
    have inTableToo : y < (program.number start).size :=
      Traversal.number_lt (Traversal.Cluster.below member known)
    exact consistent.blockOf_injOn registered inTableToo inTable same ▸ member
  · intro member
    exact ⟨x, member, rfl⟩

theorem clusterBlocks_diff (consistent : program.Consistent)
    (registered : start ∈ (program.graph g).blocks) (known : top < (program.number start).size)
    : consistent.clusterBlocks registered top \ {(program.number start).blockOf top}
      = (program.number start).blockOf ''
          ({ x | (consistent.walk registered).Cluster top x } \ {top}) := by
  have inTable : { x | (consistent.walk registered).Cluster top x }
      ⊆ { number | number < (program.number start).size } :=
    fun number member => Traversal.number_lt (Traversal.Cluster.below member known)
  have injective := (consistent.blockOf_injOn registered).mono inTable
  have topMember : {top} ⊆ { x | (consistent.walk registered).Cluster top x } :=
    Set.singleton_subset_iff.mpr ((consistent.walk registered).cluster_self top)
  rw [injective.image_sdiff_subset topMember, Set.image_singleton]
  rfl

end Program.Consistent

end LoopNest
