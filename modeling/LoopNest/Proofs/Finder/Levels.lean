import LoopNest.Proofs.Finder.Bounds
import LoopNest.Proofs.Finder.Nesting
import LoopNest.Proofs.Forest.Levels
import Mathlib.Data.Set.Card
import Mathlib.Order.CompletePartialOrder

/-! Levels after a run count loops: the depth of a loop is the number of loops whose bodies hold
its header, its height is the length of the longest chain of ever smaller bodies below it, and the
root has the height of the deepest loop.
-/

namespace LoopNest

namespace LoopStore

variable {store before after : LoopStore} {forest : ForestRef} {ref other last : LoopRef}
  {header block : BlockRef} {steps : Nat}

/-- The stored loops but the root. -/
def properLoops (store : LoopStore) (forest : ForestRef) : Set LoopRef :=
  { ref | ref ∈ (store.forest forest).loops ∧ ref ≠ (store.forest forest).root }

/-- No stored loop lists the header of another among its own blocks. -/
def HeadsApart (store : LoopStore) (forest : ForestRef) : Prop :=
  ∀ ref ∈ store.properLoops forest, ∀ header, (store.loop ref).header = some header
    → ∀ other ∈ store.properLoops forest, header ∈ (store.loop other).blocks → other = ref

theorem SameShape.properLoops_eq (same : SameShape before after) (forest : ForestRef)
    : after.properLoops forest = before.properLoops forest := by
  rw [properLoops, same.forest_eq, ← properLoops]

theorem SameShape.headsApart (same : SameShape before after) (apart : before.HeadsApart forest)
    : after.HeadsApart forest := by
  simpa only [HeadsApart, same.properLoops_eq, same.header_eq, same.blocks_eq] using apart

/-- The loops but the root that a loop stands in, itself included. -/
def enclosing (store : LoopStore) (forest : ForestRef) (ref : LoopRef) : Set LoopRef :=
  { outer ∈ store.properLoops forest | Reaches (store.inner forest) outer ref }

/-- The loops but the root whose bodies hold a block. -/
def holding (store : LoopStore) (forest : ForestRef) (block : BlockRef) : Set LoopRef :=
  { ref ∈ store.properLoops forest | block ∈ store.body ref }

/-- From the given loop on, the body of each loop but the root is strictly inside that of the one
before.
-/
def ShrinksAlong (store : LoopStore) (forest : ForestRef) (ref : LoopRef)
    (chain : List LoopRef) : Prop :=
  (∀ nested ∈ chain, nested ∈ store.properLoops forest)
  ∧ (ref :: chain).IsChain fun outer nested => store.body nested ⊂ store.body outer

/-- The levels in a forest count its loops. -/
structure CountsLoops (store : LoopStore) (forest : ForestRef) : Prop where
  depth_eq
    : ∀ ref ∈ store.properLoops forest,
        ∃ header,
          (store.loop ref).header = some header
          ∧ (store.loop ref).depth = (store.holding forest header).ncard
  height_eq
    : ∀ ref ∈ store.properLoops forest,
        ∃ most : Nat,
          (store.loop ref).height = most
          ∧ IsGreatest { length | ∃ chain, chain.length = length
              ∧ store.ShrinksAlong forest ref chain } most
  root_depth : (store.loop (store.forest forest).root).depth = 0
  root_height
    : IsGreatest { depth | ∃ ref ∈ (store.forest forest).loops, (store.loop ref).depth = depth }
        (store.loop (store.forest forest).root).height

namespace WellFormed

theorem proper_of_mem_inner (formed : store.WellFormed forest)
    (stored : ref ∈ (store.forest forest).loops) (listed : other ∈ store.inner forest ref)
    : other ∈ store.properLoops forest := by
  obtain ⟨storedToo, hasParent⟩ := (formed.mem_inner_iff stored).mp listed
  exact ⟨storedToo, formed.ne_root_of_parent hasParent⟩

theorem proper_of_reaches (formed : store.WellFormed forest)
    (proper : ref ∈ store.properLoops forest) (reaches : Reaches (store.inner forest) ref last)
    : last ∈ store.properLoops forest := by
  obtain ⟨steps, way⟩ := reaches.exists_way
  exact ⟨formed.mem_of_reaches proper.1 reaches,
    (formed.counter_of_way proper.1 proper.2 way).1⟩

------------------------------------------------------------------------------------------
-- Bodies and ways
------------------------------------------------------------------------------------------

theorem reaches_iff_children (formed : store.WellFormed forest)
    (proper : ref ∈ store.properLoops forest)
    : Reaches (store.inner forest) ref last
      ↔ Relation.ReflTransGen (fun outer nested => nested ∈ (store.loop outer).children) ref
          last := by
  have inner_iff {outer nested : LoopRef} (proper : outer ∈ store.properLoops forest)
      : nested ∈ store.inner forest outer ↔ nested ∈ (store.loop outer).children := by
    rw [formed.mem_inner_iff proper.1, formed.mem_children_iff outer proper.1 proper.2]
  constructor
  · intro reaches
    induction reaches using Relation.ReflTransGen.head_induction_on with
    | refl => exact .refl
    | head listed _ ih =>
        exact .head ((inner_iff proper).mp listed)
          (ih (formed.proper_of_mem_inner proper.1 listed))
  · intro downward
    induction downward using Relation.ReflTransGen.head_induction_on with
    | refl => exact .refl
    | head child _ ih =>
        have listed := (inner_iff proper).mpr child
        exact .head listed (ih (formed.proper_of_mem_inner proper.1 listed))

theorem mem_body_iff_reaches (formed : store.WellFormed forest)
    (proper : ref ∈ store.properLoops forest)
    : block ∈ store.body ref
      ↔ ∃ nested, Reaches (store.inner forest) ref nested ∧ block ∈ (store.loop nested).blocks := by
  simp only [formed.reaches_iff_children proper]
  rfl

theorem header_mem_body_iff (formed : store.WellFormed forest) (apart : store.HeadsApart forest)
    (proper : ref ∈ store.properLoops forest) (properToo : other ∈ store.properLoops forest)
    (heads : (store.loop other).header = some header)
    : header ∈ store.body ref ↔ Reaches (store.inner forest) ref other := by
  rw [formed.mem_body_iff_reaches proper]
  constructor
  · rintro ⟨nested, reaches, listed⟩
    rwa [← apart other properToo header heads nested (formed.proper_of_reaches proper reaches)
      listed]
  · intro reaches
    obtain ⟨first, headsToo, listed⟩ := formed.header_first other properToo.1 properToo.2
    obtain rfl := Option.some.inj (heads.symm.trans headsToo)
    exact ⟨other, reaches, Array.mem_of_getElem? listed⟩

/-- Bodies shrink strictly on the way down, and nowhere else. Witness: the header of a loop is in
the bodies of the loops around it and in no others.
-/
theorem body_ssubset_iff (formed : store.WellFormed forest) (apart : store.HeadsApart forest)
    (proper : ref ∈ store.properLoops forest) (properToo : other ∈ store.properLoops forest)
    : store.body other ⊂ store.body ref
      ↔ ∃ steps, Way (store.inner forest) (steps + 1) ref other := by
  obtain ⟨header, heads, -⟩ := formed.header_first ref proper.1 proper.2
  obtain ⟨headerToo, headsToo, -⟩ := formed.header_first other properToo.1 properToo.2
  constructor
  · intro smaller
    have own := (formed.header_mem_body_iff apart properToo properToo headsToo).mpr .refl
    have reaches :=
      (formed.header_mem_body_iff apart proper properToo headsToo).mp (smaller.subset own)
    obtain ⟨steps, way⟩ := reaches.exists_way
    cases steps with
    | zero => exact absurd smaller (Way.zero_iff.mp way ▸ ssubset_irrefl _)
    | succ steps => exact ⟨steps, way⟩
  · rintro ⟨steps, way⟩
    refine ⟨?_, fun larger => ?_⟩
    · intro block inside
      obtain ⟨nested, reaches, listed⟩ := (formed.mem_body_iff_reaches properToo).mp inside
      exact (formed.mem_body_iff_reaches proper).mpr
        ⟨nested, way.reaches.trans reaches, listed⟩
    · have own := (formed.header_mem_body_iff apart proper proper heads).mpr .refl
      have back := (formed.header_mem_body_iff apart properToo proper heads).mp (larger own)
      obtain ⟨child, listed, onward⟩ := Way.succ_iff.mp way
      exact formed.acyclic proper.1 ref .refl child listed (onward.reaches.trans back)

------------------------------------------------------------------------------------------
-- Counting
------------------------------------------------------------------------------------------

theorem enclosing_root (formed : store.WellFormed forest)
    : store.enclosing forest (store.forest forest).root = ∅ := by
  refine Set.eq_empty_of_forall_notMem ?_
  rintro outer ⟨proper, reaches⟩
  exact (formed.proper_of_reaches proper reaches).2 rfl

/-- One step further down there is one more loop around. Witness: a loop has one parent, so ways
down to it go through that.
-/
theorem enclosing_of_mem_inner (formed : store.WellFormed forest)
    (stored : ref ∈ (store.forest forest).loops) (listed : other ∈ store.inner forest ref)
    : store.enclosing forest other = insert other (store.enclosing forest ref) := by
  have proper := formed.proper_of_mem_inner stored listed
  ext outer
  rw [Set.mem_insert_iff]
  constructor
  · rintro ⟨outerProper, reaches⟩
    rcases Relation.ReflTransGen.cases_tail reaches with rfl | ⟨parent, onward, listedToo⟩
    · exact Or.inl rfl
    · have parentStored := formed.mem_of_reaches outerProper.1 onward
      have hasParent := ((formed.mem_inner_iff stored).mp listed).2
      have hasParentToo := ((formed.mem_inner_iff parentStored).mp listedToo).2
      obtain rfl := Option.some.inj (hasParent.symm.trans hasParentToo)
      exact Or.inr ⟨outerProper, onward⟩
  · rintro (rfl | ⟨outerProper, reaches⟩)
    · exact ⟨proper, .refl⟩
    · exact ⟨outerProper, reaches.tail listed⟩

theorem finite_enclosing (store : LoopStore) (forest : ForestRef) (ref : LoopRef)
    : (store.enclosing forest ref).Finite := by
  refine (List.finite_toSet (store.forest forest).loops.toList).subset ?_
  rintro outer ⟨proper, -⟩
  exact Array.mem_toList_iff.mpr proper.1

/-- All ways down from the root to a loop have as many steps as there are loops around it.
Witness: induction on the steps, which each enter one loop more.
-/
theorem ncard_enclosing (formed : store.WellFormed forest)
    (way : Way (store.inner forest) steps (store.forest forest).root ref)
    : (store.enclosing forest ref).ncard = steps := by
  induction steps generalizing ref with
  | zero =>
      rw [← Way.zero_iff.mp way, formed.enclosing_root, Set.ncard_empty]
  | succ steps ih =>
      obtain ⟨outer, onward, listed⟩ := Way.succ_iff_last.mp way
      have stored := formed.mem_of_reaches formed.root_mem onward.reaches
      have fresh : ref ∉ store.enclosing forest outer :=
        fun around => formed.acyclic stored outer .refl ref listed around.2
      rw [formed.enclosing_of_mem_inner stored listed,
        Set.ncard_insert_of_notMem fresh (finite_enclosing store forest outer), ih onward]

theorem holding_eq_enclosing (formed : store.WellFormed forest) (apart : store.HeadsApart forest)
    (proper : ref ∈ store.properLoops forest) (heads : (store.loop ref).header = some header)
    : store.holding forest header = store.enclosing forest ref := by
  ext outer
  exact and_congr_right fun outerProper =>
    formed.header_mem_body_iff apart outerProper proper heads

/-- A way down passes through ever smaller bodies. -/
theorem shrinksAlong_of_way (formed : store.WellFormed forest) (apart : store.HeadsApart forest)
    (proper : ref ∈ store.properLoops forest) (way : Way (store.inner forest) steps ref last)
    : ∃ chain, chain.length = steps ∧ store.ShrinksAlong forest ref chain := by
  induction way with
  | stay ref => exact ⟨[], rfl, by simp, .singleton ref⟩
  | @enter steps ref child last listed _ ih =>
      have childProper := formed.proper_of_mem_inner proper.1 listed
      obtain ⟨chain, length_eq, allProper, shrinks⟩ := ih childProper
      refine ⟨child :: chain, by rw [List.length_cons, length_eq], ?_, ?_⟩
      · exact List.forall_mem_cons.mpr ⟨childProper, allProper⟩
      · refine List.isChain_cons_cons.mpr ⟨?_, shrinks⟩
        exact (formed.body_ssubset_iff apart proper childProper).mpr
          ⟨0, .enter listed (.stay child)⟩

/-- Ever smaller bodies lie on a way down, which may have more steps. -/
theorem way_of_shrinksAlong (formed : store.WellFormed forest) (apart : store.HeadsApart forest)
    {chain : List LoopRef} (proper : ref ∈ store.properLoops forest)
    (shrinks : store.ShrinksAlong forest ref chain)
    : ∃ steps last, chain.length ≤ steps ∧ Way (store.inner forest) steps ref last := by
  induction chain generalizing ref with
  | nil => exact ⟨0, ref, Nat.le_refl 0, .stay ref⟩
  | cons nested rest ih =>
      obtain ⟨allProper, isChain⟩ := shrinks
      obtain ⟨nestedProper, restProper⟩ := List.forall_mem_cons.mp allProper
      obtain ⟨smaller, isChain⟩ := List.isChain_cons_cons.mp isChain
      obtain ⟨more, down⟩ := (formed.body_ssubset_iff apart proper nestedProper).mp smaller
      obtain ⟨steps, last, longer, onward⟩ := ih nestedProper ⟨restProper, isChain⟩
      refine ⟨more + 1 + steps, last, ?_, down.trans onward⟩
      rw [List.length_cons]
      omega

/-- Levels from a descent into the root count loops. -/
theorem countsLoops (formed : after.WellFormed forest) (apart : after.HeadsApart forest)
    (levels : Descended (after.inner forest) [(after.forest forest).root] 0 before after)
    : after.CountsLoops forest := by
  have root := List.mem_singleton_self (after.forest forest).root
  have depth_eq {ref : LoopRef} (stored : ref ∈ (after.forest forest).loops)
      : (after.loop ref).depth = (after.enclosing forest ref).ncard := by
    obtain ⟨top, isRoot, steps, way, depth_eq⟩ :=
      levels.depth_of _ root ref (formed.root_reaches stored)
    rw [List.mem_singleton.mp isRoot] at way
    rw [depth_eq, formed.ncard_enclosing way, Int.zero_add]
  refine ⟨?_, ?_, ?_, ?_⟩
  · intro ref proper
    obtain ⟨header, heads, -⟩ := formed.header_first ref proper.1 proper.2
    refine ⟨header, heads, ?_⟩
    rw [depth_eq proper.1, formed.holding_eq_enclosing apart proper heads]
  · intro ref proper
    obtain ⟨most, height_eq, ⟨last, way⟩, longest⟩ :=
      levels.height_of _ root ref (formed.root_reaches proper.1)
    refine ⟨most, height_eq, formed.shrinksAlong_of_way apart proper way, ?_⟩
    rintro length ⟨chain, rfl, shrinks⟩
    obtain ⟨steps, last, longer, way⟩ := formed.way_of_shrinksAlong apart proper shrinks
    exact Nat.le_trans longer (longest ⟨last, way⟩)
  · rw [depth_eq formed.root_mem, formed.enclosing_root, Set.ncard_empty, Int.ofNat_zero]
  · obtain ⟨most, height_eq, ⟨last, way⟩, longest⟩ :=
      levels.height_of _ root _ .refl
    rw [height_eq]
    have stored := formed.mem_of_reaches formed.root_mem way.reaches
    refine ⟨⟨last, stored, ?_⟩, ?_⟩
    · rw [depth_eq stored, formed.ncard_enclosing way]
    · rintro depth ⟨ref, stored, rfl⟩
      obtain ⟨steps, way⟩ := (formed.root_reaches stored).exists_way
      rw [depth_eq stored, formed.ncard_enclosing way]
      exact Int.ofNat_le.mpr (longest ⟨ref, way⟩)

theorem countsLoops_assignLevels (formed : store.WellFormed forest)
    (apart : store.HeadsApart forest)
    : (store.assignLevels forest).CountsLoops forest := by
  have levels := formed.descended
  have same := levels.same
  rw [← same.inner_eq, ← same.forest_eq] at levels
  exact (formed.of_sameShape same).countsLoops (same.headsApart apart) levels

/-- Assigning levels any number of times keeps the shape. -/
theorem sameShape_iterate (formed : store.WellFormed forest) (times : Nat)
    : SameShape store ((fun store => store.assignLevels forest)^[times] store) := by
  induction times with
  | zero => exact .refl store
  | succ times ih =>
      rw [Function.iterate_succ_apply']
      exact ih.trans (formed.of_sameShape ih).descended.same

end WellFormed

end LoopStore

------------------------------------------------------------------------------------------
-- Runs
------------------------------------------------------------------------------------------

/-- The loops of one sweep do not list each other's headers. Witness: the blocks that a region
lists besides its own header head nothing.
-/
theorem Program.Consistent.headsApart {program : Program} {g : GraphRef} {start : BlockRef}
    {consistent : program.Consistent} {registered : start ∈ (program.graph g).blocks}
    {first : Nat} {final : Sweep} {store : LoopStore} {root : LoopRef} {forest : ForestRef}
    (swept : (consistent.walk registered).Swept first final)
    (grown : LoopStore.Grown (program.number start).order final.regions.toList root store forest)
    : store.HeadsApart forest := by
  have injective := consistent.blockOf_injOn registered
  intro ref proper header heads other properToo listed
  obtain ⟨i, region, found, rfl⟩ := grown.stored_iff.mp proper
  obtain ⟨j, around, foundToo, rfl⟩ := grown.stored_iff.mp properToo
  obtain ⟨_, -, loop_eq⟩ := grown.region_loop i region found
  obtain ⟨_, -, around_eq⟩ := grown.region_loop j around foundToo
  rw [Array.getElem?_toList] at found foundToo
  have isHeader : some ((program.number start).order.getD region.header 0) = some header := by
    rwa [loop_eq] at heads
  rw [around_eq] at listed
  simp only [Region.toLoop, List.mem_toArray, Region.mem_members,
    ← Option.some.inj isHeader] at listed
  have known := (swept.heads found).lt
  have aroundKnown := (swept.heads foundToo).lt
  rcases listed with same | ⟨x, isPart, same⟩
  · rw [swept.index_eq foundToo found (injective aroundKnown known same)]
  · have described := swept.described around (Array.mem_of_getElem? foundToo)
    obtain ⟨_, numbered, inside⟩ := described.part_inner isPart
    obtain rfl := Option.some.inj numbered
    have isTop := injective (Traversal.number_lt (inside.2.1.below aroundKnown)) known same
    exact absurd (isTop ▸ swept.heads found) (described.block_plain x isPart)

namespace Finder

theorem runFresh_headsApart (calls : List BuildCall) (finder : Finder) (store : LoopStore)
    : (finder.runFresh (Program.build calls) store).store.HeadsApart store.addForest.2 := by
  cases isStart : ((Program.build calls).graph finder.graph).start? with
  | none =>
      have grown := runFresh_grown_nil isStart store
      intro ref proper
      exact absurd ((grown.eq_root proper.1).trans grown.root_eq.symm) proper.2
  | some start =>
      obtain ⟨first, final, swept, grown⟩ :=
        runFresh_grown (Program.consistent_build calls) isStart store
      exact Program.Consistent.headsApart swept grown

/-- After a run that ends or gives up, assigning levels once or more often changes levels only,
and they count loops. Witness: no loop lists the header of another, so the bodies that hold a
header are those of the loops around it.
-/
theorem runFresh_countsLoops (calls : List BuildCall) (finder : Finder) (store : LoopStore)
    (times : Nat)
    : let found := (finder.runFresh (Program.build calls) store).store
      let levelled := (fun levels => LoopStore.assignLevels levels store.addForest.2)^[times + 1]
        found
      LoopStore.SameShape found levelled ∧ levelled.CountsLoops store.addForest.2 := by
  intro found levelled
  have formed := runFresh_wellFormed finder (Program.build calls) store
  have apart := runFresh_headsApart calls finder store
  refine ⟨formed.sameShape_iterate (times + 1), ?_⟩
  have same := formed.sameShape_iterate times
  have counts := (formed.of_sameShape same).countsLoops_assignLevels (same.headsApart apart)
  rwa [← Function.iterate_succ_apply' (fun levels => LoopStore.assignLevels levels _)] at counts

end Finder

end LoopNest
