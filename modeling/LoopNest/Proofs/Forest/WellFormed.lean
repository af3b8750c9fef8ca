import LoopNest.Proofs.Forest.Recording
import Mathlib.Logic.Relation

/-! Well-formed forests: the root first, loops counted in storage order, each loop below a later
one or below the root, and children lists that agree with the parents. Recording the loops of a
sweep keeps a forest well-formed.
-/

namespace LoopNest.LoopStore

variable {order : Array BlockRef} {forest other : ForestRef} {ref : LoopRef}
  {store before after : LoopStore} {regions : List Region} {region : Region}

/-- The laws of a forest. -/
structure WellFormed (store : LoopStore) (forest : ForestRef) : Prop where
  listed_lt : ∀ ref ∈ (store.forest forest).loops, ref < store.loops.size
  root_first : (store.forest forest).loops[0]? = some (store.forest forest).root
  counter_eq
    : ∀ (i : Nat) ref, (store.forest forest).loops[i]? = some ref
      → (store.loop ref).counter = i
  nextCounter_eq : (store.forest forest).nextCounter = (store.forest forest).loops.size
  root_parent : (store.loop (store.forest forest).root).parent = none
  root_children : (store.loop (store.forest forest).root).children = #[]
  header_first
    : ∀ ref ∈ (store.forest forest).loops, ref ≠ (store.forest forest).root
      → ∃ block,
          (store.loop ref).header = some block ∧ (store.loop ref).blocks[0]? = some block
  parent_later
    : ∀ ref ∈ (store.forest forest).loops, ref ≠ (store.forest forest).root
      → ∃ parent ∈ (store.forest forest).loops,
          (store.loop ref).parent = some parent
          ∧ (parent = (store.forest forest).root
            ∨ (store.loop ref).counter < (store.loop parent).counter)
  mem_children_iff
    : ∀ parent ∈ (store.forest forest).loops, parent ≠ (store.forest forest).root
      → ∀ ref, ref ∈ (store.loop parent).children
          ↔ ref ∈ (store.forest forest).loops ∧ (store.loop ref).parent = some parent

namespace WellFormed

theorem root_mem (formed : store.WellFormed forest)
    : (store.forest forest).root ∈ (store.forest forest).loops :=
  Array.mem_of_getElem? formed.root_first

theorem root_counter (formed : store.WellFormed forest)
    : (store.loop (store.forest forest).root).counter = 0 :=
  formed.counter_eq 0 _ formed.root_first

theorem ne_root_of_parent (formed : store.WellFormed forest) {parent : LoopRef}
    (hasParent : (store.loop ref).parent = some parent)
    : ref ≠ (store.forest forest).root := by
  intro isRoot
  rw [isRoot, formed.root_parent] at hasParent
  cases hasParent

theorem parent_mem (formed : store.WellFormed forest) {parent : LoopRef}
    (listed : ref ∈ (store.forest forest).loops)
    (hasParent : (store.loop ref).parent = some parent)
    : parent ∈ (store.forest forest).loops := by
  obtain ⟨stored, storedMem, same, -⟩ :=
    formed.parent_later ref listed (formed.ne_root_of_parent hasParent)
  rw [hasParent] at same
  exact Option.some.inj same ▸ storedMem

theorem hung (formed : store.WellFormed forest) : store.Hung forest := by
  refine ⟨formed.listed_lt _ formed.root_mem, formed.listed_lt, ?_⟩
  intro ref listed notRoot orphan
  obtain ⟨parent, -, hasParent, -⟩ := formed.parent_later ref listed notRoot
  rw [orphan] at hasParent
  cases hasParent

/-- Following parents leads to the root. Witness: induction on the loops stored after the given
one, as parents other than the root come later.
-/
theorem reaches_root (formed : store.WellFormed forest)
    (listed : ref ∈ (store.forest forest).loops)
    : Relation.ReflTransGen (fun child parent => (store.loop child).parent = some parent) ref
        (store.forest forest).root := by
  obtain ⟨i, found⟩ := Array.getElem?_of_mem listed
  induction hleft : (store.forest forest).loops.size - i using Nat.strongRecOn
    generalizing ref i with
  | ind left ih =>
      by_cases isRoot : ref = (store.forest forest).root
      · rw [isRoot]
      · obtain ⟨parent, stored, hasParent, later⟩ := formed.parent_later ref listed isRoot
        refine .head hasParent ?_
        rcases later with rfl | later
        · exact .refl
        · obtain ⟨j, foundToo⟩ := Array.getElem?_of_mem stored
          have inRange := (Array.getElem?_eq_some_iff.mp foundToo).1
          rw [formed.counter_eq i ref found, formed.counter_eq j parent foundToo] at later
          exact ih ((store.forest forest).loops.size - j) (by omega) stored j foundToo rfl

/-- A forest stays well-formed while it and the loops so far stay as they are. -/
theorem frame (formed : before.WellFormed forest)
    (forest_eq : after.forest forest = before.forest forest)
    (kept : ∀ ref < before.loops.size, after.loop ref = before.loop ref)
    (grown : before.loops.size ≤ after.loops.size)
    : after.WellFormed forest := by
  have same {ref : LoopRef} (listed : ref ∈ (before.forest forest).loops)
      : after.loop ref = before.loop ref :=
    kept ref (formed.listed_lt ref listed)
  refine ⟨?_, ?_, ?_, ?_, ?_, ?_, ?_, ?_, ?_⟩ <;> rw [forest_eq]
  · exact fun ref listed => Nat.lt_of_lt_of_le (formed.listed_lt ref listed) grown
  · exact formed.root_first
  · intro i ref found
    rw [same (Array.mem_of_getElem? found), formed.counter_eq i ref found]
  · exact formed.nextCounter_eq
  · rw [same formed.root_mem, formed.root_parent]
  · rw [same formed.root_mem, formed.root_children]
  · intro ref listed notRoot
    rw [same listed]
    exact formed.header_first ref listed notRoot
  · intro ref listed notRoot
    obtain ⟨parent, stored, hasParent, later⟩ := formed.parent_later ref listed notRoot
    rw [same listed]
    exact ⟨parent, stored, hasParent, by rwa [same stored]⟩
  · intro parent stored notRoot ref
    rw [same stored, formed.mem_children_iff parent stored notRoot ref]
    exact and_congr_right fun listed => by rw [same listed]

/-- A new forest. -/
theorem addForest (store : LoopStore) : store.addForest.1.WellFormed store.addForest.2 := by
  have only {ref : LoopRef} (listed : ref ∈ #[store.loops.size]) : ref = store.loops.size :=
    List.mem_singleton.mp (Array.mem_toList_iff.mpr listed)
  refine ⟨?_, ?_, ?_, ?_, ?_, ?_, ?_, ?_, ?_⟩ <;> rw [forest_addForest]
  · intro ref listed
    rw [only listed, size_addForest]
    exact Nat.lt_succ_self _
  · rfl
  · intro i ref found
    rw [only (Array.mem_of_getElem? found), loop_addForest]
    have := (Array.getElem?_eq_some_iff.mp found).1
    simp at this
    simp [this]
  · rfl
  · rw [loop_addForest]
  · rw [loop_addForest]
  · exact fun ref listed notRoot => absurd (only listed) notRoot
  · exact fun ref listed notRoot => absurd (only listed) notRoot
  · exact fun parent stored notRoot => absurd (only stored) notRoot

------------------------------------------------------------------------------------------
-- Recording a sweep
------------------------------------------------------------------------------------------

/-- A loop at a position after recording stood there before, or is new. -/
theorem stored_cases (forestIn : forest < before.forests.size)
    (records : Records order forest before regions after) {i : Nat}
    (found : (after.forest forest).loops[i]? = some ref)
    : (before.forest forest).loops[i]? = some ref
      ∨ ∃ k region,
          regions[k]? = some region
          ∧ i = (before.forest forest).loops.size + k
          ∧ ref = before.loops.size + k := by
  rw [records.forest_eq forestIn, Array.getElem?_append] at found
  split at found
  · exact Or.inl found
  · next past =>
      rw [List.getElem?_toArray] at found
      obtain ⟨inRange, same⟩ := List.getElem?_eq_some_iff.mp found
      rw [List.length_range'] at inRange
      rw [List.getElem_range', Nat.one_mul] at same
      exact Or.inr ⟨i - (before.forest forest).loops.size, _,
        List.getElem?_eq_getElem inRange, by omega, same.symm⟩

/-- New loops hang below later ones or below the root, and old loops stay where they are. -/
theorem record_parent_later (formed : before.WellFormed forest)
    (forestIn : forest < before.forests.size)
    (records : Records order forest before regions after) (earlier : NestsEarlier regions)
    (listed : ref ∈ (after.forest forest).loops) (notRoot : ref ≠ (before.forest forest).root)
    : ∃ parent ∈ (after.forest forest).loops,
        ((after.graftAll forest).loop ref).parent = some parent
        ∧ (parent = (before.forest forest).root
          ∨ ((after.graftAll forest).loop ref).counter
            < ((after.graftAll forest).loop parent).counter) := by
  have kept {ref : LoopRef} (old : ref ∈ (before.forest forest).loops) :=
    records.graftAll_kept forestIn formed.hung (formed.listed_lt ref old)
  rcases (records.mem_loops_iff forestIn).mp listed with old | ⟨i, region, found, rfl⟩
  · obtain ⟨parent, stored, hasParent, later⟩ := formed.parent_later ref old notRoot
    rw [kept old]
    refine ⟨parent, (records.mem_loops_iff forestIn).mpr (Or.inl stored), hasParent, ?_⟩
    rwa [kept stored]
  · obtain ⟨parent, nestedBy, loop_eq⟩ := records.graftAll_made forestIn formed.hung found
    have hasParent := congrArg Loop.parent loop_eq
    rcases nestedBy.getD_cases (before.forest forest).root with
      isRoot | ⟨j, outer, foundToo, nested, same⟩
    · refine ⟨_, (records.mem_loops_iff forestIn).mpr (Or.inl formed.root_mem), ?_, Or.inl rfl⟩
      exact hasParent.trans (congrArg some isRoot)
    · refine ⟨_, (records.mem_loops_iff forestIn).mpr (Or.inr ⟨j, outer, foundToo, rfl⟩), ?_,
        Or.inr ?_⟩
      · exact hasParent.trans (congrArg some same)
      · obtain ⟨_, -, outer_eq⟩ := records.graftAll_made forestIn formed.hung foundToo
        have later := earlier j outer foundToo i nested
        rw [loop_eq, outer_eq]
        exact Int.ofNat_lt.mpr (Nat.add_lt_add_left later _)

/-- Old loops keep their children, and a new loop's children are the loops it nests. Witness: new
loops never hang below old ones besides the root, nor old ones below new ones.
-/
theorem record_mem_children_iff (formed : before.WellFormed forest)
    (forestIn : forest < before.forests.size)
    (records : Records order forest before regions after) (earlier : NestsEarlier regions)
    (once : NestsOnce regions) {parent : LoopRef}
    (stored : parent ∈ (after.forest forest).loops)
    (notRoot : parent ≠ (before.forest forest).root)
    : ref ∈ ((after.graftAll forest).loop parent).children
      ↔ ref ∈ (after.forest forest).loops
        ∧ ((after.graftAll forest).loop ref).parent = some parent := by
  have kept {ref : LoopRef} (old : ref ∈ (before.forest forest).loops) :=
    records.graftAll_kept forestIn formed.hung (formed.listed_lt ref old)
  have root_lt := formed.hung.root_lt
  rw [records.mem_loops_iff forestIn]
  rcases (records.mem_loops_iff forestIn).mp stored with old | ⟨i, region, found, rfl⟩
  · have known := formed.listed_lt parent old
    rw [kept old, formed.mem_children_iff parent old notRoot ref]
    constructor
    · rintro ⟨listed, hasParent⟩
      exact ⟨Or.inl listed, by rwa [kept listed]⟩
    · rintro ⟨listed, hasParent⟩
      rcases listed with oldToo | ⟨j, inner, foundToo, rfl⟩
      · exact ⟨oldToo, by rwa [kept oldToo] at hasParent⟩
      · obtain ⟨_, nestedBy, inner_eq⟩ := records.graftAll_made forestIn formed.hung foundToo
        rw [inner_eq] at hasParent
        have same := Option.some.inj hasParent
        rcases nestedBy.getD_cases (before.forest forest).root with
          isRoot | ⟨k, -, -, -, sameToo⟩
        · exact absurd (same.symm.trans isRoot) notRoot
        · rw [same.symm.trans sameToo] at known
          exact absurd known (Nat.not_lt.mpr (Nat.le_add_right _ k))
  · obtain ⟨_, -, loop_eq⟩ := records.graftAll_made forestIn formed.hung found
    rw [loop_eq]
    simp only [Region.toLoop, List.mem_toArray]
    constructor
    · intro nested
      obtain ⟨index, listed, rfl⟩ := Region.mem_nested.mp nested
      have inRange := Nat.lt_trans (earlier i region found index listed)
        (List.getElem?_eq_some_iff.mp found).1
      have foundToo := List.getElem?_eq_getElem inRange
      obtain ⟨_, nestedBy, inner_eq⟩ := records.graftAll_made forestIn formed.hung foundToo
      refine ⟨Or.inr ⟨index, _, foundToo, rfl⟩, ?_⟩
      rw [inner_eq]
      exact congrArg some ((nestedBy.getD_eq_iff once root_lt).mpr ⟨region, found, listed⟩)
    · rintro ⟨listed, hasParent⟩
      rcases listed with oldToo | ⟨j, inner, foundToo, rfl⟩
      · rw [kept oldToo] at hasParent
        by_cases isRoot : ref = (before.forest forest).root
        · rw [isRoot, formed.root_parent] at hasParent
          cases hasParent
        · obtain ⟨outer, storedToo, isParent, -⟩ := formed.parent_later ref oldToo isRoot
          obtain rfl := Option.some.inj (isParent.symm.trans hasParent)
          exact absurd (formed.listed_lt _ storedToo) (Nat.not_lt.mpr (Nat.le_add_right _ _))
      · obtain ⟨_, nestedBy, inner_eq⟩ := records.graftAll_made forestIn formed.hung foundToo
        rw [inner_eq] at hasParent
        obtain ⟨outer, foundOuter, nested⟩ :=
          (nestedBy.getD_eq_iff once root_lt).mp (Option.some.inj hasParent)
        obtain rfl := Option.some.inj (found.symm.trans foundOuter)
        exact mem_nested_add.mpr nested

/-- Recording the loops of a sweep keeps a forest well-formed. -/
theorem record (formed : before.WellFormed forest) (forestIn : forest < before.forests.size)
    (records : Records order forest before regions after) (earlier : NestsEarlier regions)
    (once : NestsOnce regions)
    : (after.graftAll forest).WellFormed forest := by
  have kept {ref : LoopRef} (listed : ref ∈ (before.forest forest).loops) :=
    records.graftAll_kept forestIn formed.hung (formed.listed_lt ref listed)
  have root_eq : (after.forest forest).root = (before.forest forest).root := by
    rw [records.forest_eq forestIn]
  refine ⟨?_, ?_, ?_, ?_, ?_, ?_, ?_, ?_, ?_⟩ <;> rw [forest_graftAll]
  · intro ref listed
    rw [size_graftAll, records.size_eq]
    rcases (records.mem_loops_iff forestIn).mp listed with old | ⟨i, region, found, rfl⟩
    · exact Nat.lt_add_right _ (formed.listed_lt ref old)
    · exact Nat.add_lt_add_left (List.getElem?_eq_some_iff.mp found).1 _
  · have inRange := (Array.getElem?_eq_some_iff.mp formed.root_first).1
    rw [records.forest_eq forestIn, Array.getElem?_append_left inRange]
    exact formed.root_first
  · intro i ref found
    rcases stored_cases forestIn records found with old | ⟨k, region, foundToo, rfl, rfl⟩
    · rw [kept (Array.mem_of_getElem? old), formed.counter_eq i ref old]
    · obtain ⟨parent, -, loop_eq⟩ := records.graftAll_made forestIn formed.hung foundToo
      rw [loop_eq, Region.toLoop, formed.nextCounter_eq]
  · rw [records.forest_eq forestIn, formed.nextCounter_eq]
    simp
  · rw [root_eq, kept formed.root_mem, formed.root_parent]
  · rw [root_eq, kept formed.root_mem, formed.root_children]
  · intro ref listed notRoot
    rcases (records.mem_loops_iff forestIn).mp listed with old | ⟨i, region, found, rfl⟩
    · rw [kept old]
      exact formed.header_first ref old (root_eq ▸ notRoot)
    · obtain ⟨parent, -, loop_eq⟩ := records.graftAll_made forestIn formed.hung found
      rw [loop_eq]
      exact ⟨order.getD region.header 0, rfl, by simp [Region.toLoop, Region.members]⟩
  · rw [root_eq]
    exact fun ref listed notRoot =>
      formed.record_parent_later forestIn records earlier listed notRoot
  · rw [root_eq]
    exact fun parent stored notRoot ref =>
      formed.record_mem_children_iff forestIn records earlier once stored notRoot

end WellFormed

end LoopNest.LoopStore
