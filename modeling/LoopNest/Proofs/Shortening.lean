import LoopNest.Proofs.Representatives
import Mathlib.Logic.Relation

/-! Shortened links cannot be observed: after any finds and unions in a row, a find answers what
following links would answer if no find had ever changed one.
-/

namespace LoopNest

/-- A request to a partition: find the representative of an element, or link an element to
another.
-/
inductive Request where
  | find (x : Nat)
  | union (x target : Nat)
deriving Repr, DecidableEq

namespace Partition

/-- The partition after a request. -/
def serve (sets : Partition) : Request → Partition
  | .find x => (sets.find x).2
  | .union x target => sets.union x target

/-- The partition after a request if finding leaves all links alone. -/
def serveBare (sets : Partition) : Request → Partition
  | .find _ => sets
  | .union x target => sets.union x target

/-- A request names elements of the table; a union links the representative of one set to an
element of another.
-/
def Admits (sets : Partition) : Request → Prop
  | .find x => x < sets.size
  | .union x target =>
      x < sets.size ∧ target < sets.size
      ∧ sets.parent x = x ∧ sets.representative target ≠ sets.representative x

/-- Each request of a row is admitted when its turn comes. -/
def AdmitsAll (sets : Partition) : List Request → Prop
  | [] => True
  | request :: rest => sets.Admits request ∧ (sets.serve request).AdmitsAll rest

instance (sets : Partition) : (request : Request) → Decidable (sets.Admits request)
  | .find x => inferInstanceAs (Decidable (x < sets.size))
  | .union x target => inferInstanceAs (Decidable (x < sets.size ∧ target < sets.size
      ∧ sets.parent x = x ∧ sets.representative target ≠ sets.representative x))

instance decidableAdmitsAll (sets : Partition)
    : (requests : List Request) → Decidable (sets.AdmitsAll requests)
  | [] => inferInstanceAs (Decidable True)
  | request :: rest =>
      have := decidableAdmitsAll (sets.serve request) rest
      inferInstanceAs (Decidable (sets.Admits request ∧ (sets.serve request).AdmitsAll rest))

/-- The elements passed on the way up, but for the last one below the top. -/
def farTrail (sets : Partition) (x : Nat) : List Nat :=
  (sets.trail sets.size x).filter fun y => sets.parent (sets.parent y) ≠ sets.parent y

/-- Following links from one element comes through another. -/
def Passes (sets : Partition) : Nat → Nat → Prop :=
  Relation.ReflTransGen fun below above => sets.parent below = above

/-- What finding an element does to the links: the walk up from the element ends at the answer,
every element keeps its representative, and exactly the elements on the walk are linked to the
answer.
-/
structure Shortens (sets : Partition) (x top : Nat) (shorter : Partition) : Prop where
  ends : ∃ steps, sets.Leads steps x top
  keeps
    : ∀ y, ∃ other steps fewer, sets.Leads steps y other ∧ shorter.Leads fewer y other
  passed : ∀ y, sets.Passes x y → shorter.parent y = top
  others : ∀ y, ¬ sets.Passes x y → shorter.parent y = sets.parent y

variable {sets bare : Partition} {rep : Nat → Nat} {requests before after : List Request}
variable {steps more x y top target : Nat}

------------------------------------------------------------------------------------------
-- One find
------------------------------------------------------------------------------------------

theorem passes_iff : sets.Passes x y ↔ x = y ∨ sets.Passes (sets.parent x) y := by
  rw [Passes, Relation.ReflTransGen.cases_head_iff]
  simp only [exists_eq_left']

/-- Only itself is met from an element that is linked to itself. -/
theorem passes_iff_of_own (own : sets.parent x = x) : sets.Passes x y ↔ x = y := by
  constructor
  · intro passes
    induction passes with
    | refl => rfl
    | tail _ linked same => rw [← linked, ← same, own]
  · rintro rfl
    exact .refl

/-- The elements on the walk are those of the trail and the top. Witness: induction on the
walk.
-/
theorem Leads.passes_iff (leads : sets.Leads steps x top) (enough : steps ≤ more)
    : sets.Passes x y ↔ y = top ∨ y ∈ sets.trail more x := by
  induction leads generalizing more with
  | @here x own =>
      rw [passes_iff_of_own own]
      cases more <;> simp [trail, own, eq_comm]
  | @up steps x top linked _ ih =>
      cases more with
      | zero => exact absurd enough (Nat.not_succ_le_zero steps)
      | succ more =>
          rw [Partition.passes_iff, ih (Nat.le_of_succ_le_succ enough), trail, if_neg linked,
            List.mem_cons, or_left_comm]
          exact or_congr_right (or_congr_left eq_comm)

/-- Finding shortens the walk of its element and changes nothing else. -/
theorem Represents.shortens (shown : sets.Represents rep) (x : Nat)
    : sets.Shortens x (sets.find x).1 (sets.find x).2 := by
  obtain ⟨steps, leads⟩ := shown x
  have answer : (sets.find x).1 = rep x := shown.representative_eq x
  have parent_eq (y : Nat) : (sets.find x).2.parent y
      = if y ∈ sets.trail sets.size x ∧ y < sets.size then rep x else sets.parent y := by
    rw [Partition.find, parent_relink, shown.representative_eq]
  rw [answer]
  refine ⟨⟨steps, leads⟩, ?_, ?_, ?_⟩
  · intro y
    obtain ⟨more, onward⟩ := shown y
    obtain ⟨fewer, shorter⟩ := shown.find x y
    exact ⟨rep y, more, fewer, onward, shorter⟩
  · intro y passes
    rw [parent_eq]
    rcases (leads.passes_iff leads.steps_le).mp passes with rfl | passed
    · rw [leads.own, ite_self]
    · obtain ⟨_, _, _ | ⟨linked, _⟩⟩ := leads.of_mem_trail passed
      exact if_pos ⟨passed, lt_size_of_linked linked⟩
  · intro y apart
    rw [parent_eq, if_neg]
    exact fun listed => apart ((leads.passes_iff leads.steps_le).mpr (Or.inr listed.1))

theorem eq_of_parent_eq {other : Partition} (size_eq : sets.size = other.size)
    (same : ∀ y, sets.parent y = other.parent y)
    : sets = other := by
  cases sets
  cases other
  refine congrArg Partition.mk (Array.ext size_eq fun y known knownToo => ?_)
  simpa [parent, known, knownToo] using same y

/-- The last element below the top needs no new link. Witness: the top is what it is linked to
already.
-/
theorem Represents.find_eq_relink_farTrail (shown : sets.Represents rep) (x : Nat)
    : (sets.find x).2 = sets.relink (sets.farTrail x) (sets.find x).1 := by
  have shortened := shown.shortens x
  obtain ⟨steps, leads⟩ := shortened.ends
  refine eq_of_parent_eq (by simp) fun y => ?_
  rw [parent_relink]
  split
  · next far =>
      have passed := (List.mem_filter.mp far.1).1
      exact shortened.passed y ((leads.passes_iff leads.steps_le).mpr (Or.inr passed))
  · next near =>
      by_cases passes : sets.Passes x y
      · rw [shortened.passed y passes]
        rcases (leads.passes_iff leads.steps_le).mp passes with rfl | passed
        · exact leads.own.symm
        · obtain ⟨_, _, _ | ⟨linked, onward⟩⟩ := leads.of_mem_trail passed
          have own : sets.parent (sets.parent y) = sets.parent y := by
            by_contra differs
            exact near ⟨List.mem_filter.mpr ⟨passed, by simpa using differs⟩,
              lt_size_of_linked linked⟩
          exact (onward.unique (.here own)).2
      · exact shortened.others y passes

------------------------------------------------------------------------------------------
-- One union
------------------------------------------------------------------------------------------

/-- Elements that do not lead to a linked top are led as before. -/
theorem Leads.union_of_ne (leads : sets.Leads steps y top) (known : x < sets.size)
    (own : sets.parent x = x) (apart : top ≠ x) (target : Nat)
    : (sets.union x target).Leads steps y top := by
  induction leads with
  | here ownTop => exact .here (by rw [parent_union known, if_neg apart, ownTop])
  | up linked _ ih =>
      refine .of_parent_kept linked ?_ (ih apart)
      rw [parent_union known, if_neg]
      rintro rfl
      exact linked own

/-- Elements that lead to a linked top are led on to where its target is led. -/
theorem Leads.union_of_eq (leads : sets.Leads steps y top) (known : x < sets.size)
    (own : sets.parent x = x) (isTop : top = x) (differs : target ≠ x) {above : Nat}
    (onward : (sets.union x target).Leads more target above)
    : ∃ longer, (sets.union x target).Leads longer y above := by
  have relinked : (sets.union x target).parent x = target := by
    rw [parent_union known, if_pos rfl]
  induction leads with
  | here =>
      subst isTop
      refine ⟨more + 1, .up ?_ ?_⟩
      · rwa [relinked]
      · rwa [relinked]
  | up linked _ ih =>
      obtain ⟨longer, rest⟩ := ih isTop
      refine ⟨longer + 1, .of_parent_kept linked ?_ rest⟩
      rw [parent_union known, if_neg]
      rintro rfl
      exact linked own

/-- Linking a representative to an element of another set joins its set with that one. -/
theorem Represents.union (shown : sets.Represents rep) (known : x < sets.size)
    (own : rep x = x) (apart : rep target ≠ x)
    : (sets.union x target).Represents fun y => if rep y = x then rep target else rep y := by
  have ownLink : sets.parent x = x := own ▸ shown.own x
  have differs : target ≠ x := by
    rintro rfl
    exact apart own
  obtain ⟨_, atTarget⟩ := shown target
  have onward := atTarget.union_of_ne known ownLink apart target
  intro y
  obtain ⟨steps, leads⟩ := shown y
  by_cases joins : rep y = x
  · simp only [if_pos joins]
    exact leads.union_of_eq known ownLink joins differs onward
  · simp only [if_neg joins]
    exact ⟨steps, leads.union_of_ne known ownLink joins target⟩

------------------------------------------------------------------------------------------
-- Requests in a row
------------------------------------------------------------------------------------------

/-- Two partitions of the same elements show the same representatives. -/
def Agree (sets bare : Partition) : Prop :=
  sets.size = bare.size ∧ ∃ rep, sets.Represents rep ∧ bare.Represents rep

/-- A request keeps two partitions in agreement, whether or not its find shortens links. -/
theorem Agree.serve {request : Request} (agree : sets.Agree bare)
    (admitted : sets.Admits request)
    : (sets.serve request).Agree (bare.serveBare request) := by
  obtain ⟨size_eq, rep, shown, shownBare⟩ := agree
  cases request with
  | find x => exact ⟨(size_find sets x).trans size_eq, rep, shown.find x, shownBare⟩
  | union x target =>
      obtain ⟨known, -, isTop, apart⟩ := admitted
      rw [shown.representative_eq, shown.representative_eq] at apart
      have own : rep x = x := by
        rw [← shown.representative_eq]
        exact representative_of_parent_eq isTop
      rw [own] at apart
      refine ⟨?_, _, shown.union known own apart, shownBare.union (size_eq ▸ known) own apart⟩
      rw [Partition.serve, serveBare, size_union, size_union, size_eq]

/-- Requests in a row keep the agreement. Witness: induction on the requests. -/
theorem Agree.serveAll (agree : sets.Agree bare) (admitted : sets.AdmitsAll requests)
    : (requests.foldl Partition.serve sets).Agree (requests.foldl serveBare bare) := by
  induction requests generalizing sets bare with
  | nil => exact agree
  | cons request rest ih => exact ih (agree.serve admitted.1) admitted.2

theorem AdmitsAll.of_append (admitted : sets.AdmitsAll (before ++ after))
    : sets.AdmitsAll before := by
  induction before generalizing sets with
  | nil => trivial
  | cons request rest ih => exact ⟨admitted.1, ih admitted.2⟩

theorem agree_singletons (size : Nat) : (singletons size).Agree (singletons size) :=
  ⟨rfl, id, represents_singletons size, represents_singletons size⟩

/-- In any row of admitted requests to fresh elements, each find answers where following the links
of unions alone ends. The elements that its own walk passes then link to the answer, as the last
of them did before, and no other link changes.
-/
theorem find_unobservable (size : Nat) (requests : List Request)
    (admitted : (singletons size).AdmitsAll requests) (before after : List Request) (x : Nat)
    (turn : requests = before ++ .find x :: after)
    : let sets := before.foldl serve (singletons size)
      let bare := before.foldl serveBare (singletons size)
      (∃ steps, bare.Leads steps x (sets.find x).1)
      ∧ sets.Shortens x (sets.find x).1 (sets.find x).2
      ∧ (sets.find x).2 = sets.relink (sets.farTrail x) (sets.find x).1 := by
  intro sets bare
  subst turn
  have agree : sets.Agree bare := (agree_singletons size).serveAll admitted.of_append
  obtain ⟨-, rep, shown, shownBare⟩ := agree
  refine ⟨?_, shown.shortens x, shown.find_eq_relink_farTrail x⟩
  rw [Partition.find, shown.representative_eq]
  exact shownBare x

theorem find_unobservable_chain
    : let before : List Request :=
        [.union 0 1, .union 1 2, .union 2 3, .find 0, .union 5 1, .union 3 4]
      let sets := before.foldl serve (singletons 6)
      let bare := before.foldl serveBare (singletons 6)
      (singletons 6).AdmitsAll (before ++ [.find 0, .find 5])
      ∧ sets ≠ bare
      ∧ (sets.find 0).1 = 4
      ∧ (∃ steps, bare.Leads steps 0 (sets.find 0).1)
      ∧ sets.Shortens 0 (sets.find 0).1 (sets.find 0).2
      ∧ (sets.find 0).2 = sets.relink (sets.farTrail 0) (sets.find 0).1 := by
  intro before sets bare
  have admitted : (singletons 6).AdmitsAll (before ++ [.find 0, .find 5]) := by decide +kernel
  have differ : sets ≠ bare := by decide +kernel
  have answer : (sets.find 0).1 = 4 := by decide +kernel
  exact ⟨admitted, differ, answer, find_unobservable 6 _ admitted before [.find 5] 0 rfl⟩

end Partition

end LoopNest
