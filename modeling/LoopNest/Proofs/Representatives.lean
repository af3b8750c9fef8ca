import LoopNest.Partition
import Mathlib.Data.List.Nodup

/-! What a partition shows: the representative of each element. Links may be shortened at any
time without a change to it, and relinking representatives joins their sets.
-/

namespace LoopNest.Partition

/-- Following so many links from an element leads to one that is linked to itself. -/
inductive Leads (sets : Partition) : (steps x top : Nat) → Prop
  | here {x} (own : sets.parent x = x) : sets.Leads 0 x x
  | up {steps x top} (linked : sets.parent x ≠ x)
    (rest : sets.Leads steps (sets.parent x) top)
    : sets.Leads (steps + 1) x top

variable {sets : Partition} {rep : Nat → Nat} {elements : List Nat}
variable {steps more x y top other target : Nat}

theorem Leads.own (leads : sets.Leads steps x top) : sets.parent top = top := by
  induction leads with
  | here own => exact own
  | up _ _ ih => exact ih

theorem Leads.unique (leads : sets.Leads steps x top) (again : sets.Leads more x other)
    : steps = more ∧ top = other := by
  induction leads generalizing more other with
  | here own =>
      cases again with
      | here => exact ⟨rfl, rfl⟩
      | up linked _ => exact absurd own linked
  | up linked _ ih =>
      cases again with
      | here own => exact absurd own linked
      | up _ rest =>
          obtain ⟨rfl, rfl⟩ := ih rest
          exact ⟨rfl, rfl⟩

theorem Leads.climb (leads : sets.Leads steps x top) (enough : steps ≤ more)
    : sets.climb more x = top := by
  induction leads generalizing more with
  | here own =>
      cases more with
      | zero => rfl
      | succ more => rw [Partition.climb, if_pos own]
  | up linked _ ih =>
      cases more with
      | zero => omega
      | succ more =>
          rw [Partition.climb, if_neg linked]
          exact ih (by omega)

/-- A changed link right below a top is all that an element needs. -/
theorem Leads.of_parent_eq (linked : sets.parent x = top) (differs : top ≠ x)
    (own : sets.parent top = top)
    : sets.Leads 1 x top := by
  have onward : sets.Leads 0 (sets.parent x) top := by
    rw [linked]
    exact .here own
  exact .up (fun same => differs (linked.symm.trans same)) onward

/-- An element whose link stays is led on from there. -/
theorem Leads.of_parent_kept {old : Partition} (linked : old.parent x ≠ x)
    (kept : sets.parent x = old.parent x) (rest : sets.Leads steps (old.parent x) top)
    : sets.Leads (steps + 1) x top := by
  rw [← kept] at linked rest
  exact .up linked rest

/-- Elements outside the table are linked to themselves. -/
theorem lt_size_of_linked (linked : sets.parent x ≠ x) : x < sets.size := by
  by_contra outside
  have past : sets.links.size ≤ x := Nat.not_lt.mp outside
  exact linked (by simp [parent, Array.getD_eq_getD_getElem?, past])

/-- The elements passed on the way up all lead to the same top. -/
theorem Leads.of_mem_trail (leads : sets.Leads steps x top) (passed : y ∈ sets.trail more x)
    : ∃ left, left < steps ∧ sets.Leads (left + 1) y top := by
  induction leads generalizing more with
  | here own =>
      cases more with
      | zero => simp [trail] at passed
      | succ more => simp [trail, own] at passed
  | @up steps x top linked rest ih =>
      cases more with
      | zero => simp [trail] at passed
      | succ more =>
          rw [trail, if_neg linked] at passed
          rcases List.mem_cons.mp passed with rfl | later
          · exact ⟨steps, Nat.lt_succ_self steps, .up linked rest⟩
          · obtain ⟨left, fewer, leads⟩ := ih later
            exact ⟨left, Nat.lt_succ_of_lt fewer, leads⟩

/-- No element is passed twice. Witness: the links that are left tell the elements apart. -/
theorem Leads.trail_nodup (leads : sets.Leads steps x top)
    : (sets.trail steps x).Nodup ∧ (sets.trail steps x).length = steps := by
  induction leads with
  | here => simp [trail]
  | @up steps x top linked rest ih =>
      rw [trail, if_neg linked]
      refine ⟨List.nodup_cons.mpr ⟨?_, ih.1⟩, by simpa using ih.2⟩
      intro again
      obtain ⟨left, fewer, shorter⟩ := rest.of_mem_trail again
      have same := (shorter.unique (.up linked rest)).1
      omega

/-- Links that lead to a top do so in fewer steps than there are elements. -/
theorem Leads.steps_le (leads : sets.Leads steps x top) : steps ≤ sets.size := by
  obtain ⟨distinct, length⟩ := leads.trail_nodup
  have inTable : sets.trail steps x ⊆ List.range sets.size := by
    intro y passed
    obtain ⟨_, _, onward⟩ := leads.of_mem_trail passed
    cases onward with
    | up linked _ => exact List.mem_range.mpr (lt_size_of_linked linked)
  have bound := distinct.length_le_of_subset inTable
  rwa [length, List.length_range] at bound

theorem Leads.representative_eq (leads : sets.Leads steps x top)
    : sets.representative x = top :=
  leads.climb leads.steps_le

/-- The links lead every element to its given representative. -/
def Represents (sets : Partition) (rep : Nat → Nat) : Prop :=
  ∀ x, ∃ steps, sets.Leads steps x (rep x)

theorem Represents.representative_eq (shown : sets.Represents rep) (x : Nat)
    : sets.representative x = rep x := by
  obtain ⟨_, leads⟩ := shown x
  exact leads.representative_eq

theorem Represents.own (shown : sets.Represents rep) (x : Nat)
    : sets.parent (rep x) = rep x := by
  obtain ⟨_, leads⟩ := shown x
  exact leads.own

theorem represents_singletons (size : Nat) : (singletons size).Represents id :=
  fun x => ⟨0, .here (parent_singletons size x)⟩

/-- Shortening the links of passed elements keeps every representative. Witness: induction on
the old links; a passed element now needs one link.
-/
theorem Leads.relink_trail (found : sets.Leads more x target)
    (leads : sets.Leads steps y top)
    : ∃ fewer, (sets.relink (sets.trail sets.size x) target).Leads fewer y top := by
  have apart : target ∉ sets.trail sets.size x := by
    intro passed
    obtain ⟨_, _, onward⟩ := found.of_mem_trail passed
    cases onward with
    | up linked _ => exact linked found.own
  have own : (sets.relink (sets.trail sets.size x) target).parent target = target := by
    rw [parent_relink, if_neg (fun listed => apart listed.1), found.own]
  induction leads with
  | @here y ownTop =>
      refine ⟨0, .here ?_⟩
      rw [parent_relink, if_neg, ownTop]
      rintro ⟨passed, -⟩
      obtain ⟨_, _, onward⟩ := found.of_mem_trail passed
      cases onward with
      | up linked _ => exact linked ownTop
  | @up steps y top linked rest ih =>
      by_cases passed : y ∈ sets.trail sets.size x
      · obtain ⟨_, _, onward⟩ := found.of_mem_trail passed
        obtain ⟨-, rfl⟩ := onward.unique (.up linked rest)
        refine ⟨1, .of_parent_eq ?_ (fun same => apart (same ▸ passed)) own⟩
        rw [parent_relink, if_pos ⟨passed, lt_size_of_linked linked⟩]
      · obtain ⟨fewer, onward⟩ := ih
        refine ⟨fewer + 1, .of_parent_kept linked ?_ onward⟩
        rw [parent_relink, if_neg (fun listed => passed listed.1)]

/-- Finding changes no representative. -/
theorem Represents.find (shown : sets.Represents rep) (x : Nat)
    : (sets.find x).2.Represents rep := by
  intro y
  obtain ⟨_, found⟩ := shown x
  obtain ⟨_, leads⟩ := shown y
  rw [Partition.find, shown.representative_eq]
  exact found.relink_trail leads

/-- Finding answers the representative and changes none. -/
theorem Represents.find? (shown : sets.Represents rep) (known : x < sets.size)
    : ∃ shorter,
        sets.find? x = some (rep x, shorter)
        ∧ shorter.size = sets.size
        ∧ shorter.Represents rep := by
  refine ⟨(sets.find x).2, ?_, size_find sets x, shown.find x⟩
  rw [Partition.find?, if_pos known, Partition.find, shown.representative_eq]

/-- Linking representatives to another joins their sets with the set of that one. Witness:
induction on the old links, which only change at their ends.
-/
theorem Represents.relink (shown : sets.Represents rep) (own : rep target = target)
    (apart : target ∉ elements) (tops : ∀ x ∈ elements, x < sets.size ∧ rep x = x)
    : (sets.relink elements target).Represents
        fun x => if rep x ∈ elements then target else rep x := by
  have stays : (sets.relink elements target).parent target = target := by
    rw [parent_relink, if_neg (fun listed => apart listed.1)]
    exact own ▸ shown.own target
  have carried {steps x top} (leads : sets.Leads steps x top)
      : ∃ fewer,
          (sets.relink elements target).Leads fewer x
            (if top ∈ elements then target else top) := by
    induction leads with
    | @here x ownTop =>
        by_cases listed : x ∈ elements
        · rw [if_pos listed]
          refine ⟨1, .of_parent_eq ?_ (fun same => apart (same ▸ listed)) stays⟩
          rw [parent_relink, if_pos ⟨listed, (tops x listed).1⟩]
        · rw [if_neg listed]
          refine ⟨0, .here ?_⟩
          rw [parent_relink, if_neg (fun also => listed also.1), ownTop]
    | @up steps x top linked rest ih =>
        obtain ⟨fewer, onward⟩ := ih
        have unlisted : x ∉ elements := by
          intro listed
          have fixed := shown.own x
          rw [(tops x listed).2] at fixed
          exact linked fixed
        refine ⟨fewer + 1, .of_parent_kept linked ?_ onward⟩
        rw [parent_relink, if_neg (fun also => unlisted also.1)]
  intro x
  obtain ⟨_, leads⟩ := shown x
  exact carried leads

end LoopNest.Partition
