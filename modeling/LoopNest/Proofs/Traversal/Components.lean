import LoopNest.Proofs.Traversal.Clusters

/-! The strongly connected components of a traversal, and of a cluster without its top, are the
outermost clusters in them; those with a cycle are the ones whose top heads a loop.
-/

namespace LoopNest.Traversal

variable {walk : Traversal} {scope part : Set Nat} {first top header number : Nat}

/-- A scope that clusters fill: with each number it holds the cluster of that number, and the
outermost top around it from the first one on.
-/
structure Filled (walk : Traversal) (first : Nat) (scope : Set Nat) : Prop where
  first_le : ∀ number ∈ scope, first ≤ number
  cluster_mem : ∀ top ∈ scope, ∀ number, walk.Cluster top number → number ∈ scope
  outermost_mem : ∀ number ∈ scope, walk.outermost first number ∈ scope

/-- Nothing that is linked to an outermost top stands before it. Witness: strong induction; a
first such number would have the top in its cluster.
-/
theorem Filled.le_of_linked (filled : walk.Filled first scope)
    (isTop : walk.outermost first top = top) (linked : Linked walk.Flows scope top number)
    : top ≤ number := by
  induction number using Nat.strong_induction_on with
  | _ number ih =>
      by_contra before
      have around : walk.Cluster number top := by
        refine linked.symm.restrict fun place near => ?_
        change number ≤ place
        by_contra earlier
        have := ih place (Nat.not_le.mp earlier) (linked.trans near)
        omega
      have after : first ≤ top := filled.first_le top linked.1.source_mem
      have admitted : first ≤ number := filled.first_le number linked.1.target_mem
      have least := (walk.outermost_spec after).2.2 number admitted around
      rw [isTop] at least
      exact before least

theorem Filled.linked_iff (filled : walk.Filled first scope) (inside : top ∈ scope)
    (isTop : walk.outermost first top = top)
    : Linked walk.Flows scope top number ↔ walk.Cluster top number := by
  constructor
  · intro linked
    exact linked.restrict fun place near => filled.le_of_linked isTop near
  · intro member
    exact member.restrict fun place near => filled.cluster_mem top inside place near

/-- The component of a number is the outermost cluster around it. -/
theorem Filled.component_eq (filled : walk.Filled first scope) (inside : number ∈ scope)
    : { other | Linked walk.Flows scope number other }
      = { other | walk.Cluster (walk.outermost first number) other } := by
  have topInside := filled.outermost_mem number inside
  have isTop := walk.outermost_outermost first number
  have toTop := (filled.linked_iff topInside isTop).mpr (walk.outermost_cluster first number)
  ext other
  constructor
  · intro linked
    exact (filled.linked_iff topInside isTop).mp (toTop.trans linked)
  · intro member
    exact toTop.symm.trans ((filled.linked_iff topInside isTop).mpr member)

/-- A cluster holds a cycle exactly if its top heads a loop. -/
theorem cyclic_iff_heads
    : ({ other | walk.Cluster top other }.Nontrivial
        ∨ ∃ place, { other | walk.Cluster top other } = {place} ∧ walk.Flows place place)
      ↔ walk.Heads top := by
  have topMember : top ∈ { other | walk.Cluster top other } := walk.cluster_self top
  constructor
  · intro cyclic
    rcases cyclic with several | ⟨place, single, flows⟩
    · obtain ⟨other, member, differs⟩ := several.exists_ne top
      exact Cluster.heads member differs
    · rw [single, Set.mem_singleton_iff] at topMember
      subst topMember
      exact ⟨top, flows, walk.below_self flows.1⟩
  · intro ⟨source, flows, below⟩
    have member : walk.Cluster top source := cluster_of_flows flows (walk.cluster_self top) below
    rcases eq_or_ne source top with rfl | differs
    · rcases Set.subsingleton_or_nontrivial { other | walk.Cluster source other } with
        single | several
      · exact Or.inr ⟨source, single.eq_singleton_of_mem topMember, flows⟩
      · exact Or.inl several
    · exact Or.inl ⟨source, member, top, topMember, differs⟩

theorem Filled.isCyclicComponent_iff (filled : walk.Filled first scope)
    : IsCyclicComponent walk.Flows scope part
      ↔ ∃ top ∈ scope,
          walk.outermost first top = top
          ∧ walk.Heads top
          ∧ part = { other | walk.Cluster top other } := by
  constructor
  · intro ⟨⟨place, inside, component⟩, cyclic⟩
    rw [filled.component_eq inside] at component
    subst component
    exact ⟨_, filled.outermost_mem place inside, walk.outermost_outermost first place,
      cyclic_iff_heads.mp cyclic, rfl⟩
  · intro ⟨top, inside, isTop, heads, same⟩
    subst same
    refine ⟨⟨top, inside, ?_⟩, cyclic_iff_heads.mpr heads⟩
    rw [filled.component_eq inside, isTop]

theorem filled_all (walk : Traversal) : walk.Filled 0 { number | number < walk.size } where
  first_le number _ := Nat.zero_le number
  cluster_mem _ known _ member := number_lt (member.below known)
  outermost_mem number known := (walk.outermost_le 0 number).trans_lt known

theorem filled_inside (walk : Traversal) (header : Nat)
    : walk.Filled (header + 1) ({ number | walk.Cluster header number } \ {header}) where
  first_le _ inside := Nat.lt_of_le_of_ne inside.1.le (Ne.symm inside.2)
  cluster_mem _ inside _ member :=
    have after := Nat.lt_of_le_of_ne inside.1.le (Ne.symm inside.2)
    ⟨inside.1.trans member, Nat.ne_of_gt (after.trans_le member.le)⟩
  outermost_mem _ inside :=
    have inner := inner_outermost inside.1 inside.2
    ⟨inner.2.1, Nat.ne_of_gt inner.1⟩

theorem inner_iff
    : walk.Inner header number
      ↔ (walk.Cluster header number ∧ number ≠ header)
        ∧ walk.outermost (header + 1) number = number := by
  constructor
  · intro ⟨after, member, isTop⟩
    exact ⟨⟨member, Nat.ne_of_gt after⟩, isTop⟩
  · intro ⟨⟨member, differs⟩, isTop⟩
    exact ⟨Nat.lt_of_le_of_ne member.le (Ne.symm differs), member, isTop⟩

/-- A number that is no outermost top stands directly inside some cluster. Witness: induction on
the tops admitted, down from the number itself.
-/
theorem exists_inner (after : first ≤ number) (collapsed : walk.outermost first number ≠ number)
    : ∃ header, walk.Inner header number := by
  induction after using Nat.decreasingInduction with
  | self => exact absurd (outermost_of_cluster (walk.cluster_self number)) collapsed
  | of_succ first before ih =>
      by_cases isTop : walk.outermost (first + 1) number = number
      · refine ⟨first, before, ?_, isTop⟩
        by_contra apart
        exact collapsed ((outermost_of_not_cluster apart).trans isTop)
      · exact ih isTop

theorem outermost_zero_eq_iff
    : walk.outermost 0 number = number ↔ ∀ header, ¬ walk.Inner header number := by
  constructor
  · intro isTop header inner
    have least := (walk.outermost_spec (Nat.zero_le number)).2.2 header (Nat.zero_le header)
      inner.2.1
    rw [isTop] at least
    exact absurd inner.1 (Nat.not_lt.mpr least)
  · intro outside
    by_contra collapsed
    obtain ⟨header, inner⟩ := exists_inner (Nat.zero_le number) collapsed
    exact outside header inner

end LoopNest.Traversal
