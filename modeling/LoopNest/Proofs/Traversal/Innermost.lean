import LoopNest.Proofs.Traversal.Components

/-! The innermost cluster with a loop around a number. The numbers on cycles are those that have
one, and it lies in every other cluster with a loop around the number.
-/

namespace LoopNest.Traversal

variable {walk : Traversal} {top other number : Nat}

/-- A cluster whose top heads a loop, around a number and inside all others around it. -/
structure IsInnermost (walk : Traversal) (top number : Nat) : Prop where
  heads : walk.Heads top
  member : walk.Cluster top number
  inside : ∀ other, walk.Heads other → walk.Cluster other number → walk.Cluster other top

theorem IsInnermost.unique (innermost : walk.IsInnermost top number)
    (again : walk.IsInnermost other number)
    : top = other :=
  Nat.le_antisymm (again.inside top innermost.heads innermost.member).le
    (innermost.inside other again.heads again.member).le

/-- A number in a cluster with a loop has an innermost one. Witness: the last top. -/
theorem exists_isInnermost (heads : walk.Heads top) (member : walk.Cluster top number)
    : ∃ top, walk.IsInnermost top number := by
  classical
  let IsTop (candidate : Nat) : Prop := walk.Heads candidate ∧ walk.Cluster candidate number
  have last : IsTop (Nat.findGreatest IsTop number) :=
    Nat.findGreatest_spec member.le ⟨heads, member⟩
  refine ⟨_, last.1, last.2, fun other headsToo memberToo => ?_⟩
  have ordered : other ≤ Nat.findGreatest IsTop number :=
    Nat.le_findGreatest memberToo.le ⟨headsToo, memberToo⟩
  exact memberToo.of_common ordered last.2

/-- A loop leads from its top around to it. -/
theorem Heads.transGen (heads : walk.Heads top) : Relation.TransGen walk.Flows top top := by
  obtain ⟨source, flows, below⟩ := heads
  have around := (within_of_below below).mono (Set.subset_univ _)
  exact .tail' (Within.univ_iff.mp around) flows

/-- The numbers on cycles are those in clusters with a loop. Witness: among the tops around a number
on a cycle the first one is linked to all numbers of the cycle.
-/
theorem transGen_iff
    : Relation.TransGen walk.Flows number number
      ↔ ∃ top, walk.Heads top ∧ walk.Cluster top number := by
  constructor
  · intro cycle
    obtain ⟨next, flows, rest⟩ := Relation.TransGen.head'_iff.mp cycle
    have known := flows.source_lt
    have returns : Within walk.Flows { n | n < walk.size } next number := by
      refine rest.head_induction_on (.refl known) ?_
      intro _ _ taken _ ih
      exact .head taken.source_lt taken ih
    have linked : Linked walk.Flows { n | n < walk.size } number next :=
      ⟨.head known flows (.refl flows.1), returns⟩
    have around : walk.Cluster (walk.outermost 0 number) next :=
      (Set.ext_iff.mp (walk.filled_all.component_eq known) next).mp linked
    have member := walk.outermost_cluster 0 number
    refine ⟨walk.outermost 0 number, ?_, member⟩
    by_cases isTop : number = walk.outermost 0 number
    · rw [← isTop] at around ⊢
      by_cases selfEdge : next = number
      · exact ⟨number, selfEdge ▸ flows, walk.below_self known⟩
      · exact around.heads selfEdge
    · exact member.heads isTop
  · intro ⟨top, heads, member⟩
    by_cases isTop : number = top
    · exact isTop ▸ heads.transGen
    · have back := Within.univ_iff.mp (member.2.mono (Set.subset_univ _))
      have onward := Within.univ_iff.mp (member.1.mono (Set.subset_univ _))
      exact .trans_right back (heads.transGen.trans_left onward)

end LoopNest.Traversal
