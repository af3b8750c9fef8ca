import LoopNest.Proofs.Traversal.Basic
import Mathlib.Data.Nat.Find

/-! The cluster of each number: the strongly connected component that it heads among the
numbers not before it. Clusters are nested or disjoint, and the outermost cluster around a
number is what a sweep from the last number down has collapsed it into.
-/

namespace LoopNest.Traversal

variable {walk : Traversal} {first top middle number source target : Nat}

/-- The numbers strongly connected to a top over numbers not before it. -/
def Cluster (walk : Traversal) (top number : Nat) : Prop :=
  Linked walk.Flows { y | top ≤ y } top number

/-- A number heads a loop: an edge leads to it from its own subtree. -/
def Heads (walk : Traversal) (top : Nat) : Prop :=
  ∃ source, walk.Flows source top ∧ walk.Below top source

theorem cluster_self (walk : Traversal) (top : Nat) : walk.Cluster top top :=
  .refl (Nat.le_refl top)

theorem Cluster.le (member : walk.Cluster top number) : top ≤ number :=
  member.1.target_mem

theorem Cluster.below (member : walk.Cluster top number) (known : top < walk.size)
    : walk.Below top number :=
  below_of_within known member.1

/-- A cluster is what returns to its top inside the top's subtree. -/
theorem cluster_iff (known : top < walk.size)
    : walk.Cluster top number
      ↔ walk.Below top number
        ∧ Within walk.Flows { y | walk.Below top y } number top := by
  constructor
  · intro member
    refine ⟨member.below known, member.symm.within.mono ?_⟩
    exact fun _ near => Cluster.below near known
  · rintro ⟨below, returns⟩
    exact ⟨(within_of_below below).mono fun _ near => near.1,
      returns.mono fun _ near => near.1⟩

theorem Cluster.trans (outer : walk.Cluster top middle) (inner : walk.Cluster middle number)
    : walk.Cluster top number :=
  Linked.trans outer (inner.mono fun _ after => outer.le.trans after)

/-- Clusters that share a number are nested: the later top lies in the earlier one's. -/
theorem Cluster.of_common (ordered : top ≤ middle) (outer : walk.Cluster top number)
    (inner : walk.Cluster middle number)
    : walk.Cluster top middle :=
  Linked.trans outer (inner.mono fun _ after => ordered.trans after).symm

/-- Inside the subtree of a top, an edge into its cluster starts in the cluster. -/
theorem cluster_of_flows (flows : walk.Flows source target)
    (member : walk.Cluster top target) (below : walk.Below top source)
    : walk.Cluster top source :=
  ⟨(within_of_below below).mono fun _ near => near.1, .head below.1 flows member.2⟩

/-- A cluster with a second number has an edge from the top's subtree to the top. Witness: the
last step of a path back to the top.
-/
theorem Cluster.heads (member : walk.Cluster top number) (differs : number ≠ top)
    : walk.Heads top := by
  obtain ⟨before, reached, flows⟩ := member.2.last_step differs
  exact ⟨before, flows, below_of_within flows.1 (member.1.trans reached)⟩

theorem Heads.lt (heads : walk.Heads top) : top < walk.size := by
  obtain ⟨_, flows, -⟩ := heads
  exact flows.1

------------------------------------------------------------------------------------------
-- The outermost cluster around a number
------------------------------------------------------------------------------------------

open Classical in
/-- The top of the outermost cluster around a number, among the tops from the first one on. A
number before the first top stands for itself.
-/
noncomputable def outermost (walk : Traversal) (first number : Nat) : Nat :=
  if known : ∃ top, first ≤ top ∧ walk.Cluster top number then Nat.find known else number

theorem outermost_spec (walk : Traversal) (after : first ≤ number)
    : first ≤ walk.outermost first number
      ∧ walk.Cluster (walk.outermost first number) number
      ∧ ∀ top, first ≤ top → walk.Cluster top number
          → walk.outermost first number ≤ top := by
  classical
  have known : ∃ top, first ≤ top ∧ walk.Cluster top number :=
    ⟨number, after, walk.cluster_self number⟩
  have least := Nat.find_spec known
  rw [outermost, dif_pos known]
  exact ⟨least.1, least.2, fun top after member => Nat.find_min' known ⟨after, member⟩⟩

theorem outermost_of_lt (before : number < first) : walk.outermost first number = number := by
  rw [outermost, dif_neg]
  rintro ⟨top, after, member⟩
  have := member.le
  omega

theorem outermost_cluster (walk : Traversal) (first number : Nat)
    : walk.Cluster (walk.outermost first number) number := by
  cases Nat.lt_or_ge number first with
  | inl before =>
      rw [outermost_of_lt before]
      exact walk.cluster_self number
  | inr after => exact (walk.outermost_spec after).2.1

theorem outermost_le (walk : Traversal) (first number : Nat)
    : walk.outermost first number ≤ number :=
  (walk.outermost_cluster first number).le

/-- All numbers of an outermost cluster have the same outermost cluster. -/
theorem outermost_eq_of_cluster (after : first ≤ source)
    (member : walk.Cluster (walk.outermost first source) number)
    : walk.outermost first number = walk.outermost first source := by
  obtain ⟨later, around, least⟩ := walk.outermost_spec after
  have afterToo : first ≤ number := later.trans member.le
  obtain ⟨later', around', least'⟩ := walk.outermost_spec afterToo
  apply Nat.le_antisymm
  · exact least' _ later member
  · have ordered := least' _ later member
    exact least _ later' ((around'.of_common ordered member).trans around)

theorem outermost_outermost (walk : Traversal) (first number : Nat)
    : walk.outermost first (walk.outermost first number) = walk.outermost first number := by
  cases Nat.lt_or_ge number first with
  | inl before => rw [outermost_of_lt before, outermost_of_lt before]
  | inr after => exact outermost_eq_of_cluster after (walk.cluster_self _)

/-- Admitting one more top collapses exactly the numbers of its cluster into it. -/
theorem outermost_of_cluster (member : walk.Cluster first number)
    : walk.outermost first number = first := by
  obtain ⟨later, -, least⟩ := walk.outermost_spec member.le
  exact Nat.le_antisymm (least first (Nat.le_refl first) member) later

theorem outermost_of_not_cluster (apart : ¬ walk.Cluster first number)
    : walk.outermost first number = walk.outermost (first + 1) number := by
  cases Nat.lt_or_ge number first with
  | inl before => rw [outermost_of_lt before, outermost_of_lt (Nat.lt_succ_of_lt before)]
  | inr after =>
      have differs : number ≠ first := fun same => apart (same ▸ walk.cluster_self first)
      have afterNext : first + 1 ≤ number := by omega
      obtain ⟨later, around, least⟩ := walk.outermost_spec after
      obtain ⟨later', around', least'⟩ := walk.outermost_spec afterNext
      have notFirst : walk.outermost first number ≠ first := fun same => apart (same ▸ around)
      apply Nat.le_antisymm
      · exact least _ (by omega) around'
      · exact least' _ (by omega) around

/-- Before any top is admitted every number stands for itself. -/
theorem outermost_size (walk : Traversal) (number : Nat)
    : walk.outermost walk.size number = number := by
  cases Nat.lt_or_ge number walk.size with
  | inl before => exact outermost_of_lt before
  | inr after =>
      obtain ⟨later, around, -⟩ := walk.outermost_spec after
      by_contra differs
      have known := (around.heads (Ne.symm differs)).lt
      omega

theorem below_outermost (walk : Traversal) (first : Nat) (known : number < walk.size)
    : walk.Below (walk.outermost first number) number :=
  (walk.outermost_cluster first number).below ((walk.outermost_le first number).trans_lt known)

/-- A number and the top it was collapsed into lie in the same subtrees of earlier numbers. -/
theorem below_outermost_iff (before : top < first) (known : number < walk.size)
    : walk.Below top (walk.outermost first number) ↔ walk.Below top number := by
  constructor
  · exact fun below => walk.below_trans below (walk.below_outermost first known)
  · intro below
    cases Nat.lt_or_ge number first with
    | inl small => rwa [outermost_of_lt small]
    | inr large =>
        have after := (walk.outermost_spec large).1
        exact below_of_le below (by omega) (walk.outermost_le first number)

theorem cluster_outermost_iff
    : walk.Cluster top (walk.outermost (top + 1) number) ↔ walk.Cluster top number := by
  constructor
  · exact fun member => member.trans (walk.outermost_cluster (top + 1) number)
  · intro member
    rcases Nat.eq_or_lt_of_le member.le with rfl | after
    · rwa [outermost_of_lt (Nat.lt_succ_self top)]
    · have afterTop : top + 1 ≤ walk.outermost (top + 1) number :=
        (walk.outermost_spec after).1
      exact member.of_common (by omega) (walk.outermost_cluster (top + 1) number)

/-- Numbers collapsed together stay together. Witness: induction on the tops in between. -/
theorem outermost_congr (ordered : first ≤ top)
    (same : walk.outermost top source = walk.outermost top target)
    : walk.outermost first source = walk.outermost first target := by
  induction top, ordered using Nat.le_induction with
  | base => exact same
  | succ top _ ih =>
      apply ih
      have alike : walk.Cluster top source ↔ walk.Cluster top target := by
        rw [← cluster_outermost_iff, same, cluster_outermost_iff]
      by_cases member : walk.Cluster top target
      · rw [outermost_of_cluster (alike.mpr member), outermost_of_cluster member]
      · rw [outermost_of_not_cluster (fun also => member (alike.mp also)),
          outermost_of_not_cluster member, same]

theorem outermost_outermost_succ (apart : ¬ walk.Cluster top number)
    : walk.outermost top (walk.outermost (top + 1) number) = walk.outermost top number := by
  have apart' : ¬ walk.Cluster top (walk.outermost (top + 1) number) := by
    rwa [cluster_outermost_iff]
  rw [outermost_of_not_cluster apart', outermost_outermost, outermost_of_not_cluster apart]

/-- A number stands directly inside a header's cluster: no cluster lies between them. -/
def Inner (walk : Traversal) (header number : Nat) : Prop :=
  header < number
  ∧ walk.Cluster header number
  ∧ walk.outermost (header + 1) number = number

theorem inner_outermost (member : walk.Cluster top number) (differs : number ≠ top)
    : walk.Inner top (walk.outermost (top + 1) number) := by
  have after : top + 1 ≤ number := Nat.lt_of_le_of_ne member.le (Ne.symm differs)
  exact ⟨(walk.outermost_spec after).1, cluster_outermost_iff.mpr member,
    walk.outermost_outermost (top + 1) number⟩

/-- A number stands directly inside one cluster only: of two, the inner would lie between. -/
theorem Inner.unique {other : Nat} (inner : walk.Inner top number)
    (again : walk.Inner other number)
    : top = other := by
  have notBetween {a b : Nat} (outer : walk.Inner a number) (inner : walk.Inner b number)
      : ¬ a < b := by
    intro between
    have least : walk.outermost (a + 1) number ≤ b :=
      (walk.outermost_spec outer.1).2.2 b between inner.2.1
    rw [outer.2.2] at least
    exact absurd inner.1 (Nat.not_lt.mpr least)
  have first := notBetween inner again
  have second := notBetween again inner
  omega

end LoopNest.Traversal
