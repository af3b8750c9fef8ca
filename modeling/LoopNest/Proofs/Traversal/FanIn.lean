import LoopNest.Proofs.Traversal.Entries
import Mathlib.Algebra.BigOperators.Group.Finset.Basic
import Mathlib.Algebra.GroupWithZero.Nat
import Mathlib.Algebra.Order.BigOperators.Group.Finset

/-! How many ways in a collapsed number keeps: no more than there are edges into its cluster,
unless a header takes the ways into one number inside its cluster several times, which it does
when several back edges come from there.
-/

namespace LoopNest.Traversal

variable {walk : Traversal} {first top header number x : Nat} {kept : Nat → List Nat}
  {pool : List Nat}

open Classical in
/-- The numbers of a cluster. -/
noncomputable def members (walk : Traversal) (top : Nat) : Finset Nat :=
  (Finset.range walk.size).filter (walk.Cluster top)

open Classical in
/-- The numbers that stand directly inside a cluster. -/
noncomputable def inners (walk : Traversal) (header : Nat) : Finset Nat :=
  (Finset.range walk.size).filter (walk.Inner header)

theorem mem_members (known : top < walk.size)
    : number ∈ walk.members top ↔ walk.Cluster top number := by
  simp only [members, Finset.mem_filter, Finset.mem_range]
  exact and_iff_right_of_imp fun member => number_lt (member.below known)

theorem mem_inners (known : header < walk.size)
    : number ∈ walk.inners header ↔ walk.Inner header number := by
  simp only [inners, Finset.mem_filter, Finset.mem_range]
  exact and_iff_right_of_imp fun inner => number_lt (inner.2.1.below known)

/-- Beside its top, a cluster consists of the clusters directly inside. Witness: each other number
is counted at the outermost top around it.
-/
theorem sum_members (known : header < walk.size) (weight : Nat → Nat)
    : ∑ z ∈ walk.members header, weight z
      = weight header + ∑ x ∈ walk.inners header, ∑ z ∈ walk.members x, weight z := by
  have topMember : header ∈ walk.members header :=
    (mem_members known).mpr (walk.cluster_self header)
  have fiber (x : Nat) (inside : x ∈ walk.inners header)
      : ((walk.members header).erase header).filter (walk.outermost (header + 1) · = x)
        = walk.members x := by
    have inner := (mem_inners known).mp inside
    have xKnown := number_lt (inner.2.1.below known)
    ext z
    rw [Finset.mem_filter, Finset.mem_erase, mem_members known, mem_members xKnown]
    constructor
    · intro ⟨_, same⟩
      exact same ▸ walk.outermost_cluster (header + 1) z
    · intro member
      have after : header < z := inner.1.trans_le member.le
      refine ⟨⟨Nat.ne_of_gt after, inner.2.1.trans member⟩, ?_⟩
      rw [← inner.2.2] at member
      rw [outermost_eq_of_cluster inner.1 member, inner.2.2]
  have placed : ∀ z ∈ (walk.members header).erase header,
      walk.outermost (header + 1) z ∈ walk.inners header := by
    intro z member
    obtain ⟨differs, member⟩ := Finset.mem_erase.mp member
    exact (mem_inners known).mpr (inner_outermost ((mem_members known).mp member) differs)
  rw [← Finset.add_sum_erase _ weight topMember, ← Finset.sum_fiberwise_of_maps_to placed]
  exact congrArg (weight header + ·)
    (Finset.sum_congr rfl fun x inside => Finset.sum_congr (fiber x inside) fun _ _ => rfl)

/-- A list that repeats only what costs nothing costs no more than a set that holds it. -/
theorem sum_map_le (cost : Nat → Nat) {holder : Finset Nat} (held : ∀ x ∈ pool, x ∈ holder)
    (once : ∀ x, cost x ≠ 0 → pool.count x ≤ 1)
    : (pool.map cost).sum ≤ ∑ x ∈ holder, cost x := by
  have included : pool.toFinset ⊆ holder := fun x member => held x (List.mem_toFinset.mp member)
  calc (pool.map cost).sum
      = ∑ x ∈ pool.toFinset, pool.count x • cost x := Finset.sum_list_map_count pool cost
    _ ≤ ∑ x ∈ pool.toFinset, cost x := by
        refine Finset.sum_le_sum fun x _ => ?_
        cases Nat.eq_zero_or_pos (cost x) with
        | inl free => simp [free]
        | inr costly =>
            exact (Nat.mul_le_mul_right _ (once x (Nat.ne_of_gt costly))).trans_eq (Nat.one_mul _)
    _ ≤ ∑ x ∈ holder, cost x := Finset.sum_le_sum_of_subset included

------------------------------------------------------------------------------------------
-- The ways in that are kept
------------------------------------------------------------------------------------------

/-- Several back edges of a header come from one number directly inside its cluster that can also
be entered from outside the header's subtree.
-/
def RepeatsEntry (walk : Traversal) (header x : Nat) : Prop :=
  2 ≤ (walk.seeds header).count x ∧ ∃ source, walk.Enters x source ∧ ¬ walk.Below header source

/-- A gathered number is pooled once for each back edge from its cluster, or once if there is
none.
-/
theorem Pools.count_eq (pools : walk.Pools header pool) (pooled : x ∈ pool)
    : pool.count x = max 1 ((walk.seeds header).count x) := by
  obtain ⟨joined, rfl, nodup, apart⟩ := pools.pool_eq
  rw [List.count_append]
  by_cases joins : x ∈ joined
  · rw [List.count_eq_zero_of_not_mem (apart x joins), List.count_eq_one_of_mem nodup joins]
    rfl
  · have seeded : x ∈ walk.seeds header := (List.mem_append.mp pooled).resolve_right joins
    rw [List.count_eq_zero_of_not_mem joins, Nat.add_zero]
    exact (Nat.max_eq_right (List.count_pos_iff.mpr seeded)).symm

theorem Pools.count_le (pools : walk.Pools header pool) (x : Nat)
    : pool.count x ≤ max 1 ((walk.seeds header).count x) := by
  by_cases pooled : x ∈ pool
  · exact (pools.count_eq pooled).le
  · rw [List.count_eq_zero_of_not_mem pooled]
    exact Nat.zero_le _

/-- The ways into a gathered number that lie outside both subtrees are among its ways in that lie
outside the outer one.
-/
theorem outsiders_collapsed_le (ordered : top ≤ number) (inTable : ∀ y ∈ kept x, y < walk.size)
    : (walk.outsiders top (walk.outsiders number
        ((kept x).map (walk.outermost (number + 1))))).length
      ≤ (walk.outsiders top (kept x)).length := by
  have collapsed : walk.outsiders top ((kept x).map (walk.outermost (number + 1)))
      = (walk.outsiders top (kept x)).map (walk.outermost (number + 1)) := by
    rw [Numbering.outsiders, Numbering.outsiders, List.filter_map]
    refine congrArg (List.map _) (List.filter_congr fun y listed => ?_)
    exact decide_eq_decide.mpr
      (not_congr (below_outermost_iff (Nat.lt_succ_of_le ordered) (inTable y listed)))
  calc _ ≤ (walk.outsiders top ((kept x).map (walk.outermost (number + 1)))).length :=
        (List.filter_sublist.filter _).length_le
    _ = (walk.outsiders top (kept x)).length := by rw [collapsed, List.length_map]

/-- One number: if the numbers directly inside keep no more ways in than their clusters have edges
from outside a subtree, and no number that is taken several times has any, then so does the
number.
-/
theorem Folds.outsiders_le (known : number < walk.size) (folds : walk.Folds kept number pool)
    (faithful : ∀ x, walk.Inner number x → walk.Faithful kept x) (ordered : top ≤ number)
    (single : ∀ x, walk.Inner number x → ¬ walk.RepeatsEntry number x)
    (inside : ∀ x, walk.Inner number x
      → (walk.outsiders top (kept x)).length
        ≤ ∑ z ∈ walk.members x, (walk.outsiders top (walk.sources z)).length)
    : (walk.outsiders top (kept number)).length
      ≤ ∑ z ∈ walk.members number, (walk.outsiders top (walk.sources z)).length := by
  let taken (x : Nat) : List Nat :=
    walk.outsiders top (walk.outsiders number ((kept x).map (walk.outermost (number + 1))))
  have own : (walk.outsiders top (walk.entries number)).length
      ≤ (walk.outsiders top (walk.sources number)).length :=
    (List.filter_sublist.filter _).length_le
  have once (x : Nat) (costly : (taken x).length ≠ 0) : pool.count x ≤ 1 := by
    cases Nat.eq_zero_or_pos (pool.count x) with
    | inl absent => omega
    | inr present =>
        have inner := (folds.pools.mem_iff x).mp (List.count_pos_iff.mp present)
        obtain ⟨y, listed⟩ := List.exists_mem_of_length_pos (Nat.pos_of_ne_zero costly)
        obtain ⟨kept_y, outside⟩ := List.mem_filter.mp (List.mem_filter.mp listed).1
        obtain ⟨z, found, rfl⟩ := List.mem_map.mp kept_y
        obtain ⟨source, enters, alike⟩ := (faithful x inner).sound z found
        have sourceOutside : ¬ walk.Below number source := by
          rw [← below_outermost_iff (Nat.lt_succ_self number) enters.lt,
            outermost_congr inner.1 alike]
          exact of_decide_eq_true outside
        have seldom : (walk.seeds number).count x < 2 := by
          by_contra often
          exact single x inner ⟨Nat.not_lt.mp often, source, enters, sourceOutside⟩
        have := folds.pools.count_le x
        omega
  calc (walk.outsiders top (kept number)).length
      = (walk.outsiders top (walk.entries number)).length
          + (pool.map fun x => (taken x).length).sum := by
        rw [folds.kept_eq, Numbering.outsiders, List.filter_append, List.length_append,
          List.filter_flatMap, List.length_flatMap]
        rfl
    _ ≤ (walk.outsiders top (walk.sources number)).length
          + ∑ x ∈ walk.inners number, (taken x).length := by
        refine Nat.add_le_add own (sum_map_le _ ?_ once)
        exact fun x pooled => (mem_inners known).mpr ((folds.pools.mem_iff x).mp pooled)
    _ ≤ (walk.outsiders top (walk.sources number)).length
          + ∑ x ∈ walk.inners number, ∑ z ∈ walk.members x,
              (walk.outsiders top (walk.sources z)).length := by
        refine Nat.add_le_add_left (Finset.sum_le_sum fun x inInners => ?_) _
        have inner := (mem_inners known).mp inInners
        exact (outsiders_collapsed_le ordered fun y listed =>
          ((faithful x inner).outside y listed).1).trans (inside x inner)
    _ = ∑ z ∈ walk.members number, (walk.outsiders top (walk.sources z)).length :=
        (sum_members known fun z => (walk.outsiders top (walk.sources z)).length).symm

/-- All numbers inside clusters of others: no more ways in are kept than edges lead into the
cluster from outside its subtree. Witness: strong induction from the last number down.
-/
theorem kept_length_le
    (folds : ∀ number, first ≤ number → number < walk.size
      → ∃ pool, walk.Folds kept number pool)
    (single : ∀ number, (∃ outer < number, walk.Cluster outer number)
      → ∀ x, walk.Inner number x → ¬ walk.RepeatsEntry number x)
    {number : Nat} (after : first ≤ number) (known : number < walk.size)
    (nested : ∃ outer < number, walk.Cluster outer number)
    : (kept number).length
      ≤ ∑ z ∈ walk.members number, (walk.outsiders number (walk.sources z)).length := by
  have bounded : ∀ top ≤ number, (walk.outsiders top (kept number)).length
      ≤ ∑ z ∈ walk.members number, (walk.outsiders top (walk.sources z)).length := by
    induction hlast : walk.size - number using Nat.strong_induction_on generalizing number with
    | _ left ih =>
        intro top ordered
        obtain ⟨pool, fold⟩ := folds number after known
        have insideKnown {x : Nat} (inner : walk.Inner number x) : x < walk.size :=
          number_lt (inner.2.1.below known)
        refine fold.outsiders_le known ?_ ordered (single number nested) ?_
        · intro x inner
          exact faithful_of_folds folds x (after.trans inner.1.le) (insideKnown inner)
        · intro x inner
          have later := inner.1
          have xKnown := insideKnown inner
          exact ih (walk.size - x) (by omega) (by omega) xKnown ⟨number, later, inner.2.1⟩ rfl
            top (by omega)
  have faithful := faithful_of_folds folds number after known
  have all : walk.outsiders number (kept number) = kept number :=
    List.filter_eq_self.mpr fun y listed => by simpa using (faithful.outside y listed).2
  rw [← all]
  exact bounded number (Nat.le_refl number)

end LoopNest.Traversal
