import LoopNest.Proofs.Gathering
import LoopNest.Proofs.Traversal.Clusters

/-! The ways into collapsed clusters. Each collapsed top keeps its own edges from outside and
those of the numbers gathered for it; what it keeps shows, up to collapsing, exactly the edges
that enter its cluster.
-/

namespace LoopNest.Traversal

variable {walk : Traversal} {first later top header number source target x : Nat}

/-- The sources of the back edges into a number. -/
def latches (walk : Traversal) (number : Nat) : List Nat :=
  (walk.sources number).filter fun source => walk.Below number source

/-- The sources of the other edges into a number. -/
def entries (walk : Traversal) (number : Nat) : List Nat :=
  walk.outsiders number (walk.sources number)

theorem mem_latches (known : number < walk.size)
    : source ∈ walk.latches number ↔ walk.Flows source number ∧ walk.Below number source := by
  simp [latches, Flows, known]

theorem mem_entries (known : number < walk.size)
    : source ∈ walk.entries number
      ↔ walk.Flows source number ∧ ¬ walk.Below number source := by
  simp [entries, Numbering.outsiders, Flows, known]

theorem heads_iff (known : number < walk.size)
    : walk.Heads number ↔ walk.latches number ≠ [] := by
  constructor
  · intro ⟨source, flows, below⟩
    exact List.ne_nil_of_mem ((mem_latches known).mpr ⟨flows, below⟩)
  · intro present
    obtain ⟨source, member⟩ := List.exists_mem_of_ne_nil _ present
    obtain ⟨flows, below⟩ := (mem_latches known).mp member
    exact ⟨source, flows, below⟩

/-- The representatives of a header's back edges before the header is collapsed. -/
noncomputable def seeds (walk : Traversal) (header : Nat) : List Nat :=
  ((walk.latches header).filter (· ≠ header)).map (walk.outermost (header + 1))

/-- An edge leads from a source outside a cluster into it. -/
def Enters (walk : Traversal) (top source : Nat) : Prop :=
  ∃ target, walk.Flows source target ∧ walk.Cluster top target ∧ ¬ walk.Cluster top source

/-- Every edge into a cluster besides its top starts in the cluster. -/
def SingleEntry (walk : Traversal) (top : Nat) : Prop :=
  ∀ source target,
    walk.Flows source target → walk.Cluster top target → target ≠ top → walk.Cluster top source

/-- If an edge enters a cluster besides its top, some path from the first number does so without
meeting the top. Witness: the numbers around the source, which is not below the top.
-/
theorem singleEntry_of_avoids
    (none : ∀ target, walk.Cluster top target
      → ¬ Within walk.Flows { y | y < walk.size ∧ y ≠ top } 0 target)
    : walk.SingleEntry top := by
  intro source target flows member differs
  by_contra apart
  have notBelow : ¬ walk.Below top source := fun below =>
    apart (cluster_of_flows flows member below)
  have toSource : Within walk.Flows { y | y < walk.size ∧ y ≠ top } 0 source :=
    (within_around flows.source_lt).mono fun y near =>
      ⟨top_lt near, fun same => notBelow (same ▸ near)⟩
  exact none target member (toSource.tail flows ⟨flows.1, differs⟩)

theorem Enters.lt (enters : walk.Enters top source) : source < walk.size := by
  obtain ⟨_, flows, -, -⟩ := enters
  exact flows.source_lt

/-- Clusters are entered from outside the subtrees of their tops only. -/
theorem Enters.not_below (enters : walk.Enters top source) : ¬ walk.Below top source := by
  obtain ⟨_, flows, member, apart⟩ := enters
  exact fun below => apart (cluster_of_flows flows member below)

theorem enters_of_entry (known : number < walk.size) (entry : source ∈ walk.entries number)
    : walk.Enters number source := by
  obtain ⟨flows, outside⟩ := (mem_entries known).mp entry
  exact ⟨number, flows, walk.cluster_self number, fun member => outside (member.below known)⟩

theorem Enters.outer (enters : walk.Enters x source) (inner : walk.Inner header x)
    (outside : ¬ walk.Cluster header source)
    : walk.Enters header source := by
  obtain ⟨target, flows, member, -⟩ := enters
  exact ⟨target, flows, inner.2.1.trans member, outside⟩

/-- An edge into a cluster leads to its top or into a cluster directly inside. -/
theorem Enters.inner (enters : walk.Enters header source)
    : source ∈ walk.entries header
      ∨ ∃ x, walk.Inner header x ∧ walk.Enters x source := by
  have outside := enters.not_below
  obtain ⟨target, flows, member, apart⟩ := enters
  by_cases isTop : target = header
  · subst target
    exact Or.inl ((mem_entries flows.1).mpr ⟨flows, outside⟩)
  · have inner := inner_outermost member isTop
    refine Or.inr ⟨_, inner, target, flows, walk.outermost_cluster (header + 1) target, ?_⟩
    exact fun also => apart (inner.2.1.trans also)

/-- What is kept for a number shows, up to collapsing, the edges into its cluster. -/
structure Faithful (walk : Traversal) (kept : Nat → List Nat) (number : Nat) : Prop where
  outside : ∀ y ∈ kept number, y < walk.size ∧ ¬ walk.Below number y
  sound
    : ∀ y ∈ kept number,
        ∃ source, walk.Enters number source
          ∧ walk.outermost number source = walk.outermost number y
  complete
    : ∀ source,
        walk.Enters number source
        → ∃ y ∈ kept number, walk.outermost number y = walk.outermost number source

------------------------------------------------------------------------------------------
-- Collapsing keeps the edges into clusters
------------------------------------------------------------------------------------------

/-- What may be gathered for a header: the seeds, and each number directly inside once. -/
structure Pools (walk : Traversal) (header : Nat) (pool : List Nat) : Prop where
  pool_eq
    : ∃ joined,
        pool = walk.seeds header ++ joined ∧ joined.Nodup
        ∧ ∀ x ∈ joined, x ∉ walk.seeds header
  mem_iff : ∀ x, x ∈ pool ↔ walk.Inner header x

/-- A number was collapsed: to the edges into itself it keeps those from outside its subtree
that were kept for the numbers gathered.
-/
structure Folds (walk : Traversal) (kept : Nat → List Nat) (number : Nat)
    (pool : List Nat)
    : Prop where
  pools : walk.Pools number pool
  kept_eq
    : kept number
      = walk.entries number
        ++ pool.flatMap fun x =>
            walk.outsiders number ((kept x).map (walk.outermost (number + 1)))

/-- Nothing is taken over from the numbers gathered exactly if every edge into the rest of the
cluster starts in the cluster.
-/
theorem Pools.outside_eq_nil_iff {kept : Nat → List Nat} {pool : List Nat}
    (pools : walk.Pools header pool) (known : header < walk.size)
    (faithful : ∀ x, walk.Inner header x → walk.Faithful kept x)
    : (pool.flatMap fun x =>
          walk.outsiders header ((kept x).map (walk.outermost (header + 1))))
        = []
      ↔ walk.SingleEntry header := by
  rw [List.flatMap_eq_nil_iff]
  simp only [Numbering.outsiders, List.filter_eq_nil_iff, List.mem_map, pools.mem_iff,
    decide_eq_true_eq, not_not]
  constructor
  · intro none source target flows member differs
    by_contra apart
    have inner := inner_outermost member differs
    have enters : walk.Enters (walk.outermost (header + 1) target) source :=
      ⟨target, flows, walk.outermost_cluster (header + 1) target,
        fun also => apart (inner.2.1.trans also)⟩
    obtain ⟨y, entry, alike⟩ := (faithful _ inner).complete source enters
    have below := none _ inner _ ⟨y, entry, rfl⟩
    rw [outermost_congr inner.1 alike,
      below_outermost_iff (Nat.lt_succ_self header) enters.lt] at below
    exact apart (cluster_of_flows flows member below)
  · rintro closed x inner top ⟨y, entry, same⟩
    obtain ⟨source, enters, alike⟩ := (faithful x inner).sound y entry
    have sourceLt := enters.lt
    obtain ⟨target, flows, member, -⟩ := enters
    have differs : target ≠ header := Nat.ne_of_gt (inner.1.trans_le member.le)
    have sourceMember := closed source target flows (inner.2.1.trans member) differs
    rw [← same, ← outermost_congr inner.1 alike,
      below_outermost_iff (Nat.lt_succ_self header) sourceLt]
    exact sourceMember.below known

theorem Folds.mem_kept {kept : Nat → List Nat} {pool : List Nat} {y : Nat}
    (folds : walk.Folds kept number pool)
    : y ∈ kept number
      ↔ y ∈ walk.entries number
        ∨ ∃ x, walk.Inner number x ∧ ¬ walk.Below number y
            ∧ ∃ z ∈ kept x, walk.outermost (number + 1) z = y := by
  rw [folds.kept_eq, List.mem_append, List.mem_flatMap]
  simp only [Numbering.outsiders, List.mem_filter, List.mem_map, folds.pools.mem_iff,
    decide_eq_true_eq]
  refine or_congr_right (exists_congr fun x => and_congr_right fun _ => ?_)
  exact and_comm

/-- Collapsing a number whose inner numbers are faithful makes it faithful. -/
theorem Folds.faithful {kept : Nat → List Nat} {pool : List Nat} (known : number < walk.size)
    (folds : walk.Folds kept number pool)
    (inside : ∀ x, walk.Inner number x → walk.Faithful kept x)
    : walk.Faithful kept number := by
  refine ⟨?_, ?_, ?_⟩
  · intro y member
    rcases folds.mem_kept.mp member with entry | ⟨x, inner, outside, z, found, same⟩
    · exact ⟨(enters_of_entry known entry).lt, (enters_of_entry known entry).not_below⟩
    · refine ⟨?_, outside⟩
      rw [← same]
      exact (walk.outermost_le _ z).trans_lt ((inside x inner).outside z found).1
  · intro y member
    rcases folds.mem_kept.mp member with entry | ⟨x, inner, outside, z, found, same⟩
    · exact ⟨y, enters_of_entry known entry, rfl⟩
    · obtain ⟨source, enters, alike⟩ := (inside x inner).sound z found
      have collapsed : walk.outermost (number + 1) source = y :=
        (outermost_congr inner.1 alike).trans same
      have apart : ¬ walk.Cluster number source := by
        intro also
        apply outside
        rw [← collapsed, below_outermost_iff (Nat.lt_succ_self number) enters.lt]
        exact also.below known
      refine ⟨source, enters.outer inner apart, ?_⟩
      rw [← collapsed, outermost_outermost_succ apart]
  · intro source enters
    have outside := enters.not_below
    obtain ⟨_, -, -, apart⟩ := id enters
    rcases enters.inner with entry | ⟨x, inner, enters⟩
    · exact ⟨source, folds.mem_kept.mpr (Or.inl entry), rfl⟩
    · obtain ⟨z, found, alike⟩ := (inside x inner).complete source enters
      have collapsed := outermost_congr inner.1 alike
      refine ⟨walk.outermost (number + 1) z, ?_, ?_⟩
      · refine folds.mem_kept.mpr (Or.inr ⟨x, inner, ?_, z, found, rfl⟩)
        rwa [collapsed, below_outermost_iff (Nat.lt_succ_self number) enters.lt]
      · rw [collapsed, outermost_outermost_succ apart]

/-- All collapsed numbers are faithful. Witness: strong induction from the last number down. -/
theorem faithful_of_folds {kept : Nat → List Nat}
    (folds : ∀ number, first ≤ number → number < walk.size
      → ∃ pool, walk.Folds kept number pool)
    : ∀ number, first ≤ number → number < walk.size → walk.Faithful kept number := by
  intro number
  induction hlast : walk.size - number using Nat.strong_induction_on generalizing number with
  | _ left ih =>
      intro after known
      obtain ⟨pool, fold⟩ := folds number after known
      refine fold.faithful known ?_
      intro x inner
      have later := inner.1
      have inTable := number_lt (inner.2.1.below known)
      exact ih (walk.size - x) (by omega) x rfl (by omega) inTable

end LoopNest.Traversal
