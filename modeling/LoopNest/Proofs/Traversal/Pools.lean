import LoopNest.Proofs.Traversal.Entries

/-! A chase from the back edges of a header gathers exactly the numbers that stand directly
inside its cluster, provided the numbers collapsed before kept the edges into them.
-/

namespace LoopNest.Traversal

variable {walk : Traversal} {first header number x : Nat} {entries : Array (List Nat)}

/-- Whatever is gathered stands directly inside the header's cluster. Witness: induction on the
gathering; a way in comes from an edge whose source returns to the header too.
-/
theorem inner_of_gathered (known : header < walk.size)
    (faithful : ∀ x, walk.Inner header x → walk.Faithful (fun n => entries.getD n []) x)
    (gathered : Chase.Gathered walk.toNumbering entries header (walk.outermost (header + 1))
      (walk.seeds header) x)
    : walk.Inner header x := by
  induction gathered with
  | seed member =>
      obtain ⟨source, latch, rfl⟩ := List.mem_map.mp member
      obtain ⟨latch, differs⟩ := List.mem_filter.mp latch
      obtain ⟨flows, below⟩ := (mem_latches known).mp latch
      have member := cluster_of_flows flows (walk.cluster_self header) below
      exact inner_outermost member (by simpa using differs)
  | @chase x y _ entry below differs inner =>
      obtain ⟨source, enters, alike⟩ := (faithful x inner).sound y entry
      have collapsed := outermost_congr inner.1 alike
      have sourceBelow : walk.Below header source := by
        rwa [← below_outermost_iff (Nat.lt_succ_self header) enters.lt, collapsed]
      obtain ⟨target, flows, member, -⟩ := enters
      have sourceMember := cluster_of_flows flows (inner.2.1.trans member) sourceBelow
      have sourceDiffers : source ≠ header := by
        intro same
        subst source
        rw [outermost_of_lt (Nat.lt_succ_self header)] at collapsed
        exact differs collapsed.symm
      rw [← collapsed]
      exact inner_outermost sourceMember sourceDiffers

/-- The collapsed top of every other number of the cluster is gathered. Witness: induction along
a path back to the header, which never leaves the cluster.
-/
theorem gathered_of_cluster (known : header < walk.size)
    (faithful : ∀ x, walk.Inner header x → walk.Faithful (fun n => entries.getD n []) x)
    (member : walk.Cluster header number) (differs : number ≠ header)
    : Chase.Gathered walk.toNumbering entries header (walk.outermost (header + 1))
        (walk.seeds header) (walk.outermost (header + 1) number) := by
  refine member.symm.within.head_induction
    (motive := fun number => number ≠ header
      → Chase.Gathered walk.toNumbering entries header (walk.outermost (header + 1))
          (walk.seeds header) (walk.outermost (header + 1) number))
    (fun _ same => absurd rfl same) ?_ differs
  intro source target (sourceMember : walk.Cluster header source) flows rest ih sourceDiffers
  have targetMember : walk.Cluster header target := rest.source_mem
  have sourceBelow := sourceMember.below known
  by_cases isHeader : target = header
  · subst target
    refine .seed (List.mem_map_of_mem (List.mem_filter.mpr ⟨?_, by simpa using sourceDiffers⟩))
    exact (mem_latches known).mpr ⟨flows, sourceBelow⟩
  · have after : header + 1 ≤ target := Nat.lt_of_le_of_ne targetMember.le (Ne.symm isHeader)
    have gathered := ih isHeader
    have inner := inner_outermost targetMember isHeader
    by_cases together : walk.Cluster (walk.outermost (header + 1) target) source
    · rwa [outermost_eq_of_cluster after together]
    · -- The edge enters the collapsed cluster of its target, so it is kept as a way in.
      have enters : walk.Enters (walk.outermost (header + 1) target) source :=
        ⟨target, flows, walk.outermost_cluster (header + 1) target, together⟩
      obtain ⟨y, entry, alike⟩ := (faithful _ inner).complete source enters
      have collapsed := outermost_congr inner.1 alike
      have sourceInner := inner_outermost sourceMember sourceDiffers
      rw [← collapsed] at sourceInner ⊢
      exact .chase gathered entry (sourceInner.2.1.below known) (Nat.ne_of_gt sourceInner.1)

theorem gathered_iff (known : header < walk.size)
    (faithful : ∀ x, walk.Inner header x → walk.Faithful (fun n => entries.getD n []) x)
    : Chase.Gathered walk.toNumbering entries header (walk.outermost (header + 1))
        (walk.seeds header) x
      ↔ walk.Inner header x := by
  refine ⟨inner_of_gathered known faithful, fun inner => ?_⟩
  have gathered := gathered_of_cluster known faithful inner.2.1 (Nat.ne_of_gt inner.1)
  rwa [inner.2.2] at gathered

/-- Collapsing what is directly inside a header collapses its whole cluster. -/
theorem outermost_eq_ite {pool : List Nat} (pools : walk.Pools header pool)
    : walk.outermost header
      = fun x =>
          if walk.outermost (header + 1) x ∈ pool then header
          else walk.outermost (header + 1) x := by
  funext x
  by_cases member : walk.Cluster header x
  · rw [outermost_of_cluster member]
    by_cases isHeader : x = header
    · subst x
      rw [outermost_of_lt (Nat.lt_succ_self header), ite_self]
    · rw [if_pos ((pools.mem_iff _).mpr (inner_outermost member isHeader))]
  · rw [outermost_of_not_cluster member, if_neg]
    intro pooled
    exact member (cluster_outermost_iff.mp ((pools.mem_iff _).mp pooled).2.1)

/-- The headers of loops among the numbers from the first one on, the last one first. -/
def headers (walk : Traversal) (first : Nat) : List Nat :=
  ((List.range' first (walk.size - first)).filter (walk.latches · ≠ [])).reverse

theorem mem_headers : x ∈ walk.headers first ↔ first ≤ x ∧ walk.Heads x := by
  rw [headers, List.mem_reverse, List.mem_filter, List.mem_range'_1, decide_eq_true_eq]
  constructor
  · intro ⟨bounds, present⟩
    exact ⟨bounds.1, (heads_iff (by omega)).mpr present⟩
  · intro ⟨after, heads⟩
    have known := heads.lt
    exact ⟨by omega, (heads_iff known).mp heads⟩

theorem headers_size (walk : Traversal) : walk.headers walk.size = [] := by
  simp [headers]

theorem headers_of_lt (known : first < walk.size)
    : walk.headers first
      = walk.headers (first + 1) ++ if walk.latches first ≠ [] then [first] else [] := by
  have more : walk.size - first = walk.size - (first + 1) + 1 := by omega
  rw [headers, more, List.range'_succ, List.filter_cons]
  by_cases present : walk.latches first ≠ []
  · simp [present, headers]
  · simp [present, headers]

theorem headers_pairwise (walk : Traversal) (first : Nat)
    : (walk.headers first).Pairwise (· > ·) := by
  rw [headers, List.pairwise_reverse]
  exact List.Pairwise.filter _ List.pairwise_lt_range'

end LoopNest.Traversal
