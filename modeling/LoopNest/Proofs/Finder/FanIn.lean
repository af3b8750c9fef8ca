import LoopNest.Proofs.Finder.Headers
import LoopNest.Proofs.Traversal.FanIn
import Mathlib.Algebra.BigOperators.Group.Finset.Piecewise

/-! When a run gives up: with a bound not below the number of edges it does so only if some header
inside another loop takes over the ways into one part of its body repeatedly, because several back
edges come from that part.
-/

namespace LoopNest

/-- Two edges lead to a header from one strongly connected part of its loop body without the
header, and that part can be entered by an edge from outside the header's subtree.
-/
def Program.RepeatsEntry (program : Program) (g : GraphRef) (start header : BlockRef) : Prop :=
  ∃ first second src dst,
    [⟨first, header⟩, ⟨second, header⟩].Sublist (program.edgesOf g)
    ∧ Linked program.Flows (program.loopBody start header \ {header}) first second
    ∧ Linked program.Flows (program.loopBody start header \ {header}) first dst
    ∧ program.Flows src dst
    ∧ src ∈ program.reached g
    ∧ ¬ (program.number start).Descends program header src

/-- Two found values in a row were found for two elements in a row. -/
theorem pair_sublist_of_filterMap {α β : Type} {lookup : α → Option β} {xs : List α} {b b' : β}
    (pair : [b, b'].Sublist (xs.filterMap lookup))
    : ∃ a a', [a, a'].Sublist xs ∧ lookup a = some b ∧ lookup a' = some b' := by
  obtain ⟨picked, within, found⟩ := List.sublist_filterMap_iff.mp pair
  obtain ⟨before, a, rest, rfl, -, foundFirst, found⟩ := List.filterMap_eq_cons_iff.mp found.symm
  obtain ⟨between, a', after, rfl, -, foundSecond, -⟩ := List.filterMap_eq_cons_iff.mp found
  refine ⟨a, a', .trans ?_ within, foundFirst, foundSecond⟩
  refine .trans (.cons_cons a ?_) (List.sublist_append_right before _)
  exact .trans (.cons_cons a' (List.nil_sublist after)) (List.sublist_append_right between _)

/-- Different places have different edges leading to them. Witness: induction on the edges. -/
theorem sum_filter_dst_le {size : Nat} {place : Nat → BlockRef}
    (injective : Set.InjOn place { z | z < size }) (edges : List Edge)
    : ∑ z ∈ Finset.range size, (edges.filter (·.dst = place z)).length ≤ edges.length := by
  induction edges with
  | nil => simp
  | cons edge rest ih =>
      have split (z : Nat)
          : ((edge :: rest).filter (·.dst = place z)).length
            = (if edge.dst = place z then 1 else 0) + (rest.filter (·.dst = place z)).length := by
        rw [List.filter_cons]
        by_cases leads : edge.dst = place z
        · simp [leads, Nat.add_comm]
        · simp [leads]
      have atMostOne : ∑ z ∈ Finset.range size, (if edge.dst = place z then 1 else 0) ≤ 1 := by
        rw [← Finset.card_filter, Finset.card_le_one]
        intro z member other memberToo
        obtain ⟨known, leads⟩ := Finset.mem_filter.mp member
        obtain ⟨knownToo, leadsToo⟩ := Finset.mem_filter.mp memberToo
        exact injective (Finset.mem_range.mp known) (Finset.mem_range.mp knownToo)
          (leads.symm.trans leadsToo)
      rw [Finset.sum_congr rfl fun z _ => split z, Finset.sum_add_distrib, List.length_cons]
      omega

namespace Program.Consistent

variable {program : Program} {g : GraphRef} {start : BlockRef} {header x : Nat}

theorem sum_sources_le (consistent : program.Consistent)
    (registered : start ∈ (program.graph g).blocks)
    : ∑ z ∈ Finset.range (program.number start).size,
        ((consistent.walk registered).sources z).length
      ≤ (program.graph g).edges.size := by
  calc ∑ z ∈ Finset.range (program.number start).size,
        ((consistent.walk registered).sources z).length
      ≤ ∑ z ∈ Finset.range (program.number start).size,
          ((program.edgesOf g).filter (·.dst = (program.number start).blockOf z)).length := by
        refine Finset.sum_le_sum fun z inRange => ?_
        have member := consistent.blockOf_mem registered (Finset.mem_range.mp inRange)
        refine (List.length_filterMap_le _ _).trans_eq ?_
        rw [consistent.preds_eq member, List.length_map]
    _ ≤ (program.edgesOf g).length := sum_filter_dst_le (consistent.blockOf_injOn registered) _
    _ = (program.graph g).edges.size := by rw [edgesOf, List.length_map, Array.length_toList]

/-- The sources of a number read off the edges of the graph. -/
theorem sources_eq (consistent : program.Consistent)
    (registered : start ∈ (program.graph g).blocks) (known : header < (program.number start).size)
    : (consistent.walk registered).sources header
      = (program.edgesOf g).filterMap fun edge =>
          if edge.dst = (program.number start).blockOf header
          then (program.number start).number? (program.idOf edge.src) else none := by
  have member := consistent.blockOf_mem registered known
  change ((program.block ((program.number start).blockOf header)).preds.toList.filterMap
    fun ref => (program.number start).number? (program.idOf ref)) = _
  rw [consistent.preds_eq member, List.filterMap_map, List.filterMap_filter]
  simp only [decide_eq_true_eq, Function.comp_apply]

/-- Two back edges of a header from one number inside its cluster are two edges of the graph. -/
theorem edges_of_seeds (consistent : program.Consistent)
    (registered : start ∈ (program.graph g).blocks) (known : header < (program.number start).size)
    (often : 2 ≤ ((consistent.walk registered).seeds header).count x)
    : ∃ first second,
        [⟨(program.number start).blockOf first, (program.number start).blockOf header⟩,
          ⟨(program.number start).blockOf second, (program.number start).blockOf header⟩].Sublist
            (program.edgesOf g)
        ∧ ∀ latch ∈ [first, second],
            (consistent.walk registered).Cluster header latch
            ∧ latch ≠ header
            ∧ (consistent.walk registered).outermost (header + 1) latch = x := by
  have seeded : [x, x].Sublist ((consistent.walk registered).seeds header) :=
    List.replicate_sublist_iff.mpr often
  obtain ⟨latches, picked, seeds_eq⟩ := List.sublist_map_iff.mp seeded
  obtain ⟨first, second, rfl⟩ : ∃ first second, latches = [first, second] := by
    have length_eq := congrArg List.length seeds_eq
    rw [List.length_map] at length_eq
    exact List.length_eq_two.mp length_eq.symm
  have fromSources : [first, second].Sublist ((consistent.walk registered).sources header) :=
    picked.trans (List.filter_sublist.trans List.filter_sublist)
  rw [consistent.sources_eq registered known] at fromSources
  obtain ⟨edge, edge', inEdges, isFirst, isSecond⟩ := pair_sublist_of_filterMap fromSources
  have edge_eq {edge : Edge} {latch : Nat} (listed : edge ∈ program.edgesOf g)
      (found : (if edge.dst = (program.number start).blockOf header
        then (program.number start).number? (program.idOf edge.src) else none) = some latch)
      : ⟨(program.number start).blockOf latch, (program.number start).blockOf header⟩ = edge := by
    split at found
    · next leads =>
        have srcMem := (consistent.ends_mem listed).1
        rw [((consistent.number?_iff registered srcMem).mp found).2, ← leads]
    · cases found
  refine ⟨first, second, ?_, ?_⟩
  · rwa [edge_eq (inEdges.subset (by simp)) isFirst, edge_eq (inEdges.subset (by simp)) isSecond]
  · intro latch listed
    obtain ⟨isLatch, differs⟩ := List.mem_filter.mp (picked.subset listed)
    obtain ⟨flows, below⟩ := (Traversal.mem_latches known).mp isLatch
    refine ⟨Traversal.cluster_of_flows flows ((consistent.walk registered).cluster_self header)
      below, by simpa using differs, ?_⟩
    have seed : (consistent.walk registered).outermost (header + 1) latch ∈ [x, x] :=
      seeds_eq ▸ List.mem_map_of_mem listed
    simpa using seed

/-- The blocks of a cluster directly inside another are strongly connected in the loop body
without its header. Witness: in numbers, that cluster is their component.
-/
theorem linked_of_outermost (consistent : program.Consistent)
    (registered : start ∈ (program.graph g).blocks) (known : header < (program.number start).size)
    {latch number : Nat}
    (latchIn : latch ∈ { y | (consistent.walk registered).Cluster header y } \ {header})
    (member : (consistent.walk registered).Cluster
      ((consistent.walk registered).outermost (header + 1) latch) number)
    : Linked program.Flows
        (program.loopBody start ((program.number start).blockOf header)
          \ {(program.number start).blockOf header})
        ((program.number start).blockOf latch) ((program.number start).blockOf number) := by
  have inTable : ∀ y ∈ { y | (consistent.walk registered).Cluster header y } \ {header},
      y < (program.number start).size :=
    fun y inside => Traversal.number_lt (inside.1.below known)
  have component := ((consistent.walk registered).filled_inside header).component_eq latchIn
  have joined := component.symm.subset member
  rw [consistent.loopBody_eq registered known, consistent.clusterBlocks_diff registered known]
  exact (consistent.linked_blockOf_iff registered inTable latchIn joined.1.target_mem).mpr joined

/-- What a header takes over repeatedly in numbers it takes over repeatedly in blocks. -/
theorem repeatsEntry (consistent : program.Consistent)
    (registered : start ∈ (program.graph g).blocks)
    (isStart : (program.graph g).start? = some start)
    (known : header < (program.number start).size)
    (repeats : (consistent.walk registered).RepeatsEntry header x)
    : program.RepeatsEntry g start ((program.number start).blockOf header) := by
  obtain ⟨often, source, ⟨target, flows, member, _⟩, outside⟩ := repeats
  obtain ⟨first, second, inEdges, latch⟩ := consistent.edges_of_seeds registered known often
  obtain ⟨firstMember, firstNe, firstTop⟩ := latch first (by simp)
  obtain ⟨-, -, secondTop⟩ := latch second (by simp)
  have linked {number : Nat} (member : (consistent.walk registered).Cluster x number) :=
    consistent.linked_of_outermost registered known ⟨firstMember, firstNe⟩
      (firstTop.symm ▸ member)
  have secondMember := (consistent.walk registered).outermost_cluster (header + 1) second
  obtain ⟨sourceKnown, -, edge⟩ := (consistent.walk_flows_iff registered).mp flows
  have srcMem := consistent.blockOf_mem registered sourceKnown
  refine ⟨_, _, _, _, inEdges, linked (secondTop ▸ secondMember), linked member, edge, ?_, ?_⟩
  · rw [consistent.reached_eq isStart]
    exact ⟨source, sourceKnown, rfl⟩
  · intro descends
    obtain ⟨number, below, same⟩ := (consistent.descends_iff registered known srcMem).mp descends
    have numberKnown := (consistent.walk registered).below_lt known below
    have sameNumber := consistent.blockOf_injOn registered numberKnown sourceKnown same
    exact outside (sameNumber ▸ below)

/-- The ways in that a swept number keeps are no more than the graph has edges, unless some header
inside another loop repeats an entry.
-/
theorem entries_length_le (consistent : program.Consistent)
    {registered : start ∈ (program.graph g).blocks}
    (isStart : (program.graph g).start? = some start) {first : Nat} {final : Sweep}
    (swept : (consistent.walk registered).Swept first final)
    (single : ∀ header outer, outer ≠ header → header ∈ program.loopBody start outer
      → ¬ program.RepeatsEntry g start header)
    (after : first ≤ x) (known : x < (program.number start).size)
    (nested : ∃ outer < x, (consistent.walk registered).Cluster outer x)
    : (final.entries.getD x []).length ≤ (program.graph g).edges.size := by
  have notRepeated : ∀ number, (∃ outer < number,
      (consistent.walk registered).Cluster outer number)
      → ∀ x, (consistent.walk registered).Inner number x
        → ¬ (consistent.walk registered).RepeatsEntry number x := by
    intro number ⟨outer, before, member⟩ x inner repeats
    have heads := inner.2.1.heads (Nat.ne_of_gt inner.1)
    have outerKnown : outer < (program.number start).size := before.trans heads.lt
    refine single ((program.number start).blockOf number) ((program.number start).blockOf outer)
      ?_ ?_ (consistent.repeatsEntry registered isStart heads.lt repeats)
    · intro same
      exact Nat.ne_of_lt before (consistent.blockOf_injOn registered outerKnown heads.lt same)
    · rw [consistent.loopBody_eq registered outerKnown]
      exact ⟨number, member, rfl⟩
  calc (final.entries.getD x []).length
      ≤ ∑ z ∈ (consistent.walk registered).members x,
          ((consistent.walk registered).outsiders x
            ((consistent.walk registered).sources z)).length :=
        Traversal.kept_length_le swept.folded notRepeated after known nested
    _ ≤ ∑ z ∈ (consistent.walk registered).members x,
          ((consistent.walk registered).sources z).length :=
        Finset.sum_le_sum fun z _ => List.length_filter_le ..
    _ ≤ ∑ z ∈ Finset.range (program.number start).size,
          ((consistent.walk registered).sources z).length :=
        Finset.sum_le_sum_of_subset fun z member =>
          Finset.mem_range.mpr (Traversal.number_lt
            (Traversal.Cluster.below ((Traversal.mem_members known).mp member) known))
    _ ≤ (program.graph g).edges.size := consistent.sum_sources_le registered

end Program.Consistent

/-- A run whose bound is not below the number of edges of its graph does not give up, unless some
header inside another loop repeats an entry.
-/
theorem Finder.runFresh_not_stopped (calls : List BuildCall) (finder : Finder)
    (store : LoopStore)
    (few : (((Program.build calls).graph finder.graph).edges.size : Int) ≤ finder.bound)
    (single : ∀ start, ((Program.build calls).graph finder.graph).start? = some start
      → ∀ header outer, outer ≠ header → header ∈ (Program.build calls).loopBody start outer
        → ¬ (Program.build calls).RepeatsEntry finder.graph start header)
    : (finder.runFresh (Program.build calls) store).finder.stopped = false := by
  have consistent := Program.consistent_build calls
  by_contra stopped
  have stopped := Bool.eq_true_of_not_eq_false stopped
  cases isStart : ((Program.build calls).graph finder.graph).start? with
  | none =>
      rw [Finder.runFresh_of_none isStart] at stopped
      cases stopped
  | some start =>
      obtain ⟨header, x, final, known, swept, inner, heavy⟩ :=
        Finder.runFresh_stopped consistent isStart stopped
      have bounded := consistent.entries_length_le isStart swept (single start isStart) inner.1
        (Traversal.number_lt (inner.2.1.below known)) ⟨header, inner.1, inner.2.1⟩
      omega

theorem Finder.runFresh_not_stopped_irreducible
    : let program := Program.build (BuildCall.ofEdges 3 [(0, 1), (1, 2), (2, 1), (0, 2), (2, 0)])
      (program.graph 0).edges.size = 5
      ∧ (∀ header outer, outer ≠ header → header ∈ program.loopBody 0 outer
          → ¬ program.RepeatsEntry 0 0 header)
      ∧ (runFresh { graph := 0, forest := 0, bound := 5 } program {}).finder.stopped = false := by
  intro program
  have size_eq : (program.graph 0).edges.size = 5 := by decide +kernel
  have isStart : (program.graph 0).start? = some 0 := by decide +kernel
  have inRange : ∀ edge ∈ program.edgesOf 0, edge.src < 3 ∧ edge.dst < 3 := by decide +kernel
  -- Of two edges to one block, the earlier comes from outside the block's subtree.
  have pairs : ∀ header < 3, ∀ first < 3, ∀ second < 3,
      [⟨first, header⟩, ⟨second, header⟩].Sublist (program.edgesOf 0)
      → ¬ (program.number 0).Descends program header first := by decide +kernel
  have single : ∀ header outer, outer ≠ header → header ∈ program.loopBody 0 outer
      → ¬ program.RepeatsEntry 0 0 header := by
    intro header outer _ _ ⟨first, second, src, dst, inEdges, linked, _⟩
    have firstEdge := inRange ⟨first, header⟩ (inEdges.subset (by simp))
    have secondEdge := inRange ⟨second, header⟩ (inEdges.subset (by simp))
    exact pairs header firstEdge.2 first firstEdge.1 second secondEdge.1 inEdges
      linked.1.source_mem.1.1
  refine ⟨size_eq, single, runFresh_not_stopped _ _ _ (by rw [size_eq]; decide) ?_⟩
  intro start found
  rw [isStart] at found
  cases found
  exact single

/-- Repeated back edges make a run give up whose bound is the number of edges of its graph. -/
theorem Finder.runFresh_stopped_of_repeated_edges
    : let program := Program.build (BuildCall.ofEdges 3
        [(0, 1), (1, 2), (2, 0), (2, 1), (2, 1), (2, 1), (2, 1), (0, 2), (0, 2), (0, 2), (0, 2)])
      (program.graph 0).edges.size = 11
      ∧ (runFresh { graph := 0, forest := 0, bound := 11 } program {}).finder.stopped = true := by
  decide +kernel

end LoopNest
