import LoopNest.Proofs.Program.Construction

/-! Graphs by ids: the registered ids in their order, and the edges between ids. Histories that
register the same blocks and then connect them in different orders build graphs that differ in the
order of the edges only, or only in how the edges out of different blocks are interleaved.
-/

namespace LoopNest

/-- The calls that connect blocks of a graph by ids. -/
def BuildCall.connects (g : GraphRef) (edges : List (Int × Int)) : List BuildCall :=
  edges.map fun (src, dst) => .connect g src dst

namespace Program

variable {program : Program} {g : GraphRef} {ref : BlockRef} {src dst : Int}

/-- The ids of the registered blocks in registration order. -/
def idsOf (program : Program) (g : GraphRef) : List Int :=
  (program.graph g).blocks.toList.map program.idOf

/-- The edges of a graph by the ids of their ends, in the order they were added. -/
def edgeIdsOf (program : Program) (g : GraphRef) : List (Int × Int) :=
  (program.edgesOf g).map fun edge => (program.idOf edge.src, program.idOf edge.dst)

theorem idOf_mem_idsOf (member : ref ∈ (program.graph g).blocks)
    : program.idOf ref ∈ program.idsOf g :=
  List.mem_map_of_mem (Array.mem_toList_iff.mpr member)

/-- Two graphs register the same ids in the same order and have the same edges between ids, each as
often, in any order.
-/
structure PermutesEdges (program : Program) (g : GraphRef) (other : Program) (h : GraphRef)
    : Prop where
  ids_eq : program.idsOf g = other.idsOf h
  edges_perm : (program.edgeIdsOf g).Perm (other.edgeIdsOf h)

theorem PermutesEdges.start_eq {other : Program} {h : GraphRef}
    (permutes : program.PermutesEdges g other h)
    : (program.graph g).start?.map program.idOf = (other.graph h).start?.map other.idOf := by
  have firsts := congrArg (·[0]?) permutes.ids_eq
  simpa only [idsOf, List.getElem?_map, Array.getElem?_toList, FlowGraph.start?] using firsts

/-- Two graphs register the same ids in the same order, and out of each id lead the same edges in
the same order. Edges out of different ids may be interleaved differently.
-/
structure InterleavesEdges (program : Program) (g : GraphRef) (other : Program) (h : GraphRef)
    : Prop where
  ids_eq : program.idsOf g = other.idsOf h
  edges_eq
    : ∀ id, (program.edgeIdsOf g).filter (·.1 = id) = (other.edgeIdsOf h).filter (·.1 = id)

/-- Graphs that interleave their edges differently have the same edges. Witness: an edge occurs
among all edges as often as among those out of its source.
-/
theorem InterleavesEdges.permutes {other : Program} {h : GraphRef}
    (interleaves : program.InterleavesEdges g other h)
    : program.PermutesEdges g other h := by
  refine ⟨interleaves.ids_eq, List.perm_iff_count.mpr fun edge => ?_⟩
  have count_eq (edges : List (Int × Int))
      : (edges.filter (·.1 = edge.1)).count edge = edges.count edge :=
    List.count_filter (decide_eq_true rfl)
  rw [← count_eq, interleaves.edges_eq edge.1, count_eq]

namespace Consistent

theorem mem_idsOf_iff (consistent : program.Consistent) {id : Int}
    : id ∈ program.idsOf g ↔ ∃ ref, (program.graph g).find? id = some ref := by
  simp only [idsOf, List.mem_map, Array.mem_toList_iff, consistent.find?_iff]

/-- The successors of a block by ids. -/
theorem succ_ids (consistent : program.Consistent) (member : ref ∈ (program.graph g).blocks)
    : (program.block ref).succs.toList.map program.idOf
      = ((program.edgeIdsOf g).filter (·.1 = program.idOf ref)).map Prod.snd := by
  rw [consistent.succs_eq member, edgeIdsOf, List.filter_map, List.map_map, List.map_map]
  refine congrArg (List.map _) (List.filter_congr fun edge listed => decide_eq_decide.mpr ?_)
  constructor
  · exact congrArg program.idOf
  · exact consistent.eq_of_idOf_eq (consistent.ends_mem listed).1 member

/-- An edge between registered blocks leaves all ids and adds itself. -/
theorem wire_ids (consistent : program.Consistent) {a b : BlockRef}
    (srcMem : a ∈ (program.graph g).blocks) (dstMem : b ∈ (program.graph g).blocks)
    : (program.wire g a b).1.idsOf g = program.idsOf g
      ∧ (program.wire g a b).1.edgeIdsOf g
        = program.edgeIdsOf g ++ [(program.idOf a, program.idOf b)] := by
  have idOf_eq {ref : BlockRef} (member : ref ∈ (program.graph g).blocks)
      : (program.wire g a b).1.idOf ref = program.idOf ref := by
    rw [idOf, idOf, block_wire _ _ _ _ _ (consistent.block_lt member)]
  constructor
  · rw [idsOf, blocks_wire]
    exact List.map_congr_left fun ref listed => idOf_eq (Array.mem_toList_iff.mp listed)
  · rw [edgeIdsOf, consistent.edgesOf_wire srcMem, if_pos rfl, List.map_append,
      List.map_singleton, idOf_eq srcMem, idOf_eq dstMem, edgeIdsOf]
    refine congrArg (· ++ _) (List.map_congr_left fun edge listed => ?_)
    have ends := consistent.ends_mem listed
    rw [idOf_eq ends.1, idOf_eq ends.2]

/-- A connection leaves all ids, and adds its edge if it is not refused. -/
theorem perform_connect_ids (consistent : program.Consistent) (src dst : Int)
    : (program.perform (.connect g src dst)).idsOf g = program.idsOf g
      ∧ (program.perform (.connect g src dst)).edgeIdsOf g
        = program.edgeIdsOf g
          ++ [(src, dst)].filter fun edge =>
              edge.1 ∈ program.idsOf g ∧ edge.2 ∈ program.idsOf g := by
  rw [Program.perform, Program.connect]
  cases foundSrc : (program.graph g).find? src with
  | none =>
      have unknown : src ∉ program.idsOf g := by simp [consistent.mem_idsOf_iff, foundSrc]
      exact ⟨rfl, by simp [unknown, Except.toOption]⟩
  | some a =>
      cases foundDst : (program.graph g).find? dst with
      | none =>
          have unknown : dst ∉ program.idsOf g := by simp [consistent.mem_idsOf_iff, foundDst]
          exact ⟨rfl, by simp [unknown, Except.toOption]⟩
      | some b =>
          have srcKnown := consistent.mem_idsOf_iff.mpr ⟨a, foundSrc⟩
          have dstKnown := consistent.mem_idsOf_iff.mpr ⟨b, foundDst⟩
          obtain ⟨srcMem, srcId⟩ := consistent.find?_iff.mp foundSrc
          obtain ⟨dstMem, dstId⟩ := consistent.find?_iff.mp foundDst
          have linked : program.link g a b = .ok (program.wire g a b) := by
            simp [Program.link, consistent.isRegistered_iff.mpr srcMem,
              consistent.isRegistered_iff.mpr dstMem]
          obtain ⟨ids_eq, edges_eq⟩ := consistent.wire_ids srcMem dstMem
          rw [srcId, dstId] at edges_eq
          dsimp only
          rw [linked]
          exact ⟨ids_eq, edges_eq.trans (by simp [srcKnown, dstKnown])⟩

/-- A series of connections adds the edges between known ids. Witness: induction on the series. -/
theorem connectAll_ids (consistent : program.Consistent) (edges : List (Int × Int))
    : ((BuildCall.connects g edges).foldl Program.perform program).idsOf g = program.idsOf g
      ∧ ((BuildCall.connects g edges).foldl Program.perform program).edgeIdsOf g
        = program.edgeIdsOf g
          ++ edges.filter fun edge =>
              edge.1 ∈ program.idsOf g ∧ edge.2 ∈ program.idsOf g := by
  induction edges generalizing program with
  | nil => exact ⟨rfl, (List.append_nil _).symm⟩
  | cons edge rest ih =>
      obtain ⟨ids_eq, edges_eq⟩ := consistent.perform_connect_ids (g := g) edge.1 edge.2
      obtain ⟨restIds, restEdges⟩ := ih (consistent.perform (.connect g edge.1 edge.2))
      rw [BuildCall.connects, List.map_cons, List.foldl_cons]
      rw [ids_eq] at restIds restEdges
      rw [edges_eq, List.append_assoc, ← List.filter_append, List.singleton_append] at restEdges
      exact ⟨restIds, restEdges⟩

end Consistent

/-- The same calls followed by connections in different orders build graphs that differ in the
order of their edges only.
-/
theorem permutesEdges_connect (calls : List BuildCall) (g : GraphRef)
    {edges others : List (Int × Int)} (permuted : edges.Perm others)
    : (build (calls ++ BuildCall.connects g edges)).PermutesEdges g
        (build (calls ++ BuildCall.connects g others)) g := by
  have consistent := consistent_build calls
  obtain ⟨ids_eq, edges_eq⟩ := consistent.connectAll_ids (g := g) edges
  obtain ⟨otherIds, otherEdges⟩ := consistent.connectAll_ids (g := g) others
  rw [build, build, List.foldl_append, List.foldl_append]
  refine ⟨ids_eq.trans otherIds.symm, ?_⟩
  rw [build] at edges_eq otherEdges
  rw [edges_eq, otherEdges]
  exact (permuted.filter _).append_left _

/-- The same calls followed by connections that agree on the edges out of each id build graphs that
interleave their edges differently.
-/
theorem interleavesEdges_connect (calls : List BuildCall) (g : GraphRef)
    {edges others : List (Int × Int)}
    (agree : ∀ edge ∈ edges ++ others,
      edges.filter (·.1 = edge.1) = others.filter (·.1 = edge.1))
    : (build (calls ++ BuildCall.connects g edges)).InterleavesEdges g
        (build (calls ++ BuildCall.connects g others)) g := by
  have agree (id : Int) : edges.filter (·.1 = id) = others.filter (·.1 = id) := by
    by_cases source : ∃ edge ∈ edges ++ others, edge.1 = id
    · obtain ⟨edge, listed, rfl⟩ := source
      exact agree edge listed
    · have nothing {part : List (Int × Int)} (included : part ⊆ edges ++ others)
          : part.filter (·.1 = id) = [] :=
        List.filter_eq_nil_iff.mpr fun edge listed isSource =>
          source ⟨edge, included listed, of_decide_eq_true isSource⟩
      rw [nothing (List.subset_append_left edges others),
        nothing (List.subset_append_right edges others)]
  have consistent := consistent_build calls
  obtain ⟨ids_eq, edges_eq⟩ := consistent.connectAll_ids (g := g) edges
  obtain ⟨otherIds, otherEdges⟩ := consistent.connectAll_ids (g := g) others
  rw [build, build, List.foldl_append, List.foldl_append]
  refine ⟨ids_eq.trans otherIds.symm, fun id => ?_⟩
  rw [build] at edges_eq otherEdges
  rw [edges_eq, otherEdges, List.filter_append, List.filter_append, List.filter_comm, agree id,
    List.filter_comm]

end Program

end LoopNest
