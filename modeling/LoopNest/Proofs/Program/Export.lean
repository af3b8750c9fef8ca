import LoopNest.Export
import LoopNest.Proofs.Digraph
import LoopNest.Proofs.Program.EdgeOrder
import LoopNest.Proofs.Program.Reached
import LoopNest.Proofs.Program.Replay

/-! Exported flow graphs. The export reads the list of edges and the analyses read the neighbours of
blocks; in a built program both say the same, so what can be reached in the exported graph is what
the numbering from the start block numbers.
-/

namespace LoopNest.Program

variable {program : Program} {g : GraphRef} {start ref : BlockRef} {src dst id : Int}

/-- A directed graph agrees with a flow graph: it has the registered ids as nodes, in their order
and under their names, and its edges are those that the neighbours of the blocks say, each once.
-/
structure ShownBy (program : Program) (g : GraphRef) (registered : List (Int × String))
    (graph : Digraph String)
    : Prop where
  nodes_eq : graph.nodes = registered.map fun entry => (entry.1, some entry.2)
  succs_eq
    : ∀ ref ∈ (program.graph g).blocks,
        (graph.succsOf (program.idOf ref)).items.toList
          = ((program.block ref).succs.toList.map program.idOf).eraseDups
  preds_iff
    : ∀ ref ∈ (program.graph g).blocks, ∀ id,
        (id, program.idOf ref) ∈ graph.edges
        ↔ id ∈ (program.block ref).preds.toList.map program.idOf
  edges_nodup : graph.edges.Nodup

theorem toDigraph_eq (program : Program) (g : GraphRef)
    : program.toDigraph g
      = (({} : Digraph String).addNodes (program.labels g)).addEdges (program.edgeIdsOf g) := by
  rw [toDigraph, Digraph.addEdges, Digraph.addNodes, labels, edgeIdsOf, edgesOf, List.foldl_map,
    List.foldl_map, List.foldl_map, ← Array.foldl_toList]
  rfl

namespace Consistent

/-- The exported graph shows the registered blocks and the edges between them. -/
theorem draws_toDigraph (consistent : program.Consistent) (g : GraphRef)
    : (program.toDigraph g).Draws (program.labels g) (program.edgeIdsOf g) := by
  have keys_eq : (program.labels g).map Prod.fst = program.idsOf g := List.map_map
  have nodup : (program.idsOf g).Nodup :=
    List.Nodup.map_on (fun _ listed _ listedToo same => consistent.eq_of_idOf_eq
      (Array.mem_toList_iff.mp listed) (Array.mem_toList_iff.mp listedToo) same)
      (consistent.nodup g)
  rw [toDigraph_eq]
  refine (Digraph.draws_addNodes (keys_eq ▸ nodup)).addEdges ?_
  intro edge listed
  obtain ⟨ends, connected, rfl⟩ := List.mem_map.mp listed
  rw [keys_eq]
  exact ⟨idOf_mem_idsOf (consistent.ends_mem connected).1,
    idOf_mem_idsOf (consistent.ends_mem connected).2⟩

/-- The edges into the id of a block come from the ids of its predecessors. -/
theorem mem_edgeIdsOf_iff (consistent : program.Consistent)
    (member : ref ∈ (program.graph g).blocks)
    : (src, program.idOf ref) ∈ program.edgeIdsOf g
      ↔ src ∈ (program.block ref).preds.toList.map program.idOf := by
  rw [edgeIdsOf, List.mem_map, List.mem_map]
  constructor
  · intro listed
    obtain ⟨⟨source, target⟩, connected, same⟩ := listed
    obtain ⟨rfl, sameTarget⟩ := Prod.mk.inj same
    obtain rfl := consistent.eq_of_idOf_eq (consistent.ends_mem connected).2 member sameTarget
    exact ⟨source, Array.mem_toList_iff.mpr ((consistent.mem_preds_iff member).mpr connected), rfl⟩
  · intro listed
    obtain ⟨source, isPred, rfl⟩ := listed
    exact ⟨⟨source, ref⟩,
      (consistent.mem_preds_iff member).mp (Array.mem_toList_iff.mp isPred), rfl⟩

/-- The edges out of the id of a block lead to the ids of its successors. -/
theorem mem_edges_toDigraph_iff (consistent : program.Consistent)
    (member : ref ∈ (program.graph g).blocks)
    : (program.idOf ref, dst) ∈ (program.toDigraph g).edges
      ↔ ∃ target, program.Flows ref target ∧ program.idOf target = dst := by
  have listed_iff : (program.idOf ref, dst) ∈ program.edgeIdsOf g
      ↔ dst ∈ (program.block ref).succs.toList.map program.idOf := by
    rw [consistent.succ_ids member]
    simp
  rw [(consistent.draws_toDigraph g).mem_edges_iff, listed_iff, List.mem_map]
  exact exists_congr fun target => and_congr_left' Array.mem_toList_iff

/-- What the edges reach from the id of a block is what its numbering numbers. Witness: the edges
follow the successors of blocks, and so does the numbering.
-/
theorem reaches_iff (consistent : program.Consistent)
    (registered : start ∈ (program.graph g).blocks)
    : (program.toDigraph g).Reaches (program.idOf start) id
      ↔ ∃ number, (program.number start).number? id = some number := by
  have whole := consistent.whole registered
  constructor
  · intro reaches
    induction reaches with
    | refl =>
        have first := whole.sound.number_blockOf whole.positive
        rw [whole.blockOf_zero] at first
        exact ⟨0, first⟩
    | tail _ last ih =>
        obtain ⟨number, numbered⟩ := ih
        obtain ⟨known, rfl⟩ := whole.sound.number_some numbered
        have member := consistent.blockOf_mem registered known
        obtain ⟨ref, flows, rfl⟩ := (consistent.mem_edges_toDigraph_iff member).mp last
        obtain ⟨target, targetKnown, rfl, -⟩ := consistent.exists_flows registered known flows
        exact ⟨target, whole.sound.number_blockOf targetKnown⟩
  · intro numbered
    obtain ⟨number, numbered⟩ := numbered
    obtain ⟨known, rfl⟩ := whole.sound.number_some numbered
    have reached := (consistent.reached_iff registered).mpr ⟨number, known, rfl⟩
    refine (reached.tail_induction
      (motive := fun ref => ref ∈ (program.graph g).blocks
        ∧ (program.toDigraph g).Reaches (program.idOf start) (program.idOf ref))
      ⟨registered, .refl⟩ ?_).2
    intro x y _ flows _ before
    obtain ⟨member, reaches⟩ := before
    exact ⟨consistent.flows_mem member flows,
      reaches.tail ((consistent.mem_edges_toDigraph_iff member).mpr ⟨y, flows, rfl⟩)⟩

end Consistent

/-- The exported graph of a built program agrees with the neighbours of its blocks, its start is the
first registered id, and the ids it reaches from there are those that the numbering from the start
block numbers.
-/
theorem toDigraph_shows (calls : List BuildCall) (g : GraphRef)
    : let program := build calls
      let registered := (BuildCall.registrations calls).getD g []
      program.ShownBy g registered (program.toDigraph g)
      ∧ program.startKey? g = registered.head?.map Prod.fst
      ∧ ∀ id,
          (∃ key ∈ program.startKey? g, (program.toDigraph g).Reaches key id)
          ↔ ∃ start ∈ (program.graph g).start?, ∃ number,
              (program.number start).number? id = some number := by
  intro program registered
  have consistent : program.Consistent := consistent_build calls
  have labels_eq : program.labels g = registered := (enrolled_build calls).labels_eq g
  have draws := consistent.draws_toDigraph g
  refine ⟨⟨?_, ?_, ?_, draws.nodup_edges⟩, ?_, ?_⟩
  · rw [draws.nodes_eq, labels_eq]
  · intro ref member
    rw [draws.succs_eq, consistent.succ_ids member]
  · intro ref member id
    rw [draws.mem_edges_iff, consistent.mem_edgeIdsOf_iff member]
  · rw [← labels_eq, labels, List.head?_map, Option.map_map, List.head?_eq_getElem?,
      Array.getElem?_toList]
    rfl
  · intro id
    rw [startKey?]
    cases isStart : (program.graph g).start? with
    | none => simp
    | some start =>
        simp only [Option.map_some, Option.mem_some_iff, exists_eq_left']
        exact consistent.reaches_iff (Array.mem_of_getElem? isStart)

/-- Parallel edges are one edge at the place of the first, and an edge that is refused leaves no
node behind.
-/
example
    : let program := build (BuildCall.ofEdges 3 [(0, 2), (0, 1), (0, 2), (1, 1), (1, 7), (2, 0)])
      (program.toDigraph 0).nodes.map Prod.fst = [0, 1, 2]
      ∧ (program.toDigraph 0).edges = [(0, 2), (0, 1), (1, 1), (2, 0)] := by
  decide +kernel

end LoopNest.Program
