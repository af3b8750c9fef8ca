import LoopNest.Digraph
import Mathlib.Data.List.Induction
import Mathlib.Data.List.Nodup
import Mathlib.Logic.Relation

/-! Directed graphs drawn in two passes: labelled nodes are added in a row, and then edges between
them. Such a graph has these nodes in their order and no others, and the successors of a node are
the ends of the edges out of it, each once, in the order they first came.
-/

namespace LoopNest

/-- One more element of a list whose later repetitions are dropped. -/
theorem eraseDups_concat {α : Type} [BEq α] [LawfulBEq α] (elements : List α) (last : α)
    : (elements ++ [last]).eraseDups
      = if elements.elem last then elements.eraseDups else elements.eraseDups ++ [last] := by
  rw [List.eraseDups_append, List.removeAll, List.filter_singleton]
  cases elements.elem last with
  | true => exact List.append_nil _
  | false => rfl

/-- What is left without later repetitions is distinct. Witness: induction from the end. -/
theorem nodup_eraseDups {α : Type} [BEq α] [LawfulBEq α] (elements : List α)
    : elements.eraseDups.Nodup := by
  induction elements using List.reverseRecOn with
  | nil => exact List.nodup_nil
  | append_singleton elements last ih =>
      rw [eraseDups_concat]
      split
      · exact ih
      · next fresh =>
          refine List.nodup_append.mpr ⟨ih, List.nodup_singleton last, ?_⟩
          intro x earlier y isLast same
          rw [same, List.mem_singleton.mp isLast, List.mem_eraseDups] at earlier
          exact fresh (List.elem_eq_true_of_mem earlier)

/-- Inserting a key into the distinct ones of a list. -/
theorem KeyList.toList_insert {list : KeyList} {keys : List Int} (key : Int)
    (holds : list.items.toList = keys.eraseDups)
    : (list.insert key).items.toList = (keys ++ [key]).eraseDups := by
  have known_iff : key ∈ list.items ↔ keys.elem key = true := by
    rw [← Array.mem_toList_iff, holds, List.mem_eraseDups, List.elem_iff]
  rw [items_insert, eraseDups_concat]
  by_cases known : key ∈ list.items
  · rw [if_pos known, if_pos (known_iff.mp known), holds]
  · rw [if_neg known, if_neg (mt known_iff.mpr known), Array.toList_push, holds]

namespace Digraph

variable {α : Type} {graph : Digraph α} {labelled : List (Int × α)} {edges : List (Int × Int)}
  {src dst key : Int}

/-- Adds labelled nodes in a row. -/
def addNodes (graph : Digraph α) (labelled : List (Int × α)) : Digraph α :=
  labelled.foldl (fun result node => result.addNode node.1 node.2) graph

/-- Adds edges in a row. -/
def addEdges (graph : Digraph α) (edges : List (Int × Int)) : Digraph α :=
  edges.foldl (fun result edge => result.addEdge edge.1 edge.2) graph

/-- Paths along the edges. -/
def Reaches (graph : Digraph α) : Int → Int → Prop :=
  Relation.ReflTransGen fun src dst => (src, dst) ∈ graph.edges

/-- The graph shows distinct labelled nodes and the edges between them. -/
structure Draws (graph : Digraph α) (labelled : List (Int × α)) (edges : List (Int × Int))
    : Prop where
  nodup : (labelled.map Prod.fst).Nodup
  ends_mem
    : ∀ edge ∈ edges, edge.1 ∈ labelled.map Prod.fst ∧ edge.2 ∈ labelled.map Prod.fst
  nodes_eq : graph.nodes = labelled.map fun node => (node.1, some node.2)
  succs_eq
    : ∀ key,
        (graph.succsOf key).items.toList
          = ((edges.filter (·.1 = key)).map Prod.snd).eraseDups

namespace Draws

theorem keys_eq (draws : graph.Draws labelled edges)
    : graph.keys.items.toList = labelled.map Prod.fst := by
  have firsts := congrArg (List.map Prod.fst) draws.nodes_eq
  simpa [Digraph.nodes, Function.comp_def] using firsts

theorem mem_keys_iff (draws : graph.Draws labelled edges)
    : key ∈ graph.keys.items ↔ key ∈ labelled.map Prod.fst := by
  rw [← Array.mem_toList_iff, draws.keys_eq]

/-- The edges that were added are there, and no others. -/
theorem mem_edges_iff (draws : graph.Draws labelled edges)
    : (src, dst) ∈ graph.edges ↔ (src, dst) ∈ edges := by
  have ofSource : dst ∈ (graph.succsOf src).items.toList ↔ (src, dst) ∈ edges := by
    rw [draws.succs_eq, List.mem_eraseDups]
    simp
  rw [Digraph.edges, List.mem_flatMap]
  constructor
  · intro connected
    obtain ⟨source, -, listed⟩ := connected
    obtain ⟨target, succ, same⟩ := List.mem_map.mp listed
    obtain ⟨rfl, rfl⟩ := Prod.mk.inj same
    exact ofSource.mp succ
  · intro listed
    have known := draws.mem_keys_iff.mpr (draws.ends_mem _ listed).1
    exact ⟨src, Array.mem_toList_iff.mpr known,
      List.mem_map.mpr ⟨dst, ofSource.mpr listed, rfl⟩⟩

/-- No edge is there twice. Witness: the nodes are distinct, and so are the successors of each. -/
theorem nodup_edges (draws : graph.Draws labelled edges) : graph.edges.Nodup := by
  rw [Digraph.edges, List.nodup_flatMap]
  constructor
  · intro source _
    rw [draws.succs_eq]
    exact (nodup_eraseDups _).map fun x y same => (Prod.mk.inj same).2
  · rw [draws.keys_eq]
    refine draws.nodup.imp fun {first second} differs => ?_
    intro edge fromFirst fromSecond
    obtain ⟨_, _, rfl⟩ := List.mem_map.mp fromFirst
    obtain ⟨_, _, same⟩ := List.mem_map.mp fromSecond
    exact differs (Prod.mk.inj same).1.symm

/-- A node with a new key comes last, and changes no other label. -/
theorem addNode (draws : graph.Draws labelled edges) (fresh : key ∉ labelled.map Prod.fst)
    (label : α)
    : (graph.addNode key label).Draws (labelled ++ [(key, label)]) edges := by
  have keys_eq
      : (graph.addNode key label).keys.items.toList = graph.keys.items.toList ++ [key] := by
    show (graph.keys.insert key).items.toList = graph.keys.items.toList ++ [key]
    rw [KeyList.items_insert, if_neg (mt draws.mem_keys_iff.mp fresh), Array.toList_push]
  have labels_eq {other : Int} (listed : other ∈ graph.keys.items.toList)
      : (graph.addNode key label).label? other = graph.label? other := by
    rw [label?_addNode, if_neg]
    intro same
    rw [← same, draws.keys_eq] at listed
    exact fresh listed
  refine ⟨?_, ?_, ?_, draws.succs_eq⟩
  · rw [List.map_append]
    refine List.nodup_append.mpr ⟨draws.nodup, List.nodup_singleton key, ?_⟩
    intro earlier listed last isLast same
    obtain rfl := List.mem_singleton.mp isLast
    exact fresh (same ▸ listed)
  · intro edge listed
    rw [List.map_append]
    have ends := draws.ends_mem edge listed
    exact ⟨List.mem_append_left _ ends.1, List.mem_append_left _ ends.2⟩
  · rw [List.map_append, ← draws.nodes_eq, Digraph.nodes, keys_eq, List.map_append,
      Digraph.nodes, List.map_congr_left fun other listed => by rw [labels_eq listed]]
    simp [label?_addNode]

/-- An edge between nodes adds nothing else. -/
theorem addEdge (draws : graph.Draws labelled edges) (srcMem : src ∈ labelled.map Prod.fst)
    (dstMem : dst ∈ labelled.map Prod.fst)
    : (graph.addEdge src dst).Draws labelled (edges ++ [(src, dst)]) := by
  have keys_eq : (graph.addEdge src dst).keys.items = graph.keys.items := by
    have srcKept : (graph.keys.insert src).items = graph.keys.items := by
      rw [KeyList.items_insert, if_pos (draws.mem_keys_iff.mpr srcMem)]
    show ((graph.keys.insert src).insert dst).items = graph.keys.items
    rw [KeyList.items_insert, srcKept, if_pos (draws.mem_keys_iff.mpr dstMem)]
  refine ⟨draws.nodup, ?_, ?_, ?_⟩
  · intro edge listed
    rcases List.mem_append.mp listed with earlier | last
    · exact draws.ends_mem edge earlier
    · obtain rfl := List.mem_singleton.mp last
      exact ⟨srcMem, dstMem⟩
  · rw [← draws.nodes_eq, Digraph.nodes, keys_eq]
    rfl
  · intro key
    rw [succsOf_addEdge, List.filter_append, List.map_append]
    by_cases source : src = key
    · subst source
      simpa using KeyList.toList_insert dst (draws.succs_eq src)
    · simpa [source] using draws.succs_eq key

theorem addEdges (draws : graph.Draws labelled edges) {more : List (Int × Int)}
    (known : ∀ edge ∈ more, edge.1 ∈ labelled.map Prod.fst ∧ edge.2 ∈ labelled.map Prod.fst)
    : (graph.addEdges more).Draws labelled (edges ++ more) := by
  induction more generalizing graph edges with
  | nil => simpa [Digraph.addEdges] using draws
  | cons edge rest ih =>
      obtain ⟨srcMem, dstMem⟩ := known edge List.mem_cons_self
      have added := draws.addEdge srcMem dstMem
      have onward := ih added fun other listed => known other (List.mem_cons_of_mem _ listed)
      rwa [List.append_assoc] at onward

end Draws

/-- Nodes with distinct keys, added in a row. Witness: induction from the last node. -/
theorem draws_addNodes (nodup : (labelled.map Prod.fst).Nodup)
    : (({} : Digraph α).addNodes labelled).Draws labelled [] := by
  induction labelled using List.reverseRecOn with
  | nil => exact ⟨nodup, by simp, rfl, fun _ => rfl⟩
  | append_singleton labelled last ih =>
      rw [List.map_append] at nodup
      obtain ⟨earlier, -, apart⟩ := List.nodup_append.mp nodup
      have fresh : last.1 ∉ labelled.map Prod.fst :=
        fun listed => apart last.1 listed last.1 (List.mem_singleton_self _) rfl
      rw [addNodes, List.foldl_append]
      exact (ih earlier).addNode fresh last.2

end Digraph

end LoopNest
