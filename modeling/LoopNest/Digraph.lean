import LoopNest.KeyList
import Std.Data.TreeMap

/-! Directed graphs with labelled nodes, in which nodes and each node's successors keep the
order they were added in.
-/

namespace LoopNest

/-- A directed graph: the keys of its nodes, the labels of those that were given one, and the
successors of each node without repeats.
-/
structure Digraph (α : Type) where
  keys : KeyList := .empty
  labels : Std.TreeMap Int α := ∅
  succs : Std.TreeMap Int KeyList := ∅

namespace Digraph

variable {α : Type}

/-- The label of a node, if it was given one. -/
def label? (graph : Digraph α) (key : Int) : Option α :=
  graph.labels[key]?

/-- The successors of a node in the order they were added. -/
def succsOf (graph : Digraph α) (key : Int) : KeyList :=
  graph.succs.getD key .empty

/-- Adds a node without label, unless the key is there. -/
def ensure (graph : Digraph α) (key : Int) : Digraph α :=
  { graph with keys := graph.keys.insert key }

/-- Adds a node with a label. A key that is there keeps its place and gets the new label. -/
def addNode (graph : Digraph α) (key : Int) (label : α) : Digraph α :=
  let ensured := graph.ensure key
  { ensured with labels := ensured.labels.insert key label }

/-- Adds an edge, and before it whichever end is missing, the source first. An edge that is
there is not repeated.
-/
def addEdge (graph : Digraph α) (src dst : Int) : Digraph α :=
  let ensured := (graph.ensure src).ensure dst
  { ensured with
    succs := ensured.succs.alter src fun known => some ((known.getD .empty).insert dst) }

/-- The nodes in the order they were added, each with its label if it was given one. -/
def nodes (graph : Digraph α) : List (Int × Option α) :=
  graph.keys.items.toList.map fun key => (key, graph.label? key)

/-- The edges, by source in node order and then in the order they were added. -/
def edges (graph : Digraph α) : List (Int × Int) :=
  graph.keys.items.toList.flatMap fun src =>
    (graph.succsOf src).items.toList.map fun dst => (src, dst)

/-- Labelling a node gives it the new label and keeps all others. -/
theorem label?_addNode (graph : Digraph α) (key other : Int) (label : α)
    : (graph.addNode key label).label? other
      = if key = other then some label else graph.label? other := by
  simp [addNode, ensure, label?, Std.TreeMap.getElem?_insert]

@[simp]
theorem succsOf_addNode (graph : Digraph α) (key other : Int) (label : α)
    : (graph.addNode key label).succsOf other = graph.succsOf other :=
  rfl

/-- An edge adds its end to the successors of its start, and changes no other node's. Witness:
reading the table of successors after one change.
-/
theorem succsOf_addEdge (graph : Digraph α) (src dst other : Int)
    : (graph.addEdge src dst).succsOf other
      = if src = other then (graph.succsOf src).insert dst else graph.succsOf other := by
  by_cases same : src = other
  · subst same
    simp [addEdge, ensure, succsOf, Std.TreeMap.getD_eq_getD_getElem?]
  · simp [addEdge, ensure, succsOf, Std.TreeMap.getD_eq_getD_getElem?,
      Std.TreeMap.getElem?_alter, same]

end Digraph

end LoopNest
