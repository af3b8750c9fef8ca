import LoopNest.Digraph
import LoopNest.Forest.Basic

/-! Flow graphs and forests as plain directed graphs. -/

namespace LoopNest

/-- A flow graph with the ids of its blocks as keys and their names as labels. -/
def Program.toDigraph (program : Program) (ref : GraphRef) : Digraph String :=
  let graph := program.graph ref
  let named := graph.blocks.foldl
    (fun (result : Digraph String) block =>
      result.addNode (program.idOf block) (program.block block).name) {}
  graph.edges.toList.foldl
    (fun result edge =>
      let ends := program.edge edge
      result.addEdge (program.idOf ends.src) (program.idOf ends.dst)) named

/-- The key of a flow graph's start block. -/
def Program.startKey? (program : Program) (ref : GraphRef) : Option Int :=
  (program.graph ref).start?.map program.idOf

/-- What an exported forest says of a loop: the id of its header, its kind, and the ids of its
blocks.
-/
structure LoopLabel where
  header : Option Int
  reducible : Bool
  blocks : List Int
deriving Repr, DecidableEq, Inhabited

/-- The label of a loop. -/
def Loop.label (program : Program) (loop : Loop) : LoopLabel where
  header := loop.header.map program.idOf
  reducible := loop.reducible
  blocks := loop.blocks.toList.map program.idOf

/-- A forest with the counters of its loops as keys and an edge from each loop's parent to the
loop. All stored loops are added before the first edge.
-/
def LoopStore.toDigraph (program : Program) (store : LoopStore) (forest : ForestRef)
    : Digraph LoopLabel :=
  let stored := (store.forest forest).loops.toList.map store.loop
  let labelled := stored.foldl
    (fun (result : Digraph LoopLabel) loop => result.addNode loop.counter (loop.label program))
    {}
  stored.foldl
    (fun result loop =>
      match loop.parent with
      | none => result
      | some parent => result.addEdge (store.loop parent).counter loop.counter) labelled

end LoopNest
