import Std.Data.TreeMap

/-! Programs under analysis: basic blocks, the edges between them, and the flow graphs that
register them.
-/

namespace LoopNest

/-- A block is named by its position in the program's table of blocks. -/
abbrev BlockRef := Nat

/-- An edge is named by its position in the program's table of edges. -/
abbrev EdgeRef := Nat

/-- A flow graph is named by its position in the program's table of graphs. -/
abbrev GraphRef := Nat

/-- A basic block: its label, its id, and its neighbours in the order the edges were made. A
neighbour occurs once for each edge.
-/
structure Block where
  name : String
  id : Int
  preds : Array BlockRef := #[]
  succs : Array BlockRef := #[]
deriving Repr, DecidableEq, Inhabited

/-- A directed edge between two blocks. -/
structure Edge where
  src : BlockRef
  dst : BlockRef
deriving Repr, DecidableEq, Inhabited

/-- A flow graph: the blocks it registered, and its edges in the order they were added. -/
structure FlowGraph where
  /-- The block registered under each id. -/
  index : Std.TreeMap Int BlockRef := ∅
  /-- The registered blocks in registration order. -/
  blocks : Array BlockRef := #[]
  edges : Array EdgeRef := #[]
deriving Inhabited

/-- All blocks, edges and flow graphs made so far. Blocks may stand in several graphs' edges or
in none, and two blocks may carry one id.
-/
structure Program where
  blocks : Array Block := #[]
  edges : Array Edge := #[]
  graphs : Array FlowGraph := #[]
deriving Inhabited

namespace FlowGraph

/-- The block registered under the id. -/
def find? (graph : FlowGraph) (id : Int) : Option BlockRef :=
  graph.index[id]?

/-- Whether some block is registered under the id. -/
def contains (graph : FlowGraph) (id : Int) : Bool :=
  (graph.find? id).isSome

/-- The number of registered blocks. -/
def size (graph : FlowGraph) : Nat :=
  graph.blocks.size

/-- The entry of the graph: the first block ever registered, whatever its id. -/
def start? (graph : FlowGraph) : Option BlockRef :=
  graph.blocks[0]?

end FlowGraph

namespace Program

/-- The block behind a reference; an unused reference reads as an unnamed block of id zero
without neighbours.
-/
def block (program : Program) (ref : BlockRef) : Block :=
  program.blocks.getD ref ⟨"", 0, #[], #[]⟩

/-- The edge behind a reference; an unused reference reads as an edge from the first block to
itself.
-/
def edge (program : Program) (ref : EdgeRef) : Edge :=
  program.edges.getD ref ⟨0, 0⟩

/-- The flow graph behind a reference; an unused reference reads as an empty graph. -/
def graph (program : Program) (ref : GraphRef) : FlowGraph :=
  program.graphs.getD ref {}

/-- The id that the block carries. -/
def idOf (program : Program) (ref : BlockRef) : Int :=
  (program.block ref).id

/-- A block is registered in a graph when it is the very block that the graph keeps under the
block's id.
-/
def isRegistered (program : Program) (graph : GraphRef) (ref : BlockRef) : Bool :=
  (program.graph graph).find? (program.idOf ref) == some ref

end Program

end LoopNest
