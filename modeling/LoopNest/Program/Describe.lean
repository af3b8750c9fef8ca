import LoopNest.Fault
import LoopNest.Text.Quoted

/-! The words in which blocks, edges, graphs and faults are reported. -/

namespace LoopNest

/-- A block is reported by its quoted name and its id. -/
def Block.describe (block : Block) : String :=
  "BasicBlock(" ++ Text.quoted block.name ++ ", " ++ toString block.id ++ ")"

/-- A graph is reported by the numbers of its blocks and edges. -/
def FlowGraph.describe (graph : FlowGraph) : String :=
  "CFG(" ++ toString graph.size ++ " nodes, " ++ toString graph.edges.size ++ " edges)"

namespace Program

/-- The words for the block behind a reference. -/
def describeBlock (program : Program) (ref : BlockRef) : String :=
  (program.block ref).describe

/-- The words for a block that may be missing. -/
def describeBlock? (program : Program) : Option BlockRef → String
  | some ref => program.describeBlock ref
  | none => "None"

/-- An edge is reported by the ids of its ends. -/
def describeEdge (program : Program) (ref : EdgeRef) : String :=
  let edge := program.edge ref
  "BasicBlockEdge(" ++ toString (program.idOf edge.src) ++ " -> "
    ++ toString (program.idOf edge.dst) ++ ")"

/-- The words for what a fault is about. -/
def describeSubject (program : Program) : Subject → String
  | .block ref => program.describeBlock ref
  | .id id => toString id

/-- The message of a fault. -/
def describeFault (program : Program) : Fault → String
  | .unknownId id => "no block with id " ++ toString id ++ " in this CFG"
  | .unregistered subject =>
      "block " ++ program.describeSubject subject ++ " is not registered in this CFG"
  | .refused _ reason => reason
  | .outOfRange => "list index out of range"
  | .tooWide => "cannot fit 'int' into an index-sized integer"

end Program

end LoopNest
