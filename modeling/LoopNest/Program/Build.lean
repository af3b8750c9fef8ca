import LoopNest.Fault

/-! Building programs: registering blocks, wiring edges. A refused edge is refused before
anything changes.
-/

namespace LoopNest.Program

/-- Adds an empty flow graph. -/
def addGraph (program : Program) : Program × GraphRef :=
  let ref := program.graphs.size
  ({ program with graphs := program.graphs.push {} }, ref)

/-- Adds a block that no graph has registered. -/
def addBlock (program : Program) (name : String) (id : Int) : Program × BlockRef :=
  let ref := program.blocks.size
  ({ program with blocks := program.blocks.push ⟨name, id, #[], #[]⟩ }, ref)

/-- Registers a block under an id. An id that the graph knows keeps its block and that block's
name; otherwise a new block is made and comes last in the registration order.
-/
def register (program : Program) (graph : GraphRef) (name : String) (id : Int)
    : Program × BlockRef :=
  match (program.graph graph).find? id with
  | some ref => (program, ref)
  | none =>
      let (program, ref) := program.addBlock name id
      let enlist := fun (g : FlowGraph) =>
        { g with index := g.index.insert id ref, blocks := g.blocks.push ref }
      ({ program with graphs := program.graphs.modify graph enlist }, ref)

/-- Appends a predecessor to a block, and does nothing else. -/
def addPred (program : Program) (ref pred : BlockRef) : Program :=
  { program with
    blocks := program.blocks.modify ref fun b => { b with preds := b.preds.push pred } }

/-- Appends a successor to a block, and does nothing else. -/
def addSucc (program : Program) (ref succ : BlockRef) : Program :=
  { program with
    blocks := program.blocks.modify ref fun b => { b with succs := b.succs.push succ } }

/-- Appends an existing edge to a graph's edges, and does nothing else. -/
def listEdge (program : Program) (graph : GraphRef) (edge : EdgeRef) : Program :=
  { program with
    graphs := program.graphs.modify graph fun g => { g with edges := g.edges.push edge } }

/-- Makes an edge between two blocks without asking where they are registered: both blocks learn
their new neighbour and the graph lists the edge.
-/
def wire (program : Program) (graph : GraphRef) (src dst : BlockRef) : Program × EdgeRef :=
  let edge := program.edges.size
  let wired := (program.addSucc src dst).addPred dst src
  ({ wired with edges := wired.edges.push ⟨src, dst⟩ }.listEdge graph edge, edge)

/-- Makes an edge between two blocks registered in the graph. The source is checked first. -/
def link (program : Program) (graph : GraphRef) (src dst : BlockRef)
    : Except Fault (Program × EdgeRef) :=
  if !program.isRegistered graph src then .error (.unregistered (.block src))
  else if !program.isRegistered graph dst then .error (.unregistered (.block dst))
  else .ok (program.wire graph src dst)

/-- Makes an edge between the blocks registered under two ids. The source id is looked up
first.
-/
def connect (program : Program) (graph : GraphRef) (srcId dstId : Int)
    : Except Fault (Program × EdgeRef) :=
  match (program.graph graph).find? srcId with
  | none => .error (.unknownId srcId)
  | some src =>
      match (program.graph graph).find? dstId with
      | none => .error (.unknownId dstId)
      | some dst => program.link graph src dst

end LoopNest.Program
