import LoopNest.Finder
import LoopNest.Forest.Checksum
import LoopNest.Forest.Levels
import LoopNest.Program.Build

/-! Workspaces: everything that was made in one session, each kind in its own table. -/

namespace LoopNest

/-- A numbering is named by its position in the workspace. -/
abbrev NumberingRef := Nat

/-- A finder is named by its position in the workspace. -/
abbrev FinderRef := Nat

/-- A cell is named by its element in the partition of cells. -/
abbrev CellRef := Nat

/-- What an element of the partition stands for: a block, its number, and the loop it heads. -/
structure Cell where
  block : Option BlockRef := none
  number : Int := 0
  loop : Option LoopRef := none
deriving Repr, DecidableEq, Inhabited

/-- A workspace. -/
structure Workspace where
  program : Program := {}
  numberings : Array Numbering := #[]
  store : LoopStore := {}
  finders : Array Finder := #[]
  sets : Partition := {}
  cells : Array Cell := #[]

namespace Workspace

/-- Numbers the blocks from a start block, keeps the numbering and reports it. -/
def addNumbering (space : Workspace) (start : BlockRef)
    : Workspace × NumberingRef × Event :=
  let numbering := space.program.number start
  ({ space with numberings := space.numberings.push numbering }, space.numberings.size,
    .numbered numbering.size start)

/-- The numbering behind a reference; an unused reference reads as an empty numbering. -/
def numbering (space : Workspace) (ref : NumberingRef) : Numbering :=
  space.numberings.getD ref {}

/-- Keeps a finder that has not run. -/
def addFinder (space : Workspace) (finder : Finder) : Workspace × FinderRef :=
  ({ space with finders := space.finders.push finder }, space.finders.size)

/-- The finder behind a reference; an unused reference reads as one of the first graph and the
first forest.
-/
def finder (space : Workspace) (ref : FinderRef) : Finder :=
  space.finders.getD ref { graph := 0, forest := 0 }

/-- Points a finder at another graph and another forest. Its status stays. -/
def rebind (space : Workspace) (ref : FinderRef) (graph : GraphRef) (forest : ForestRef)
    : Workspace :=
  { space with finders := space.finders.modify ref fun f => { f with graph, forest } }

/-- Runs a finder of the workspace. -/
def runFinder (space : Workspace) (ref : FinderRef) : Workspace × Run :=
  let run := (space.finder ref).run space.program space.store
  ({ space with
      store := run.store
      finders := space.finders.setIfInBounds ref run.finder }, run)

/-- Finds the loops of a graph with a finder of the usual bound that is not kept. -/
def analyze (space : Workspace) (graph : GraphRef) (forest : ForestRef)
    : Workspace × Run :=
  let run := ({ graph, forest } : Finder).run space.program space.store
  ({ space with store := run.store }, run)

/-- The cell behind a reference; an unused reference reads as an unbound cell. -/
def cell (space : Workspace) (ref : CellRef) : Cell :=
  space.cells.getD ref {}

/-- Adds an unbound cell in a set of its own. -/
def addCell (space : Workspace) : Workspace × CellRef :=
  ({ space with sets := space.sets.push, cells := space.cells.push {} }, space.cells.size)

/-- Binds a cell to a block and a number and makes it its own representative. -/
def bindCell (space : Workspace) (ref : CellRef) (block : Option BlockRef) (number : Int)
    : Workspace :=
  { space with
    sets := space.sets.union ref ref
    cells := space.cells.modify ref fun cell => { cell with block, number } }

/-- Finds the representative of a cell and shortens the links to it. -/
def findCell (space : Workspace) (ref : CellRef) : Workspace × CellRef :=
  let (top, sets) := space.sets.find ref
  ({ space with sets }, top)

/-- Links a cell to another. -/
def uniteCells (space : Workspace) (ref target : CellRef) : Workspace :=
  { space with sets := space.sets.union ref target }

/-- Notes the loop that a cell's block heads. -/
def setCellLoop (space : Workspace) (ref : CellRef) (loop : Option LoopRef) : Workspace :=
  { space with cells := space.cells.modify ref fun cell => { cell with loop } }

/-- A cell is reported by its block and its number. -/
def describeCell (space : Workspace) (ref : CellRef) : String :=
  let cell := space.cell ref
  "UnionFindNode(" ++ space.program.describeBlock? cell.block ++ ", dfs="
    ++ toString cell.number ++ ")"

end Workspace

end LoopNest
