import LoopNest.Forest.Basic
import LoopNest.Sweep

/-! Finders: an analysis of one flow graph that records the loops it finds in one forest. -/

namespace LoopNest

/-- A finder: what it analyses, where it records, how many non-back edges it accepts into one
node, and the block at which its last run gave up.
-/
structure Finder where
  graph : GraphRef
  forest : ForestRef
  bound : Int := 32768
  stoppedAt : Option BlockRef := none
deriving Repr, DecidableEq, Inhabited

/-- What a run reports while it works. -/
inductive Event where
  /-- So many blocks were numbered from the start block. -/
  | numbered (count : Nat) (start : BlockRef)
  /-- The run ended: loops in the forest besides the root, reached blocks, registered blocks. -/
  | found (loops reached registered : Nat)
  /-- The run gave up at a block whose fan-in exceeds the bound. -/
  | gaveUp (block : BlockRef) (fanIn : Nat) (bound : Int)
deriving Repr, DecidableEq, Inhabited

/-- The message of an event. -/
def Program.describeEvent (program : Program) : Event → String
  | .numbered count start =>
      "numbered " ++ toString count ++ " blocks from " ++ program.describeBlock start
  | .found loops reached registered =>
      "found " ++ toString loops ++ " loops in " ++ toString reached ++ " reachable of "
        ++ toString registered ++ " blocks"
  | .gaveUp block fanIn bound =>
      "loop analysis aborted at " ++ program.describeBlock block ++ ": " ++ toString fanIn
        ++ " non-backedge predecessors exceed " ++ toString bound

/-- What a run leaves: the loops, the finder with its new status, the number of loops in the
forest or the fault that ended the run, and the events in order.
-/
structure Run where
  store : LoopStore
  finder : Finder
  outcome : Except Fault Nat
  log : List Event

namespace LoopStore

/-- Adds one part to a recorded loop. Loops found by the same sweep stand from `base` on. -/
def recordPart (order : Array BlockRef) (base : Nat) (ref : LoopRef) (store : LoopStore)
    : Part → LoopStore
  | .block number => store.addMember ref (order.getD number 0)
  | .loop index => store.nest (base + index) ref

/-- Records a loop found by a sweep at the end of a forest. -/
def recordRegion (order : Array BlockRef) (base : Nat) (forest : ForestRef)
    (store : LoopStore) (region : Region) : LoopStore :=
  let (created, ref) := store.newLoop forest
  let headed := (created.headBy ref (order.getD region.header 0)).update ref fun loop =>
    { loop with reducible := region.reducible }
  let filled := region.parts.foldl (recordPart order base ref) headed
  filled.storeLoop forest ref

/-- Records all loops found by a sweep, in the order they were found. -/
def record (store : LoopStore) (forest : ForestRef) (numbering : Numbering)
    (regions : Array Region) : LoopStore :=
  regions.toList.foldl (recordRegion numbering.order store.loops.size forest) store

end LoopStore

namespace Finder

/-- Whether the last run gave up. -/
def stopped (finder : Finder) : Bool :=
  finder.stoppedAt.isSome

/-- Runs the analysis. A graph without start block has nothing to find. A numbering that
outgrows the registered blocks is a fault and records nothing. A run that gives up keeps the
loops found until then and counts none.
-/
def run (program : Program) (store : LoopStore) (finder : Finder) : Run :=
  let ready := { finder with stoppedAt := none }
  let graph := program.graph finder.graph
  match graph.start? with
  | none => ⟨store, ready, .ok 0, []⟩
  | some start =>
      let numbering := program.number start
      let numbered := Event.numbered numbering.size start
      if graph.size < numbering.size then ⟨store, ready, .error .outOfRange, [numbered]⟩
      else
        match Sweep.start program numbering with
        | .error cause => ⟨store, ready, .error cause, [numbered]⟩
        | .ok sweep =>
            let (swept, halt) := sweep.run numbering finder.bound
            let recorded := store.record finder.forest numbering swept.regions
            match halt with
            | some (.fault cause) => ⟨recorded, ready, .error cause, [numbered]⟩
            | some (.overload number fanIn) =>
                let block := numbering.order.getD number 0
                ⟨recorded.graftAll finder.forest, { ready with stoppedAt := some block },
                  .ok 0, [numbered, .gaveUp block fanIn finder.bound]⟩
            | none =>
                let rooted := recorded.graftAll finder.forest
                let count := (rooted.forest finder.forest).loops.size
                ⟨rooted, ready, .ok count,
                  [numbered, .found (count - 1) numbering.size graph.size]⟩

end Finder

end LoopNest
