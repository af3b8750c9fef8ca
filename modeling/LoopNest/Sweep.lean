import LoopNest.Numbering
import LoopNest.Partition
import Std.Data.TreeSet

/-! The sweep over a numbering that finds loops: numbers are visited from the last to the first,
and each target of back edges gathers its loop by chasing the other edges upwards.
-/

namespace LoopNest

/-- A part of a loop besides its header: a block by its number, or a loop found earlier in the
sweep by its position.
-/
inductive Part where
  | block (number : Nat)
  | loop (index : Nat)
deriving Repr, DecidableEq, Inhabited

/-- A loop as the sweep finds it: the number of its header, its other parts in the order they
were gathered, and whether the header is the only way in. A part that is the source of several
back edges occurs once for each.
-/
structure Region where
  header : Nat
  parts : List Part
  reducible : Bool
deriving Repr, DecidableEq, Inhabited

/-- Why a sweep stops before its end. -/
inductive Halt where
  /-- More than the allowed number of non-back edges lead to the collapsed node of this
  number. -/
  | overload (number fanIn : Nat)
  /-- A lookup failed. -/
  | fault (cause : Fault)
deriving Repr, DecidableEq, Inhabited

/-- The state between two visits. -/
structure Sweep where
  /-- For each number the sources of its back edges. -/
  latches : Array (List Nat) := #[]
  /-- For each number the sources of the other edges into it; for the header of an irreducible
  loop also those into its body from outside. -/
  entries : Array (List Nat) := #[]
  /-- Every number with the header of the outermost loop around it as representative. -/
  sets : Partition := {}
  /-- For each number the position of the loop that it heads. -/
  headed : Array (Option Nat) := #[]
  /-- The loops found so far. -/
  regions : Array Region := #[]
deriving Repr, DecidableEq, Inhabited

------------------------------------------------------------------------------------------
-- The chase from the sources of back edges
------------------------------------------------------------------------------------------

/-- The state of gathering one loop. -/
structure Chase where
  sets : Partition
  /-- The gathered representatives. Those at the front were taken up already. -/
  pool : Array Nat := #[]
  /-- The same representatives as a set. -/
  pooled : Std.TreeSet Nat := ∅
  /-- The representatives met outside the header's subtree, in the order they were met. -/
  outside : Array Nat := #[]

namespace Chase

/-- Gathers the representatives of the sources of back edges, repeated ones too. -/
def seed (chase : Chase) : List Nat → Except Halt Chase
  | [] => .ok chase
  | source :: rest =>
      match chase.sets.find? source with
      | none => .error (.fault .outOfRange)
      | some (top, sets) =>
          seed { chase with
            sets
            pool := chase.pool.push top
            pooled := chase.pooled.insert top } rest

/-- Looks at the sources of the non-back edges into one gathered node. A representative that
is no descendant of the header is a way in from outside; any other joins the pool once, the
header itself never.
-/
def scan (numbering : Numbering) (header : Nat) (chase : Chase) : List Nat → Except Halt Chase
  | [] => .ok chase
  | source :: rest =>
      match chase.sets.find? source with
      | none => .error (.fault .outOfRange)
      | some (top, sets) =>
          match numbering.inSubtree header top with
          | .error cause => .error (.fault cause)
          | .ok false =>
              scan numbering header
                { chase with sets, outside := chase.outside.push top } rest
          | .ok true =>
              if top ≠ header ∧ top ∉ chase.pooled then
                scan numbering header
                  { chase with
                    sets
                    pool := chase.pool.push top
                    pooled := chase.pooled.insert top } rest
              else
                scan numbering header { chase with sets } rest

------------------------------------------------------------------------------------------
-- The chase ends: the pool only takes numbers of the header's subtree, each once
------------------------------------------------------------------------------------------

/-- How many numbers below a limit are not in the set. -/
def free (pooled : Std.TreeSet Nat) : (limit : Nat) → Nat
  | 0 => 0
  | limit + 1 => (if limit ∈ pooled then 0 else 1) + free pooled limit

/-- Pooling a number leaves no more numbers free. Witness: induction on the limit. -/
theorem free_insert_le (pooled : Std.TreeSet Nat) (x limit : Nat)
    : free (pooled.insert x) limit ≤ free pooled limit := by
  induction limit with
  | zero => exact Nat.le_refl _
  | succ limit ih =>
      simp only [free, Std.TreeSet.mem_insert]
      by_cases known : limit ∈ pooled
      · simpa [known] using ih
      · simp only [known, or_false, if_false]
        split <;> omega

/-- Pooling a new number below the limit leaves one number fewer free. Witness: induction on
the limit down to that number.
-/
theorem free_insert_lt {pooled : Std.TreeSet Nat} {x limit : Nat} (below : x < limit)
    (fresh : x ∉ pooled)
    : free (pooled.insert x) limit < free pooled limit := by
  induction limit with
  | zero => omega
  | succ limit ih =>
      simp only [free, Std.TreeSet.mem_insert]
      by_cases same : x = limit
      · subst same
        have rest := free_insert_le pooled x x
        simp [fresh]
        omega
      · have rest := ih (by omega)
        have differs : compare x limit ≠ .eq := by
          simpa using same
        simp only [differs, false_or]
        split <;> omega

/-- A scan only adds to the pool, and what it adds was free before. Witness: induction on the
sources, the pooled case by `free_insert_lt`.
-/
theorem scan_pool {numbering : Numbering} {header : Nat} {sources : List Nat}
    {before after : Chase} (scanned : before.scan numbering header sources = .ok after)
    : before.pool.size ≤ after.pool.size
      ∧ after.pool.size + free after.pooled (numbering.last.getD header 0 + 1)
        ≤ before.pool.size + free before.pooled (numbering.last.getD header 0 + 1) := by
  induction sources generalizing before with
  | nil =>
      cases scanned
      exact ⟨Nat.le_refl _, Nat.le_refl _⟩
  | cons source rest ih =>
      rw [scan] at scanned
      split at scanned
      · cases scanned
      · rename_i top sets _
        split at scanned
        · cases scanned
        · obtain ⟨grown, budget⟩ := ih scanned
          exact ⟨grown, budget⟩
        · rename_i inside
          split at scanned
          · rename_i joins
            have below := Numbering.le_last_of_inSubtree inside
            have reach : top < numbering.last.getD header 0 + 1 := Nat.lt_succ_of_le below
            have paid := free_insert_lt reach joins.2
            obtain ⟨grown, budget⟩ := ih scanned
            simp only [Array.size_push] at grown budget
            exact ⟨by omega, by omega⟩
          · obtain ⟨grown, budget⟩ := ih scanned
            exact ⟨grown, budget⟩

/-- Takes up the gathered nodes in order from a position on, and scans the sources of the
non-back edges into each. A node with more such sources than the bound stops the chase.
-/
def run (numbering : Numbering) (bound : Int) (entries : Array (List Nat)) (header : Nat)
    (chase : Chase) (position : Nat) : Except Halt Chase :=
  if _more : position < chase.pool.size then
    let node := chase.pool[position]
    match entries[node]? with
    | none => .error (.fault .outOfRange)
    | some sources =>
        if bound < sources.length then .error (.overload node sources.length)
        else
          match _scanned : chase.scan numbering header sources with
          | .error halt => .error halt
          | .ok next => run numbering bound entries header next (position + 1)
  else .ok chase
termination_by
  (chase.pool.size - position) + free chase.pooled (numbering.last.getD header 0 + 1)
decreasing_by
  obtain ⟨grown, budget⟩ := scan_pool _scanned
  omega

end Chase

------------------------------------------------------------------------------------------
-- Visits
------------------------------------------------------------------------------------------

namespace Sweep

/-- Splits the sources of the edges into a block: back edges come from its descendants. -/
def split (numbering : Numbering) (number : Nat) (latches entries : Array Nat)
    : List Nat → Except Fault (List Nat × List Nat)
  | [] => .ok (latches.toList, entries.toList)
  | source :: rest =>
      match numbering.inSubtree number source with
      | .error cause => .error cause
      | .ok true => split numbering number (latches.push source) entries rest
      | .ok false => split numbering number latches (entries.push source) rest

/-- The numbers of the reached predecessors of the block with the given number, one for each
edge.
-/
def sources (program : Program) (numbering : Numbering) (number : Nat) : List Nat :=
  (program.block (numbering.order.getD number 0)).preds.toList.filterMap fun ref =>
    numbering.number? (program.idOf ref)

/-- The state before the first visit: edges are split, every number stands for itself, and no
loop is known.
-/
def start (program : Program) (numbering : Numbering) : Except Fault Sweep := do
  let rows ← (List.range numbering.size).mapM fun number =>
    split numbering number #[] #[] (sources program numbering number)
  return {
    latches := (rows.map Prod.fst).toArray
    entries := (rows.map Prod.snd).toArray
    sets := .singletons numbering.size
    headed := Array.replicate numbering.size none }

/-- What a gathered node adds to a loop: the loop that it heads, or else its block. -/
def part (sweep : Sweep) (node : Nat) : Part :=
  match sweep.headed.getD node none with
  | some index => .loop index
  | none => .block node

/-- Records the loop that was gathered for a header and collapses it into the header. Ways in
from outside become ways into the header.
-/
def collapse (sweep : Sweep) (header : Nat) (chase : Chase) : Sweep :=
  let region : Region :=
    { header
      parts := chase.pool.toList.map sweep.part
      reducible := chase.outside.isEmpty }
  { sweep with
    entries := sweep.entries.modify header (· ++ chase.outside.toList)
    sets := chase.sets.relink chase.pool.toList header
    headed := sweep.headed.setIfInBounds header (some sweep.regions.size)
    regions := sweep.regions.push region }

/-- Gathers the loop that a number heads; there is none unless back edges lead to the number.
An edge from the block to itself makes a loop and gathers nothing.
-/
def gather (numbering : Numbering) (bound : Int) (sweep : Sweep) (number : Nat)
    : Except Halt (Option Chase) :=
  match sweep.latches[number]? with
  | none => .error (.fault .outOfRange)
  | some [] => .ok none
  | some latches => do
      let seeded ← Chase.seed { sets := sweep.sets } (latches.filter (· ≠ number))
      let chase ← seeded.run numbering bound sweep.entries number 0
      return some chase

/-- Visits numbers in the given order: each one that heads a loop is collapsed with it. A visit
that halts leaves the state before it.
-/
def visitAll (numbering : Numbering) (bound : Int) : List Nat → Sweep → Sweep × Option Halt
  | [], sweep => (sweep, none)
  | number :: rest, sweep =>
      match sweep.gather numbering bound number with
      | .error halt => (sweep, some halt)
      | .ok none => visitAll numbering bound rest sweep
      | .ok (some chase) => visitAll numbering bound rest (sweep.collapse number chase)

/-- Visits all numbers from the last to the first. -/
def run (numbering : Numbering) (bound : Int) (sweep : Sweep) : Sweep × Option Halt :=
  visitAll numbering bound (List.range numbering.size).reverse sweep

end Sweep

end LoopNest
