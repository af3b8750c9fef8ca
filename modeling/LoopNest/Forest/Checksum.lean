import LoopNest.Forest.Basic
import Std.Data.TreeMap
import Std.Data.TreeSet

/-! Checksums of loops and forests: 32-bit accumulators that the fields of a loop and then the
checksums of its children are folded into.
-/

namespace LoopNest

/-- Folds a value into an accumulator: the low 28 bits move up by one place, the value is
added, and 32 bits are kept.
-/
def absorb (acc value : Int) : Int :=
  (acc % 0x10000000 * 2 + value) % 0x100000000

/-- An accumulator is a number of 32 bits. Witness: the remainder's bounds. -/
theorem absorb_mem_range (acc value : Int)
    : 0 ≤ absorb acc value ∧ absorb acc value < 0x100000000 :=
  ⟨Int.emod_nonneg _ (by decide), Int.emod_lt_of_pos _ (by decide)⟩

/-- Folds values into an accumulator in order. -/
def absorbAll (acc : Int) (values : List Int) : Int :=
  values.foldl absorb acc

/-- The fields of a loop that its checksum depends on, after its counter: flags, levels, the
header's id if there is one, and the ids of its blocks.
-/
def Loop.fields (program : Program) (loop : Loop) : List Int :=
  [(if loop.synthetic then 1 else 0), (if loop.reducible then 1 else 0), loop.height,
      loop.depth]
    ++ loop.header.toList.map program.idOf
    ++ loop.blocks.toList.map program.idOf

/-- The checksum of a loop's own fields. -/
def Loop.ownChecksum (program : Program) (loop : Loop) : Int :=
  absorbAll loop.counter (loop.fields program)

namespace LoopStore

/-- What is left to do for a loop: look at it, or finish it once its children are done. -/
inductive Task where
  | enter (ref : LoopRef)
  | finish (ref : LoopRef)
deriving Repr, DecidableEq

/-- The steps that the loops not yet entered may still take. -/
def unmetWeight (entered : Std.TreeSet LoopRef) (loops : Array Loop) : (limit : Nat) → Nat
  | 0 => 0
  | limit + 1 =>
      (if limit ∈ entered then 0 else (loops.getD limit { counter := 0 }).children.size + 2)
        + unmetWeight entered loops limit

/-- Entering a loop never adds steps for the others. Witness: induction on the limit. -/
theorem unmetWeight_insert_le (entered : Std.TreeSet LoopRef) (loops : Array Loop)
    (ref limit : Nat)
    : unmetWeight (entered.insert ref) loops limit ≤ unmetWeight entered loops limit := by
  induction limit with
  | zero => exact Nat.le_refl _
  | succ limit ih =>
      simp only [unmetWeight, Std.TreeSet.mem_insert]
      by_cases known : limit ∈ entered
      · simpa [known] using ih
      · simp only [known, or_false, if_false]
        split <;> omega

/-- Entering a loop pays for all of its own steps. Witness: induction on the limit down to the
loop.
-/
theorem unmetWeight_insert_add_le {entered : Std.TreeSet LoopRef} {loops : Array Loop}
    {ref limit : Nat} (below : ref < limit) (fresh : ref ∉ entered)
    : unmetWeight (entered.insert ref) loops limit
        + ((loops.getD ref { counter := 0 }).children.size + 2)
      ≤ unmetWeight entered loops limit := by
  induction limit with
  | zero => omega
  | succ limit ih =>
      simp only [unmetWeight, Std.TreeSet.mem_insert]
      by_cases same : ref = limit
      · subst same
        have rest := unmetWeight_insert_le entered loops ref ref
        simp [fresh]
        omega
      · have rest := ih (by omega)
        have differs : compare ref limit ≠ .eq := by
          simpa using same
        simp only [differs, false_or]
        split <;> omega

/-- Folds the known checksums of children into an accumulator; `none` if one is missing. -/
def absorbChildren (sums : Std.TreeMap LoopRef Int) (acc : Int) : List LoopRef → Option Int
  | [] => some acc
  | child :: rest =>
      match sums[child]? with
      | none => none
      | some sum => absorbChildren sums (absorb acc sum) rest

/-- Works through the tasks. A loop whose checksum is known is passed over; any other is entered:
its children come first, then it is finished. There is no result when a loop is met again before
it is finished, which takes a circle of children.
-/
def runTasks (program : Program) (store : LoopStore) (entered : Std.TreeSet LoopRef)
    (sums : Std.TreeMap LoopRef Int) : List Task → Option (Std.TreeMap LoopRef Int)
  | [] => some sums
  | .finish ref :: rest =>
      let loop := store.loop ref
      match absorbChildren sums (loop.ownChecksum program) loop.children.toList with
      | none => none
      | some sum => runTasks program store entered (sums.insert ref sum) rest
  | .enter ref :: rest =>
      if ref ∈ sums then
        runTasks program store entered sums rest
      else if ref ∈ entered ∨ store.loops.size ≤ ref then none
      else
        runTasks program store (entered.insert ref) sums
          ((store.loop ref).children.toList.map Task.enter ++ Task.finish ref :: rest)
termination_by tasks => unmetWeight entered store.loops store.loops.size + tasks.length
decreasing_by
  · simp only [List.length_cons]
    omega
  · simp only [List.length_cons]
    omega
  · rename_i _ unmet
    have below : ref < store.loops.size := Nat.lt_of_not_le fun h => unmet (.inr h)
    have fresh : ref ∉ entered := fun h => unmet (.inl h)
    have paid : _ ≤ unmetWeight entered store.loops store.loops.size :=
      unmetWeight_insert_add_le below fresh
    simp only [loop, List.length_append, List.length_map, Array.length_toList,
      List.length_cons]
    omega

/-- The checksums of all loops that the given ones reach through children. -/
def checksums? (program : Program) (store : LoopStore) (refs : List LoopRef)
    : Option (Std.TreeMap LoopRef Int) :=
  store.runTasks program ∅ ∅ (refs.map Task.enter)

/-- The checksum of one loop. -/
def checksum? (program : Program) (store : LoopStore) (ref : LoopRef) : Option Int := do
  let sums ← store.checksums? program [ref]
  sums[ref]?

/-- The checksum of a forest: the number of its stored loops, then their checksums in order,
then the root's once more.
-/
def forestChecksum? (program : Program) (store : LoopStore) (forest : ForestRef)
    : Option Int := do
  let whole := store.forest forest
  let sums ← store.checksums? program whole.loops.toList
  let total ← absorbChildren sums whole.loops.size whole.loops.toList
  let root ← sums[whole.root]?
  return absorb total root

end LoopStore

end LoopNest
