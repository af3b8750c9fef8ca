import LoopNest.Fault
import Std.Data.TreeMap

/-! Depth-first numbering: preorder numbers of the blocks that can be reached from a start
block, and for each number the last number of its subtree. The subtree of a number is the range
from that number to its last one.
-/

namespace LoopNest

/-- A preorder numbering. Blocks are told apart by their ids: of several blocks with one id
only the first that is met gets a number.
-/
structure Numbering where
  /-- The number of each id that was reached. -/
  numbers : Std.TreeMap Int Nat := ∅
  /-- The reached blocks by number. -/
  order : Array BlockRef := #[]
  /-- For each number the largest number in the subtree below it. -/
  last : Array Nat := #[]

namespace Numbering

/-- How many blocks have a number. -/
def size (numbering : Numbering) : Nat :=
  numbering.order.size

/-- The number given to an id, if it was reached. -/
def number? (numbering : Numbering) (id : Int) : Option Nat :=
  numbering.numbers[id]?

/-- Gives the next number to a block. Until its subtree is done, it is its own last
descendant.
-/
def enter (numbering : Numbering) (ref : BlockRef) (id : Int) : Numbering :=
  let number := numbering.size
  { numbers := numbering.numbers.insert id number
    order := numbering.order.push ref
    last := numbering.last.push number }

/-- Closes the subtree of a number: the newest number is the last one in it. -/
def close (numbering : Numbering) (number : Nat) : Numbering :=
  let newest := numbering.size - 1
  { numbering with last := numbering.last.setIfInBounds number newest }

@[simp]
theorem size_enter (numbering : Numbering) (ref : BlockRef) (id : Int)
    : (numbering.enter ref id).size = numbering.size + 1 := by
  simp [enter, size]

@[simp]
theorem size_close (numbering : Numbering) (number : Nat)
    : (numbering.close number).size = numbering.size :=
  rfl

/-- Entering a block numbers its id, and leaves the other ids as they are. -/
theorem number?_enter (numbering : Numbering) (ref : BlockRef) (id other : Int)
    : (numbering.enter ref id).number? other
      = if id = other then some numbering.size else numbering.number? other := by
  simp [enter, number?, size, Std.TreeMap.getElem?_insert]

/-- An open block of the search: its number, and the successors not yet looked at. -/
structure Frame where
  number : Nat
  pending : List BlockRef
deriving Repr, DecidableEq

/-- The steps that a frame still takes: one for each pending successor and one to close. -/
def Frame.weight (frame : Frame) : Nat :=
  frame.pending.length + 1

/-- The steps that all open frames still take. -/
def openWeight : List Frame → Nat
  | [] => 0
  | frame :: rest => frame.weight + openWeight rest

/-- The steps that the blocks without a number may still take. -/
def unmetWeight (numbering : Numbering) : List Block → Nat
  | [] => 0
  | b :: rest =>
      (if b.id ∈ numbering.numbers then 0 else b.succs.size + 2)
        + unmetWeight numbering rest

/-- Numbering a block never adds steps for the blocks without a number, since it numbers no
fewer ids. Witness: list induction.
-/
theorem unmetWeight_enter_le (numbering : Numbering) (ref : BlockRef) (id : Int)
    (blocks : List Block)
    : unmetWeight (numbering.enter ref id) blocks ≤ unmetWeight numbering blocks := by
  induction blocks with
  | nil => exact Nat.le_refl _
  | cons b rest ih =>
      simp only [unmetWeight, enter, Std.TreeMap.mem_insert]
      by_cases known : b.id ∈ numbering.numbers
      · simp [known]; exact ih
      · by_cases same : compare id b.id = .eq
        · simp [same]; simp only [enter] at ih; omega
        · simp [known, same]; exact ih

/-- Numbering a block pays for all of that block's steps. Witness: list induction up to the
block.
-/
theorem unmetWeight_enter_add_le (numbering : Numbering) (ref : BlockRef) {b : Block}
    {blocks : List Block} (member : b ∈ blocks) (fresh : b.id ∉ numbering.numbers)
    : unmetWeight (numbering.enter ref b.id) blocks + (b.succs.size + 2)
      ≤ unmetWeight numbering blocks := by
  induction blocks with
  | nil => simp at member
  | cons head rest ih =>
      rcases List.mem_cons.mp member with rfl | later
      · have tail := unmetWeight_enter_le numbering ref b.id rest
        simp only [unmetWeight, fresh, if_false]
        have known : b.id ∈ (numbering.enter ref b.id).numbers := by
          simp [enter]
        simp only [known, if_true]
        omega
      · have tail := ih later
        simp only [unmetWeight]
        have head_le : (if head.id ∈ (numbering.enter ref b.id).numbers then 0
              else head.succs.size + 2)
            ≤ (if head.id ∈ numbering.numbers then 0 else head.succs.size + 2) := by
          by_cases known : head.id ∈ numbering.numbers
          · have still : head.id ∈ (numbering.enter ref b.id).numbers := by
              simp [enter, known]
            simp [still]
          · simp only [known, if_false]
            split <;> omega
        omega

/-- Runs the search from its open blocks, innermost first. Each pending successor whose id has
no number yet is numbered and opened; a block without pending successors is closed.
-/
def search (program : Program) (numbering : Numbering) : List Frame → Numbering
  | [] => numbering
  | ⟨number, []⟩ :: rest => search program (numbering.close number) rest
  | ⟨number, next :: pending⟩ :: rest =>
      match _found : program.blocks[next]? with
      | none => search program numbering (⟨number, pending⟩ :: rest)
      | some b =>
          if b.id ∈ numbering.numbers then
            search program numbering (⟨number, pending⟩ :: rest)
          else
            let opened : Frame := ⟨numbering.size, b.succs.toList⟩
            search program (numbering.enter next b.id) (opened :: ⟨number, pending⟩ :: rest)
termination_by frames =>
  unmetWeight numbering program.blocks.toList + openWeight frames
decreasing_by
  · have same : unmetWeight (numbering.close number) program.blocks.toList
        = unmetWeight numbering program.blocks.toList := by
      induction program.blocks.toList with
      | nil => rfl
      | cons b tail ih => simp only [unmetWeight, ih]; rfl
    simp only [openWeight, Frame.weight, same]
    omega
  · simp only [openWeight, Frame.weight, List.length_cons]
    omega
  · simp only [openWeight, Frame.weight, List.length_cons]
    omega
  · have member : b ∈ program.blocks.toList := by
      rw [Array.mem_toList_iff]
      exact Array.mem_of_getElem? _found
    have paid := unmetWeight_enter_add_le numbering next member ‹_›
    simp only [openWeight, Frame.weight, List.length_cons,
      Array.length_toList]
    omega

end Numbering

/-- Numbers every block that can be reached from the start block, following successors in
stored order.
-/
def Program.number (program : Program) (start : BlockRef) : Numbering :=
  match program.blocks[start]? with
  | none => {}
  | some b => Numbering.search program (({} : Numbering).enter start b.id) [⟨0, b.succs.toList⟩]

namespace Numbering

/-- The last number below a number. Negative numbers count from the end, so that -1 is the
newest one.
-/
def lastBelow (numbering : Numbering) (number : Int) : Except Fault Nat :=
  let index := if number < 0 then number + numbering.last.size else number
  if index < 0 then .error (.ofIndex number)
  else
    match numbering.last[index.toNat]? with
    | some last => .ok last
    | none => .error (.ofIndex number)

/-- Whether a number lies in the subtree of the top number, which itself does. The last number
below the top is asked for only if the top is not the larger of the two.
-/
def inSubtree (numbering : Numbering) (top number : Int) : Except Fault Bool :=
  if top ≤ number then do
    let last ← numbering.lastBelow top
    return decide (number ≤ last)
  else
    return false

/-- A subtree holds no number beyond the last one below its top. Witness: unfolding the lookup
at a top that is not negative.
-/
theorem le_last_of_inSubtree {numbering : Numbering} {top number : Nat}
    (inside : numbering.inSubtree top number = .ok true)
    : number ≤ numbering.last.getD top 0 := by
  unfold inSubtree lastBelow at inside
  split at inside
  · simp only [show ¬ ((top : Int) < 0) by omega, if_false, Int.toNat_natCast] at inside
    cases found : numbering.last[top]? with
    | none => simp [found, bind, Except.bind] at inside
    | some last =>
        simp [found, bind, Except.bind, pure, Except.pure] at inside
        simp [Array.getD_eq_getD_getElem?, found]
        omega
  · cases inside

end Numbering

end LoopNest
