import LoopNest.Program.Basic

/-! The ways an operation can fail, told by their causes. -/

namespace LoopNest

/-- What a refused edge was about: a block, or an id under which no block was found. -/
inductive Subject where
  | block (ref : BlockRef)
  | id (id : Int)
deriving Repr, DecidableEq, Inhabited

/-- Why an operation failed. -/
inductive Fault where
  /-- An edge was asked for between ids, and no block is registered under this one. -/
  | unknownId (id : Int)
  /-- The subject is not registered in the graph at hand. -/
  | unregistered (subject : Subject)
  /-- The subject was refused with words of the caller's own. -/
  | refused (subject : Subject) (reason : String)
  /-- A number does not index the sequence that it is used on. -/
  | outOfRange
  /-- A number is too wide to index any sequence: it does not fit a signed 64-bit word. -/
  | tooWide
deriving Repr, DecidableEq, Inhabited

/-- The block or id that a fault is about, if it is about one. -/
def Fault.subject? : Fault → Option Subject
  | .unknownId id => some (.id id)
  | .unregistered subject => some subject
  | .refused subject _ => some subject
  | .outOfRange | .tooWide => none

/-- Why a number indexes nothing: no sequence has an index that wide, or this one is too
short.
-/
def Fault.ofIndex (index : Int) : Fault :=
  if -0x8000000000000000 ≤ index ∧ index < 0x8000000000000000 then .outOfRange else .tooWide

end LoopNest
