import LoopNest.Proofs.Recursion
import LoopNest.Proofs.Traversal.Basic

/-! The search with open frames is the recursive exploration: each pending block without a
number gets the next one, is explored with all its successors, and is closed. From this follow
the subtree ranges of every numbering.
-/

namespace LoopNest.Numbering

variable {program : Program} {before after : Numbering} {pending : List BlockRef}

/-- Exploring pending blocks in order takes one numbering to another. -/
inductive Explores (program : Program) : Numbering → List BlockRef → Numbering → Prop
  | done (numbering : Numbering) : Explores program numbering [] numbering
  | skip {numbering after : Numbering} {next : BlockRef} {rest : List BlockRef}
    (met : ∀ b, program.blocks[next]? = some b → b.id ∈ numbering.numbers)
    (onward : Explores program numbering rest after)
    : Explores program numbering (next :: rest) after
  | visit {numbering inner after : Numbering} {next : BlockRef} {rest : List BlockRef}
    {b : Block} (found : program.blocks[next]? = some b) (fresh : b.id ∉ numbering.numbers)
    (inside : Explores program (numbering.enter next b.id) b.succs.toList inner)
    (onward : Explores program (inner.close numbering.size) rest after)
    : Explores program numbering (next :: rest) after

/-- A frame of the search explores its pending blocks and is closed then. Witness: induction on
the exploration; a visited block opens a frame that is explored first.
-/
theorem Explores.search_eq (explores : Explores program before pending after) (number : Nat)
    (frames : List Frame)
    : search program before (⟨number, pending⟩ :: frames)
      = search program (after.close number) frames := by
  induction explores generalizing number frames with
  | done => rw [search]
  | @skip _ _ next _ met _ ih =>
      rw [search, ← ih]
      cases found : program.blocks[next]? with
      | none => rfl
      | some b => exact if_pos (met b found)
  | @visit numbering _ _ next _ b found fresh _ _ ihInside ihOnward =>
      rw [← ihOnward, ← ihInside, search, found]
      exact if_neg fresh

/-- The recursive numbering explores. Witness: induction on the recursion of visits. -/
theorem explores_visitEach (program : Program) (numbering : Numbering) (pending : List BlockRef)
    : Explores program numbering pending (visitEach program numbering pending).1 := by
  refine (visit.mutual_induct program
    (fun numbering ref b _ _ =>
      Explores program (numbering.enter ref b.id) b.succs.toList
        (visitEach program (numbering.enter ref b.id) b.succs.toList).1)
    (fun numbering pending =>
      Explores program numbering pending (visitEach program numbering pending).1)
    ?_ ?_ ?_ ?_ ?_).2 numbering pending
  · exact fun numbering ref b _ _ inside => inside
  · intro numbering
    rw [visitEach]
    exact .done numbering
  · intro numbering next rest missing onward
    have met : ∀ b, program.blocks[next]? = some b → b.id ∈ numbering.numbers := by
      simp [missing]
    rw [visitEach_skip met]
    exact .skip met onward
  · intro numbering next rest b found known onward
    have met : ∀ b, program.blocks[next]? = some b → b.id ∈ numbering.numbers := by
      simp [found, known]
    rw [visitEach_skip met]
    exact .skip met onward
  · intro numbering next rest b found fresh visited inside onward _
    have onward : Explores program (visit program numbering next found fresh).1 rest
        (visitEach program (visit program numbering next found fresh).1 rest).1 := onward
    rw [visitEach_visit found fresh]
    rw [visit] at onward ⊢
    exact .visit found fresh inside onward

/-- The block that got a number. -/
abbrev blockOf (numbering : Numbering) (number : Nat) : BlockRef :=
  numbering.order.getD number 0

/-- The last number below a number. -/
abbrev lastOf (numbering : Numbering) (number : Nat) : Nat :=
  numbering.last.getD number 0

/-- Numbers and the ids of the numbered blocks determine each other. -/
structure Sound (program : Program) (numbering : Numbering) : Prop where
  last_size : numbering.last.size = numbering.size
  number_some
    : ∀ {id number},
        numbering.number? id = some number
        → number < numbering.size ∧ program.idOf (numbering.blockOf number) = id
  number_blockOf
    : ∀ {number},
        number < numbering.size
        → numbering.number? (program.idOf (numbering.blockOf number)) = some number
  blockOf_lt : ∀ {number},
    number < numbering.size → numbering.blockOf number < program.blocks.size

section
variable {numbering : Numbering} {ref : BlockRef} {id : Int} {number : Nat}

theorem blockOf_enter (known : number < numbering.size)
    : (numbering.enter ref id).blockOf number = numbering.blockOf number := by
  have inTable : number < numbering.order.size := known
  simp [blockOf, enter, Array.getElem?_push, Nat.ne_of_lt inTable]

theorem blockOf_enter_size : (numbering.enter ref id).blockOf numbering.size = ref := by
  simp [blockOf, enter, size]

theorem lastOf_enter (sameSize : numbering.last.size = numbering.size)
    (known : number < numbering.size)
    : (numbering.enter ref id).lastOf number = numbering.lastOf number := by
  have inTable : number ≠ numbering.last.size := sameSize ▸ Nat.ne_of_lt known
  simp [lastOf, enter, Array.getElem?_push, inTable]

theorem lastOf_close_self (known : number < numbering.last.size)
    : (numbering.close number).lastOf number = numbering.size - 1 := by
  simp [lastOf, close, known]

theorem lastOf_close {other : Nat} (differs : other ≠ number)
    : (numbering.close number).lastOf other = numbering.lastOf other := by
  simp [lastOf, close, Array.getElem?_setIfInBounds_ne (Ne.symm differs)]

theorem mem_numbers_iff
    : id ∈ numbering.numbers ↔ ∃ number, numbering.number? id = some number := by
  rw [number?, ← Option.isSome_iff_exists, ← Std.TreeMap.mem_iff_isSome_getElem?]

theorem block_eq {b : Block} (found : program.blocks[ref]? = some b) : program.block ref = b := by
  simp [Program.block, found]

theorem idOf_eq {b : Block} (found : program.blocks[ref]? = some b)
    : program.idOf ref = b.id := by
  rw [Program.idOf, block_eq found]

theorem Sound.enter {b : Block} (sound : Sound program numbering)
    (found : program.blocks[ref]? = some b) (fresh : b.id ∉ numbering.numbers)
    : Sound program (numbering.enter ref b.id) := by
  refine ⟨?_, ?_, ?_, ?_⟩
  · rw [size_enter, Numbering.enter, Array.size_push, sound.last_size]
  · intro other number numbered
    rw [number?_enter] at numbered
    rw [size_enter]
    by_cases same : b.id = other
    · rw [if_pos same] at numbered
      obtain rfl := Option.some.inj numbered
      exact ⟨Nat.lt_succ_self _, by rw [blockOf_enter_size, idOf_eq found, same]⟩
    · rw [if_neg same] at numbered
      obtain ⟨known, idEq⟩ := sound.number_some numbered
      exact ⟨Nat.lt_succ_of_lt known, by rw [blockOf_enter known, idEq]⟩
  · intro number known
    rw [size_enter] at known
    rcases Nat.lt_succ_iff_lt_or_eq.mp known with old | rfl
    · have numbered := sound.number_blockOf old
      rw [blockOf_enter old, number?_enter, if_neg, numbered]
      intro same
      exact fresh (mem_numbers_iff.mpr ⟨number, same ▸ numbered⟩)
    · rw [blockOf_enter_size, idOf_eq found, number?_enter, if_pos rfl]
  · intro number known
    rw [size_enter] at known
    rcases Nat.lt_succ_iff_lt_or_eq.mp known with old | rfl
    · rw [blockOf_enter old]
      exact sound.blockOf_lt old
    · rw [blockOf_enter_size]
      exact (Array.getElem?_eq_some_iff.mp found).1

theorem Sound.close (sound : Sound program numbering) (number : Nat)
    : Sound program (numbering.close number) :=
  ⟨by rw [size_close, Numbering.close, Array.size_setIfInBounds, sound.last_size],
    sound.number_some, sound.number_blockOf, sound.blockOf_lt⟩

end

theorem Explores.sound (explores : Explores program before pending after)
    (sound : Sound program before)
    : Sound program after := by
  induction explores with
  | done => exact sound
  | skip _ _ ih => exact ih sound
  | visit found fresh _ _ ihInside ihOnward =>
      exact ihOnward ((ihInside (sound.enter found fresh)).close _)

------------------------------------------------------------------------------------------
-- What an exploration leaves
------------------------------------------------------------------------------------------

/-- The laws of a subtree that was explored: its range, the numbers in it, and its edges. -/
structure Closed (program : Program) (numbering : Numbering) (number : Nat) : Prop where
  le_last : number ≤ numbering.lastOf number
  last_lt : numbering.lastOf number < numbering.size
  nested
    : ∀ inner, number ≤ inner → inner ≤ numbering.lastOf number
      → numbering.lastOf inner ≤ numbering.lastOf number
  successor
    : ∀ ref ∈ (program.block (numbering.blockOf number)).succs.toList,
        ref < program.blocks.size
        → ∃ target, numbering.number? (program.idOf ref) = some target
            ∧ target ≤ numbering.lastOf number

/-- A number was met over an edge from the innermost subtree around it among the numbers from
the first one on.
-/
def MetFrom (program : Program) (numbering : Numbering) (first number : Nat) : Prop :=
  ∃ parent,
    first ≤ parent
    ∧ parent < number
    ∧ number ≤ numbering.lastOf parent
    ∧ numbering.blockOf number
      ∈ (program.block (numbering.blockOf parent)).succs.toList
    ∧ ∀ top, first ≤ top → top < number → numbering.Below top number
        → numbering.Below top parent

/-- What exploring pending blocks adds to a numbering: old numbers keep their place, all pending
blocks have a number, and each new number is closed and was met from a new one or is pending
outside all new subtrees.
-/
structure Explored (program : Program) (before : Numbering) (pending : List BlockRef)
    (after : Numbering)
    : Prop where
  size_le : before.size ≤ after.size
  blockOf_eq : ∀ number < before.size, after.blockOf number = before.blockOf number
  lastOf_eq : ∀ number < before.size, after.lastOf number = before.lastOf number
  number_eq : ∀ id number, before.number? id = some number → after.number? id = some number
  met
    : ∀ ref ∈ pending, ref < program.blocks.size
      → ∃ number, after.number? (program.idOf ref) = some number
  closed : ∀ number, before.size ≤ number → number < after.size → Closed program after number
  origin
    : ∀ number, before.size ≤ number → number < after.size
      → MetFrom program after before.size number
        ∨ after.blockOf number ∈ pending
          ∧ ∀ top, before.size ≤ top → top < number → ¬ after.Below top number

/-- A closed subtree stays closed while later numbers are given. -/
theorem Closed.extend {number : Nat} (closed : Closed program before number)
    (size_le : before.size ≤ after.size)
    (blockOf_eq : after.blockOf number = before.blockOf number)
    (lastOf_eq : ∀ inner, number ≤ inner → inner < before.size
      → after.lastOf inner = before.lastOf inner)
    (number_eq : ∀ id number, before.number? id = some number
      → after.number? id = some number)
    : Closed program after number := by
  have known : number < before.size := closed.le_last.trans_lt closed.last_lt
  have sameLast := lastOf_eq number (Nat.le_refl number) known
  refine ⟨sameLast ▸ closed.le_last, sameLast ▸ closed.last_lt.trans_le size_le, ?_, ?_⟩
  · intro inner lower upper
    rw [sameLast] at upper ⊢
    rw [lastOf_eq inner lower (upper.trans_lt closed.last_lt)]
    exact closed.nested inner lower upper
  · intro ref member valid
    rw [blockOf_eq] at member
    obtain ⟨target, numbered, bounded⟩ := closed.successor ref member valid
    exact ⟨target, number_eq _ _ numbered, sameLast ▸ bounded⟩

/-- A block was entered at a number and left with an inner numbering, and a later numbering keeps
the inner one and ends the block's range where it was left.
-/
structure Passed (inner : Numbering) (first : Nat) (next : BlockRef) (after : Numbering)
    : Prop where
  first_lt : first < inner.size
  size_le : inner.size ≤ after.size
  blockOf_first : after.blockOf first = next
  lastOf_first : after.lastOf first = inner.size - 1
  blockOf_eq : ∀ number < inner.size, after.blockOf number = inner.blockOf number
  lastOf_eq
    : ∀ number < inner.size, number ≠ first → after.lastOf number = inner.lastOf number
  number_eq : ∀ id number, inner.number? id = some number → after.number? id = some number

section
variable {numbering inner : Numbering} {next : BlockRef} {rest : List BlockRef} {b : Block}
  {first number : Nat}

theorem Explored.passed (innerSound : Sound program inner)
    (inside : Explored program (numbering.enter next b.id) b.succs.toList inner)
    (onward : Explored program (inner.close numbering.size) rest after)
    : Passed inner numbering.size next after := by
  have entered : numbering.size < (numbering.enter next b.id).size := by
    rw [size_enter]
    exact Nat.lt_succ_self _
  have first_lt : numbering.size < inner.size := entered.trans_le inside.size_le
  refine ⟨first_lt, onward.size_le, ?_, ?_, onward.blockOf_eq, ?_, onward.number_eq⟩
  · calc after.blockOf numbering.size
        = inner.blockOf numbering.size := onward.blockOf_eq _ first_lt
      _ = (numbering.enter next b.id).blockOf numbering.size := inside.blockOf_eq _ entered
      _ = next := blockOf_enter_size
  · refine (onward.lastOf_eq _ first_lt).trans ?_
    exact lastOf_close_self (innerSound.last_size.symm ▸ first_lt)
  · intro number known differs
    exact (onward.lastOf_eq number known).trans (lastOf_close differs)

/-- Ranges of numbers given before the block was left end before it was. -/
theorem Passed.lastOf_lt (passed : Passed inner first next after)
    (closed : ∀ number, first < number → number < inner.size → Closed program inner number)
    (lower : first ≤ number) (upper : number < inner.size)
    : after.lastOf number < inner.size := by
  rcases Nat.eq_or_lt_of_le lower with rfl | later
  · rw [passed.lastOf_first]
    exact Nat.sub_one_lt_of_lt upper
  · rw [passed.lastOf_eq number upper (Nat.ne_of_gt later)]
    exact (closed number later upper).last_lt

theorem Passed.closed_first (passed : Passed inner first next after)
    (found : program.blocks[next]? = some b) (innerSound : Sound program inner)
    (met : ∀ ref ∈ b.succs.toList, ref < program.blocks.size
      → ∃ number, inner.number? (program.idOf ref) = some number)
    (closed : ∀ number, first < number → number < inner.size → Closed program inner number)
    : Closed program after first := by
  have first_lt := passed.first_lt
  have size_le := passed.size_le
  have last_eq := passed.lastOf_first
  refine ⟨by omega, by omega, ?_, ?_⟩
  · intro other lower upper
    have bounded := passed.lastOf_lt closed lower (by omega)
    omega
  · intro ref member valid
    rw [passed.blockOf_first, block_eq found] at member
    obtain ⟨target, numbered⟩ := met ref member valid
    have known := (innerSound.number_some numbered).1
    exact ⟨target, passed.number_eq _ _ numbered, by omega⟩

theorem Passed.closed_inside (passed : Passed inner first next after) (later : first < number)
    (closed : Closed program inner number)
    : Closed program after number := by
  have known : number < inner.size := closed.le_last.trans_lt closed.last_lt
  refine closed.extend passed.size_le (passed.blockOf_eq number known) ?_ passed.number_eq
  intro other lower upper
  exact passed.lastOf_eq other upper (Nat.ne_of_gt (later.trans_le lower))

/-- Inside the block subtrees are as they were when it was left. -/
theorem Passed.below_iff (passed : Passed inner first next after) {top : Nat}
    (later : first < top) (known : top < inner.size)
    : after.Below top number ↔ inner.Below top number := by
  change top ≤ number ∧ number ≤ after.lastOf top ↔ top ≤ number ∧ number ≤ inner.lastOf top
  rw [passed.lastOf_eq top known (Nat.ne_of_gt later)]

/-- What was met inside the block was met from it, unless it was met deeper. -/
theorem Passed.metFrom (passed : Passed inner first next after)
    (found : program.blocks[next]? = some b) (later : first < number)
    (upper : number < inner.size)
    (origin : MetFrom program inner (first + 1) number
      ∨ inner.blockOf number ∈ b.succs.toList
        ∧ ∀ top, first < top → top < number → ¬ inner.Below top number)
    : MetFrom program after first number := by
  have last_eq := passed.lastOf_first
  have around_first {parent : Nat} (lower : first ≤ parent) (earlier : parent < number)
      : after.Below first parent :=
    ⟨lower, show parent ≤ after.lastOf first by omega⟩
  rcases origin with ⟨parent, lower, earlier, covers, edge, around⟩ | ⟨edge, outside⟩
  · have parentLt : parent < inner.size := earlier.trans upper
    refine ⟨parent, Nat.le_of_succ_le lower, earlier, ?_, ?_, ?_⟩
    · rwa [passed.lastOf_eq parent parentLt (Nat.ne_of_gt lower)]
    · rwa [passed.blockOf_eq number upper, passed.blockOf_eq parent parentLt]
    · intro top topLower topUpper below
      rcases Nat.eq_or_lt_of_le topLower with rfl | topLater
      · exact around_first (Nat.le_of_succ_le lower) earlier
      · have topLt : top < inner.size := topUpper.trans upper
        rw [passed.below_iff topLater topLt] at below ⊢
        exact around top topLater topUpper below
  · refine ⟨first, Nat.le_refl _, later, by omega, ?_, ?_⟩
    · rwa [passed.blockOf_eq number upper, passed.blockOf_first, block_eq found]
    · intro top topLower topUpper below
      rcases Nat.eq_or_lt_of_le topLower with rfl | topLater
      · exact around_first (Nat.le_refl _) later
      · rw [passed.below_iff topLater (topUpper.trans upper)] at below
        exact absurd below (outside top topLater topUpper)

/-- Visiting a block and exploring the rest adds the block's own range before the rest. Witness:
the new numbers are the block's, those met inside it, and those met after it was left.
-/
theorem Explored.visit (sound : Sound program numbering)
    (found : program.blocks[next]? = some b) (fresh : b.id ∉ numbering.numbers)
    (innerSound : Sound program inner)
    (inside : Explored program (numbering.enter next b.id) b.succs.toList inner)
    (onward : Explored program (inner.close numbering.size) rest after)
    : Explored program numbering (next :: rest) after := by
  have passed := inside.passed innerSound onward
  have first_lt := passed.first_lt
  have closedInside (number : Nat) (later : numbering.size < number) (upper : number < inner.size)
      : Closed program inner number :=
    inside.closed number (by rwa [size_enter]) upper
  refine ⟨first_lt.le.trans passed.size_le, ?_, ?_, ?_, ?_, ?_, ?_⟩
  · intro number known
    rw [passed.blockOf_eq number (known.trans first_lt),
      inside.blockOf_eq number (by rw [size_enter]; omega), blockOf_enter known]
  · intro number known
    rw [passed.lastOf_eq number (known.trans first_lt) (Nat.ne_of_lt known),
      inside.lastOf_eq number (by rw [size_enter]; omega), lastOf_enter sound.last_size known]
  · intro id number numbered
    refine passed.number_eq id number (inside.number_eq id number ?_)
    rw [number?_enter, if_neg, numbered]
    intro same
    exact fresh (mem_numbers_iff.mpr ⟨number, same ▸ numbered⟩)
  · intro ref member valid
    rcases List.mem_cons.mp member with rfl | later
    · refine ⟨numbering.size, passed.number_eq _ _ (inside.number_eq _ _ ?_)⟩
      rw [idOf_eq found, number?_enter, if_pos rfl]
    · exact onward.met ref later valid
  · intro number lower upper
    cases Nat.lt_or_ge number inner.size with
    | inl inInner =>
        rcases Nat.eq_or_lt_of_le lower with rfl | later
        · exact passed.closed_first found innerSound inside.met closedInside
        · exact passed.closed_inside later (closedInside number later inInner)
    | inr afterInner => exact onward.closed number afterInner upper
  · intro number lower upper
    cases Nat.lt_or_ge number inner.size with
    | inl inInner =>
        rcases Nat.eq_or_lt_of_le lower with rfl | later
        · refine Or.inr ⟨by rw [passed.blockOf_first]; exact List.mem_cons_self, ?_⟩
          exact fun top topLower topUpper => absurd topUpper (Nat.not_lt.mpr topLower)
        · have origin := inside.origin number (by rwa [size_enter]) inInner
          rw [size_enter] at origin
          exact Or.inl (passed.metFrom found later inInner origin)
    | inr afterInner =>
        -- No range opened before reaches a number given after the block was left.
        have apart (top : Nat) (topLower : numbering.size ≤ top) (topUpper : top < inner.size)
            : ¬ after.Below top number := by
          intro below
          have capped := passed.lastOf_lt closedInside topLower topUpper
          exact absurd below.2 (Nat.not_le.mpr (capped.trans_le afterInner))
        rcases onward.origin number afterInner upper with
          ⟨parent, first, earlier, covers, edge, around⟩ | ⟨edge, outside⟩
        · rw [size_close] at first around
          refine Or.inl ⟨parent, first_lt.le.trans first, earlier, covers, edge, ?_⟩
          intro top topLower topUpper below
          cases Nat.lt_or_ge top inner.size with
          | inl small => exact absurd below (apart top topLower small)
          | inr large => exact around top large topUpper below
        · refine Or.inr ⟨List.mem_cons_of_mem next edge, ?_⟩
          intro top topLower topUpper
          cases Nat.lt_or_ge top inner.size with
          | inl small => exact apart top topLower small
          | inr large => exact outside top large topUpper

end

theorem Explores.explored (explores : Explores program before pending after)
    (sound : Sound program before)
    : Explored program before pending after := by
  induction explores with
  | done numbering =>
      refine ⟨Nat.le_refl _, fun _ _ => rfl, fun _ _ => rfl, fun _ _ numbered => numbered,
        by simp, ?_, ?_⟩
      · exact fun number lower upper => absurd upper (Nat.not_lt.mpr lower)
      · exact fun number lower upper => absurd upper (Nat.not_lt.mpr lower)
  | @skip numbering after next rest met _ ih =>
      have explored := ih sound
      refine { explored with met := ?_, origin := ?_ }
      · intro ref member valid
        rcases List.mem_cons.mp member with rfl | later
        · have found := Array.getElem?_eq_getElem valid
          obtain ⟨number, numbered⟩ := mem_numbers_iff.mp (met _ found)
          exact ⟨number, explored.number_eq _ _ (idOf_eq found ▸ numbered)⟩
        · exact explored.met ref later valid
      · intro number lower upper
        exact (explored.origin number lower upper).imp_right
          fun ⟨edge, outside⟩ => ⟨List.mem_cons_of_mem next edge, outside⟩
  | visit found fresh inside _ ihInside ihOnward =>
      have entered := sound.enter found fresh
      have innerSound := inside.sound entered
      exact .visit sound found fresh innerSound (ihInside entered)
        (ihOnward (innerSound.close _))

end LoopNest.Numbering
