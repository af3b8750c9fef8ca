import LoopNest.Sweep
import Mathlib.Data.List.Infix

/-! Sweeps under two bounds. The bound decides only whether a visit gives up: until then a sweep
under a larger bound is in the same state, and what it finds afterwards comes after.
-/

namespace LoopNest

variable {numbering : Numbering} {bound larger : Int}

/-- A chase that ends under a bound ends alike under a larger one. Witness: induction on the
recursion of the chase.
-/
theorem Chase.run_of_le (le : bound ≤ larger) {entries : Array (List Nat)} {header position : Nat}
    {chase after : Chase} (ended : chase.run numbering bound entries header position = .ok after)
    : chase.run numbering larger entries header position = .ok after := by
  fun_induction Chase.run numbering bound entries header chase position with
  | case1 => cases ended
  | case2 => cases ended
  | case3 => cases ended
  | case4 chase position more node sources found light next scanned ih =>
      have lighter : ¬ larger < sources.length := fun heavy => light (Int.lt_of_le_of_lt le heavy)
      rw [Chase.run, dif_pos more]
      simp only [node] at found
      simp only [found, if_neg lighter]
      split
      · next failed => rw [scanned] at failed; cases failed
      · next other again =>
          rw [scanned] at again
          cases again
          exact ih ended
  | case5 chase position done =>
      rw [Chase.run, dif_neg done]
      exact ended

namespace Sweep

variable {number : Nat} {sweep : Sweep} {found : Option Chase}

/-- A number with back edges that gathers anything ends a chase from its seeds. -/
theorem gather_cons {latch : Nat} {rest : List Nat}
    (listed : sweep.latches[number]? = some (latch :: rest))
    : sweep.gather numbering bound number
      = (Chase.seed { sets := sweep.sets } ((latch :: rest).filter (· ≠ number))).bind fun seeded =>
          (seeded.run numbering bound sweep.entries number 0).map some := by
  rw [gather, listed]
  rfl

/-- What a number gathers: nothing without back edges, and else what a chase from its seeds ends
with.
-/
theorem gather_eq_ok (gathered : sweep.gather numbering bound number = .ok found)
    : sweep.latches[number]? = some [] ∧ found = none
      ∨ ∃ latch rest seeded chase,
          sweep.latches[number]? = some (latch :: rest)
          ∧ Chase.seed { sets := sweep.sets } ((latch :: rest).filter (· ≠ number)) = .ok seeded
          ∧ seeded.run numbering bound sweep.entries number 0 = .ok chase
          ∧ found = some chase := by
  cases listed : sweep.latches[number]? with
  | none =>
      rw [gather, listed] at gathered
      cases gathered
  | some latches =>
      cases latches with
      | nil =>
          rw [gather, listed] at gathered
          exact Or.inl ⟨rfl, (Except.ok.inj gathered).symm⟩
      | cons latch rest =>
          rw [gather_cons listed] at gathered
          cases seeds : Chase.seed { sets := sweep.sets }
              ((latch :: rest).filter (· ≠ number)) with
          | error halt =>
              rw [seeds] at gathered
              cases gathered
          | ok seeded =>
              rw [seeds] at gathered
              cases ran : seeded.run numbering bound sweep.entries number 0 with
              | error halt =>
                  simp only [Except.bind, ran] at gathered
                  cases gathered
              | ok chase =>
                  simp only [Except.bind, ran] at gathered
                  exact Or.inr ⟨latch, rest, seeded, chase, rfl, seeds, ran,
                    (Except.ok.inj gathered).symm⟩

theorem gather_of_le (le : bound ≤ larger)
    (gathered : sweep.gather numbering bound number = .ok found)
    : sweep.gather numbering larger number = .ok found := by
  rcases gather_eq_ok gathered with
    ⟨listed, rfl⟩ | ⟨latch, rest, seeded, chase, listed, seeds, ran, rfl⟩
  · rw [gather, listed]
  · rw [gather_cons listed, seeds]
    simp only [Except.bind, Chase.run_of_le le ran, Except.map]

/-- Whether a number is passed over does not depend on the bound. -/
theorem gather_none_iff
    : sweep.gather numbering bound number = .ok none ↔ sweep.latches[number]? = some [] := by
  constructor
  · intro gathered
    rcases gather_eq_ok gathered with ⟨listed, -⟩ | ⟨_, _, _, _, -, -, -, impossible⟩
    · exact listed
    · cases impossible
  · intro listed
    rw [gather, listed]

------------------------------------------------------------------------------------------
-- Whole sweeps
------------------------------------------------------------------------------------------

/-- Visits keep the regions found before. Witness: induction on the numbers. -/
theorem regions_visitAll (numbering : Numbering) (bound : Int) (numbers : List Nat)
    (sweep : Sweep)
    : sweep.regions.toList <+: (visitAll numbering bound numbers sweep).1.regions.toList := by
  induction numbers generalizing sweep with
  | nil => exact List.prefix_rfl
  | cons number rest ih =>
      rw [visitAll]
      cases sweep.gather numbering bound number with
      | error halt => exact List.prefix_rfl
      | ok found =>
          cases found with
          | none => exact ih sweep
          | some chase =>
              refine List.IsPrefix.trans ?_ (ih (sweep.collapse number chase))
              simp [collapse]

/-- How sweeps under two bounds compare. -/
structure Outlasts (short long : Sweep × Option Halt) : Prop where
  regions_le : short.1.regions.toList <+: long.1.regions.toList
  eq_of_ended : short.2 = none → long = short
  more_of_halted
    : short.2 ≠ none → long.2 = none → short.1.regions.size < long.1.regions.size

/-- A sweep under a larger bound goes at least as far. Witness: induction on the numbers; where
the shorter sweep gives up, the longer one does too or finds one more region.
-/
theorem visitAll_outlasts (le : bound ≤ larger) (numbers : List Nat) (sweep : Sweep)
    : Outlasts (visitAll numbering bound numbers sweep)
        (visitAll numbering larger numbers sweep) := by
  induction numbers generalizing sweep with
  | nil => exact ⟨List.prefix_rfl, fun _ => rfl, fun halted => absurd rfl halted⟩
  | cons number rest ih =>
      cases gathered : sweep.gather numbering bound number with
      | ok found =>
          rw [visitAll, visitAll, gathered, gather_of_le le gathered]
          cases found with
          | none => exact ih sweep
          | some chase => exact ih (sweep.collapse number chase)
      | error halt =>
          have stopped : visitAll numbering bound (number :: rest) sweep = (sweep, some halt) := by
            rw [visitAll, gathered]
          rw [stopped]
          refine ⟨regions_visitAll _ _ (number :: rest) sweep, (fun ended => nomatch ended), ?_⟩
          intro _ ended
          rw [visitAll] at ended ⊢
          cases gatheredToo : sweep.gather numbering larger number with
          | error halt =>
              rw [gatheredToo] at ended
              cases ended
          | ok found =>
              cases found with
              | none =>
                  rw [gather_none_iff, ← gather_none_iff, gathered] at gatheredToo
                  cases gatheredToo
              | some chase =>
                  have grown := (regions_visitAll numbering larger rest
                    (sweep.collapse number chase)).length_le
                  have oneMore : (sweep.collapse number chase).regions.size
                      = sweep.regions.size + 1 :=
                    Array.size_push _
                  rw [Array.length_toList, Array.length_toList, oneMore] at grown
                  exact grown

end Sweep

end LoopNest
