import LoopNest.Proofs.Forest.Checksum
import Mathlib.Algebra.BigOperators.Fin
import Mathlib.Data.Int.Bitwise
import Mathlib.Data.Int.ModEq
import Mathlib.Tactic.LinearCombination
import Mathlib.Tactic.Ring

/-! What folding values into an accumulator computes: all but the last value count by powers of two,
as far as 28 bits show them. So the accumulator tells apart exactly what the last 29 values and, in
shorter lists, its first state can change.
-/

namespace LoopNest

variable {acc other value : Int} {values : List Int}

------------------------------------------------------------------------------------------
-- One value
------------------------------------------------------------------------------------------

/-- Masking the low bits of an integer takes a remainder, also below zero. Witness: induction on the
bits of the mask, from the lowest.
-/
theorem land_ones (bits : Nat) (n : Int) : Int.land n (2 ^ bits - 1) = n % 2 ^ bits := by
  induction bits generalizing n with
  | zero =>
      rw [pow_zero, Int.sub_self, Int.emod_one]
      cases n with
      | ofNat m => exact congrArg Int.ofNat (Nat.and_zero m)
      | negSucc m => exact congrArg Int.ofNat (Nat.bitwise_zero_left m)
  | succ bits ih =>
      have ones : (2 ^ (bits + 1) - 1 : Int) = Int.bit true (2 ^ bits - 1) := by
        rw [Int.bit_val, Bool.cond_true]
        ring
      calc Int.land n (2 ^ (bits + 1) - 1)
        _ = Int.land (Int.bit n.bodd n.div2) (Int.bit true (2 ^ bits - 1)) := by
          rw [Int.bit_decomp, ones]
        _ = 2 * (n.div2 % 2 ^ bits) + cond n.bodd 1 0 := by
          rw [Int.land_bit, ih, Bool.and_true, Int.bit_val]
        _ = n - 2 ^ (bits + 1) * (n / 2 ^ (bits + 1)) := by
          rw [Int.emod_def, pow_succ', ← Int.ediv_ediv_of_nonneg (by decide), ← Int.div2_val]
          linear_combination Int.bodd_add_div2 n
        _ = n % 2 ^ (bits + 1) := (Int.emod_def _ _).symm

/-- Folding a value in masks 28 bits, shifts them by one place, and masks 32 bits of the sum. -/
theorem absorb_eq_masked (acc value : Int)
    : absorb acc value
      = Int.land (Int.land acc (2 ^ 28 - 1) <<< (1 : Nat) + value) (2 ^ 32 - 1) := by
  rw [land_ones, land_ones, absorb, Int.shiftLeft_eq]
  rfl

/-- Up to 28 bits, folding a value in doubles the accumulator and adds the value. -/
theorem absorb_modEq (acc value : Int) : absorb acc value ≡ 2 * acc + value [ZMOD 2 ^ 28] := by
  -- What the first mask drops is doubled, and what the second drops is larger still.
  simp only [absorb, Int.ModEq]
  omega

/-- Folding the same value in tells accumulators apart exactly by their low 28 bits. -/
theorem absorb_eq_absorb_iff
    : absorb acc value = absorb other value ↔ acc ≡ other [ZMOD 2 ^ 28] := by
  -- Twice 28 bits fit into 32, so the second mask loses nothing of the difference.
  simp only [absorb, Int.ModEq]
  omega

/-- Adding one to a value changes the lowest bit of the outcome. -/
theorem odd_absorb_sub_absorb (acc value : Int)
    : Odd (absorb acc (value + 1) - absorb acc value) := by
  rw [Int.odd_iff, absorb, absorb]
  omega

------------------------------------------------------------------------------------------
-- Values in a row
------------------------------------------------------------------------------------------

theorem absorbAll_append (acc : Int) (first second : List Int)
    : absorbAll acc (first ++ second) = absorbAll (absorbAll acc first) second :=
  List.foldl_append

/-- The accumulator and the values, each doubled once for every value after it. -/
def weightedSum (acc : Int) (values : List Int) : Int :=
  2 ^ values.length * acc
    + ∑ i : Fin values.length, 2 ^ (values.length - 1 - i) * values.get i

theorem weightedSum_cons (acc value : Int) (values : List Int)
    : weightedSum acc (value :: values) = weightedSum (2 * acc + value) values := by
  have later (i : Fin values.length) : values.length - (i + 1) = values.length - 1 - i := by
    omega
  simp only [weightedSum, List.length_cons, Fin.sum_univ_succ, Nat.add_sub_cancel, Fin.val_zero,
    Nat.sub_zero, Fin.val_succ, List.get_cons_zero, List.get_cons_succ', later]
  ring

theorem weightedSum_sub (acc other : Int) (values : List Int)
    : weightedSum acc values - weightedSum other values = 2 ^ values.length * (acc - other) := by
  rw [weightedSum, weightedSum]
  ring

/-- Up to 28 bits, an accumulator is the weighted sum of all that was folded in. Witness: induction
on the values.
-/
theorem absorbAll_modEq (acc : Int) (values : List Int)
    : absorbAll acc values ≡ weightedSum acc values [ZMOD 2 ^ 28] := by
  induction values generalizing acc with
  | nil => simp [absorbAll, weightedSum]
  | cons value rest ih =>
      have step : weightedSum (absorb acc value) rest
          ≡ weightedSum (2 * acc + value) rest [ZMOD 2 ^ 28] := by
        rw [Int.modEq_comm, Int.modEq_iff_dvd, weightedSum_sub]
        exact (absorb_modEq acc value).symm.dvd.mul_left _
      calc absorbAll acc (value :: rest)
        _ = absorbAll (absorb acc value) rest := rfl
        _ ≡ weightedSum (absorb acc value) rest [ZMOD 2 ^ 28] := ih _
        _ ≡ weightedSum (2 * acc + value) rest [ZMOD 2 ^ 28] := step
        _ = weightedSum acc (value :: rest) := (weightedSum_cons acc value rest).symm

/-- Of all that comes before the last value, the low 28 bits of the weighted sum are left. -/
theorem absorbAll_concat (acc : Int) (values : List Int) (last : Int)
    : absorbAll acc (values ++ [last])
      = (2 * (weightedSum acc values % 2 ^ 28) + last) % 2 ^ 32 := by
  have low : absorbAll acc values % 2 ^ 28 = weightedSum acc values % 2 ^ 28 :=
    absorbAll_modEq acc values
  calc absorbAll acc (values ++ [last])
    _ = absorb (absorbAll acc values) last := absorbAll_append acc values [last]
    _ = (absorbAll acc values % 2 ^ 28 * 2 + last) % 2 ^ 32 := rfl
    _ = _ := by rw [low, Int.mul_comm]

/-- Two accumulators end alike exactly where the values before the last double their difference
out of 28 bits.
-/
theorem absorbAll_concat_eq_iff (last : Int)
    : absorbAll acc (values ++ [last]) = absorbAll other (values ++ [last])
      ↔ 2 ^ 28 ∣ 2 ^ values.length * (acc - other) := by
  have low (start : Int) := absorbAll_modEq start values
  calc absorbAll acc (values ++ [last]) = absorbAll other (values ++ [last])
    _ ↔ absorb (absorbAll acc values) last = absorb (absorbAll other values) last := by
      rw [absorbAll_append, absorbAll_append]
      rfl
    _ ↔ absorbAll acc values ≡ absorbAll other values [ZMOD 2 ^ 28] := absorb_eq_absorb_iff
    _ ↔ weightedSum acc values ≡ weightedSum other values [ZMOD 2 ^ 28] :=
      ⟨fun same => (low acc).symm.trans (same.trans (low other)),
        fun same => (low acc).trans (same.trans (low other).symm)⟩
    _ ↔ 2 ^ 28 ∣ 2 ^ values.length * (acc - other) := by
      rw [Int.modEq_comm, Int.modEq_iff_dvd, weightedSum_sub]

/-- After 29 values or more the first state is forgotten. -/
theorem absorbAll_eq_of_long (acc other : Int) (long : 29 ≤ values.length)
    : absorbAll acc values = absorbAll other values := by
  obtain rfl | ⟨before, last, rfl⟩ := values.eq_nil_or_concat'
  · simp at long
  · rw [absorbAll_concat_eq_iff]
    rw [List.length_append, List.length_singleton] at long
    exact (pow_dvd_pow 2 (by omega)).mul_right _

/-- A difference in the lowest bit is seen after 28 values or less. -/
theorem absorbAll_ne_of_short (odd : Odd (acc - other)) (short : values.length ≤ 28)
    : absorbAll acc values ≠ absorbAll other values := by
  obtain rfl | ⟨before, last, rfl⟩ := values.eq_nil_or_concat'
  · rintro (rfl : acc = other)
    simp at odd
  · rw [Ne, absorbAll_concat_eq_iff]
    rw [List.length_append, List.length_singleton] at short
    -- An odd difference, doubled fewer than 28 times, is no multiple of `2 ^ 28`.
    intro divides
    have shifted : 2 ^ (before.length + 1) ∣ 2 ^ before.length * (acc - other) :=
      (pow_dvd_pow 2 short).trans divides
    rw [pow_succ, mul_dvd_mul_iff_left (pow_ne_zero _ two_ne_zero), ← even_iff_two_dvd] at shifted
    exact Int.not_even_iff_odd.mpr odd shifted

theorem absorbAll_set {i : Nat} (known : i < values.length) (acc value : Int)
    : absorbAll acc (values.set i value)
      = absorbAll (absorb (absorbAll acc (values.take i)) value) (values.drop (i + 1)) := by
  rw [List.set_eq_take_append_cons_drop, if_pos known, absorbAll_append]
  rfl

theorem absorbAll_mem_range (acc : Int) (nonempty : values ≠ [])
    : 0 ≤ absorbAll acc values ∧ absorbAll acc values < 2 ^ 32 := by
  obtain rfl | ⟨before, last, rfl⟩ := values.eq_nil_or_concat'
  · exact absurd rfl nonempty
  · rw [absorbAll_append]
    exact absorb_mem_range (absorbAll acc before) last

/-- The first state of an accumulator does not matter exactly where 29 values follow it. -/
theorem forall_absorbAll_eq_iff
    : (∀ other, absorbAll other values = absorbAll acc values) ↔ 29 ≤ values.length := by
  constructor
  · intro forgotten
    by_contra short
    have odd : Odd (acc + 1 - acc) := by simp
    exact absorbAll_ne_of_short odd (by omega) (forgotten (acc + 1))
  · exact fun long other => absorbAll_eq_of_long other acc long

/-- A value does not matter exactly where 29 values follow it. -/
theorem forall_absorbAll_set_eq_iff {i : Nat} (known : i < values.length)
    : (∀ value, absorbAll acc (values.set i value) = absorbAll acc values)
      ↔ 29 ≤ values.length - (i + 1) := by
  rw [← List.length_drop]
  constructor
  · intro forgotten
    by_contra short
    have odd := odd_absorb_sub_absorb (absorbAll acc (values.take i)) 0
    apply absorbAll_ne_of_short odd (Nat.le_of_not_lt short)
    rw [← absorbAll_set known, ← absorbAll_set known, forgotten, forgotten]
  · intro long value
    have same : values = values.set i values[i] := (List.set_getElem_self known).symm
    rw [same, List.set_set, absorbAll_set known, absorbAll_set known]
    exact absorbAll_eq_of_long _ _ long

/-- Folding values into an accumulator adds the last of them to twice the low 28 bits of the
weighted sum of all that came before, in 32 bits. The result depends on the first state exactly
where less than 29 values are folded in, and on a value exactly where less than 29 come after it.
-/
theorem absorbAll_remembers (acc : Int) (nonempty : values ≠ [])
    : absorbAll acc values
        = (2 * (weightedSum acc values.dropLast % 2 ^ 28) + values.getLast nonempty) % 2 ^ 32
      ∧ (0 ≤ absorbAll acc values ∧ absorbAll acc values < 2 ^ 32)
      ∧ ((∀ other, absorbAll other values = absorbAll acc values) ↔ 29 ≤ values.length)
      ∧ ∀ i < values.length,
          (∀ value, absorbAll acc (values.set i value) = absorbAll acc values)
          ↔ 29 ≤ values.length - (i + 1) := by
  refine ⟨?_, absorbAll_mem_range acc nonempty, forall_absorbAll_eq_iff, ?_⟩
  · rw [← absorbAll_concat, List.dropLast_append_getLast]
  · exact fun i known => forall_absorbAll_set_eq_iff known

/-- Powers of a negative number, of which the first is out of reach and the second is not. -/
theorem absorbAll_remembers_powers
    : let values : List Int := (List.range 30).map fun k => (-3) ^ k
      values ≠ []
      ∧ absorbAll (-5) values
        = (2 * (weightedSum (-5) values.dropLast % 2 ^ 28) + (-3) ^ 29) % 2 ^ 32
      ∧ 0 ≤ absorbAll (-5) values
      ∧ absorbAll (2 ^ 40) values = absorbAll (-5) values
      ∧ (∀ value, absorbAll (-5) (values.set 0 value) = absorbAll (-5) values)
      ∧ ¬ ∀ value, absorbAll (-5) (values.set 1 value) = absorbAll (-5) values := by
  intro values
  have nonempty : values ≠ [] := by decide
  obtain ⟨closed, range, start_iff, value_iff⟩ := absorbAll_remembers (-5) nonempty
  refine ⟨nonempty, closed, range.1, start_iff.mpr (by decide) _, ?_, ?_⟩
  · exact (value_iff 0 (by decide)).mpr (by decide)
  · exact fun forgotten => absurd ((value_iff 1 (by decide)).mp forgotten) (by decide)

------------------------------------------------------------------------------------------
-- Loops with many parts
------------------------------------------------------------------------------------------

namespace LoopStore

variable {store later : LoopStore} {ref twin : LoopRef} {before after : LoopRef → Int}

/-- The ids of a loop's blocks and the values of its children are what is folded in last. -/
theorem exists_foldChildren_eq (program : Program) (store : LoopStore) (value : LoopRef → Int)
    (ref : LoopRef)
    : ∃ start,
        store.foldChildren program value ref
        = absorbAll start ((store.loop ref).blocks.toList.map program.idOf
            ++ (store.childrenOf ref).map value) := by
  rw [foldChildren, Loop.ownChecksum, Loop.fields, absorbAll_append, ← absorbAll_append]
  exact ⟨_, rfl⟩

/-- The checksum of a loop with 29 blocks and children or more shows neither its counter, its
flags and its levels nor its header: any loop with the same blocks, and children of the same
checksums, has the same.
-/
theorem foldChildren_eq_of_many (program : Program)
    (many : 29 ≤ (store.loop ref).blocks.size + (store.childrenOf ref).length)
    (blocks_eq : (later.loop twin).blocks = (store.loop ref).blocks)
    (children_eq : (later.childrenOf twin).map after = (store.childrenOf ref).map before)
    : later.foldChildren program after twin = store.foldChildren program before ref := by
  obtain ⟨start, folded⟩ := exists_foldChildren_eq program store before ref
  obtain ⟨startToo, foldedToo⟩ := exists_foldChildren_eq program later after twin
  rw [folded, foldedToo, blocks_eq, children_eq]
  apply absorbAll_eq_of_long
  simpa using many

end LoopStore

end LoopNest
