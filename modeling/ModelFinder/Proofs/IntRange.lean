import Mathlib
import ModelFinder.Evaluate
import ModelFinder.Proofs.Digits
/-!
Integers of a range by their digits. The operators of the evaluator are stated with machine
words; circuits work digit by digit.

A range may also be read off 64-bit words: wrapping to it leaves the digits that its mask selects,
and gives the highest of them its negative weight.
-/

namespace ModelFinder

namespace Digits

theorem digit_natCast (value position : Nat) : digit value position = value.testBit position := by
  rw [digit, Nat.testBit_eq_decide_div_mod_eq, Bool.eq_iff_iff, beq_iff_eq, decide_eq_true_iff]
  norm_cast

theorem toInt_eq_signed {width : Nat} (positive : 0 < width) (value : BitVec width) :
    value.toInt = signed ((List.range width).map value.getLsbD) := by
  have digits : value.getLsbD = digit value.toNat := by
    funext position
    rw [digit_natCast, BitVec.testBit_toNat]
  rw [digits, signed_map_digit _ positive, BitVec.toInt_eq_toNat_bmod]
  rfl

theorem map_digit_emod (value : Int) (width : Nat) :
    (List.range width).map (digit (value % weight width)) =
      (List.range width).map (digit value) := by
  apply unsigned_inj (by simp)
  have left := unsigned_map_digit (value % weight width) width
  have right := unsigned_map_digit value width
  rw [Int.emod_emod_of_dvd _ (dvd_refl _)] at left
  exact_mod_cast left.trans right.symm

theorem map_getLsbD_ofInt (value : Int) (width : Nat) :
    (List.range width).map (BitVec.ofInt width value).getLsbD =
      (List.range width).map (digit value) := by
  rw [← map_digit_emod]
  have positive := weight_pos width
  have nonneg := Int.emod_nonneg value (by omega : (weight width : Int) ≠ 0)
  have digits : (BitVec.ofInt width value).getLsbD = digit (value % weight width) := by
    funext position
    rw [← BitVec.testBit_toNat, ← digit_natCast, BitVec.toNat_ofInt]
    congr 1
    exact Int.toNat_of_nonneg nonneg
  rw [digits]

/-- A number that needs `count` digits besides its sign has the sign at every position from there
on. -/
theorem digit_eq_digit_min {value : Int} {count : Nat} (lower : -(weight count : Int) ≤ value)
    (upper : value < weight count) (position : Nat) :
    digit value position = digit value (min position count) := by
  by_cases short : position ≤ count
  · rw [Nat.min_eq_left short]
  · rw [Nat.min_eq_right (by omega)]
    have larger : weight count ≤ weight position := weight_mono (by omega)
    have quotient (place : Nat) (le : weight count ≤ weight place) :
        value / weight place = if value < 0 then -1 else 0 := by
      split
      · rw [Int.ediv_eq_neg_one_of_neg_of_le (by omega) (by omega)]
      · exact Int.ediv_eq_zero_of_lt (by omega) (by omega)
    rw [digit, digit, quotient position larger, quotient count le_rfl]

end Digits

namespace IntRange

theorem bitwidth_of_ofBitwidth? {bitwidth : Nat} {range : IntRange}
    (ranged : ofBitwidth? bitwidth = .ok range) : range.bitwidth = bitwidth := by
  unfold ofBitwidth? at ranged
  split at ranged
  · cases ranged
    rfl
  · cases ranged

section

variable (range : IntRange)

theorem contains_iff (value : Int) : range.contains value = true ↔
    -(Digits.weight (range.bitwidth - 1) : Int) ≤ value ∧
      value < Digits.weight (range.bitwidth - 1) := by
  rw [contains, min, max, Bool.and_eq_true, decide_eq_true_iff, decide_eq_true_iff]
  omega

theorem wrap_of_contains {value : Int} (inside : range.contains value = true) :
    range.wrap value = value := by
  rcases (range.contains_iff value).mp inside with ⟨lower, upper⟩
  exact Digits.bmod_of_bounds range.one_le_bitwidth lower upper

theorem contains_wrap (value : Int) : range.contains (range.wrap value) = true :=
  (range.contains_iff _).mpr (Digits.bmod_bounds value range.one_le_bitwidth)

theorem wrap_eq_self_iff {value : Int} :
    range.wrap value = value ↔ range.contains value = true := by
  constructor
  · intro same
    rw [← same]
    exact range.contains_wrap value
  · exact range.wrap_of_contains

/-! Ranges and 64-bit words -/

theorem size_eq_double : range.size = 2 * Digits.weight (range.bitwidth - 1) := by
  rw [size, ← Digits.weight_succ, Nat.sub_add_cancel range.one_le_bitwidth]

theorem toInt_masked (value : Int) :
    (BitVec.ofInt 64 value &&& BitVec.ofInt 64 range.mask).toInt = value % range.size := by
  have positive : 0 < range.size := Digits.weight_pos range.bitwidth
  have small : range.size ≤ 2 ^ 32 := Nat.pow_le_pow_right (by decide) range.bitwidth_le
  have divides : range.size ∣ 2 ^ 64 :=
    Nat.pow_dvd_pow 2 (range.bitwidth_le.trans (by decide))
  have mask : (BitVec.ofInt 64 range.mask).toNat = range.size - 1 := by
    rw [BitVec.toNat_ofInt, mask, ← size]
    omega
  have masked : (BitVec.ofInt 64 value &&& BitVec.ofInt 64 range.mask).toNat =
      (BitVec.ofInt 64 value).toNat % range.size := by
    rw [BitVec.toNat_and, mask]
    exact Nat.and_two_pow_sub_one_eq_mod _ range.bitwidth
  have below := Nat.mod_lt (BitVec.ofInt 64 value).toNat positive
  rw [BitVec.toInt_eq_toNat_of_lt (by omega), masked, Int.natCast_mod, BitVec.toNat_ofInt]
  rw [Int.toNat_of_nonneg (Int.emod_nonneg value (by decide)), Int.emod_emod_of_dvd]
  exact Int.natCast_dvd_natCast.mpr divides

/-- Wrapping takes what the mask leaves, less the number of values if this is beyond the range. -/
theorem wrap_eq_masked (value : Int) :
    range.wrap value =
      let low := (BitVec.ofInt 64 value &&& BitVec.ofInt 64 range.mask).toInt
      if range.max < low then low - range.size else low := by
  have double := range.size_eq_double
  rw [toInt_masked, wrap, Int.bmod_def, max]
  dsimp only
  split <;> split <;> omega

end

theorem sum_eq_bmod (range : IntRange) (values : List Int) :
    range.sum values = Int.bmod values.sum range.size := by
  have general : ∀ total, values.foldl (fun total value => range.wrap (total + value))
      (Int.bmod total range.size) = Int.bmod (total + values.sum) range.size := by
    induction values with
    | nil => simp
    | cons first rest hypothesis =>
        intro total
        rw [List.foldl_cons, wrap, Int.bmod_add_bmod, hypothesis, List.sum_cons, add_assoc]
  have start := general 0
  rw [Int.zero_bmod, zero_add] at start
  exact start

theorem bitwise_eq (range : IntRange)
    (gate : BitVec range.bitwidth → BitVec range.bitwidth → BitVec range.bitwidth)
    (operation : Bool → Bool → Bool)
    (digitwise : ∀ left right position, (gate left right).getLsbD position =
      operation (left.getLsbD position) (right.getLsbD position)) (left right : Int) :
    range.bitwise gate left right = Digits.signed ((List.range range.bitwidth).map
      fun position => operation (Digits.digit left position) (Digits.digit right position)) := by
  rw [bitwise, Digits.toInt_eq_signed range.one_le_bitwidth]
  congr 1
  have leftDigits := Digits.map_getLsbD_ofInt left range.bitwidth
  have rightDigits := Digits.map_getLsbD_ofInt right range.bitwidth
  rw [List.map_inj_left] at leftDigits rightDigits
  apply List.map_congr_left
  intro position member
  rw [digitwise, leftDigits position member, rightDigits position member]

end IntRange

end ModelFinder
