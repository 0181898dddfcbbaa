import Mathlib
import ModelFinder.Proofs.IntRange
import ModelFinder.Proofs.Circuit.Word.Basic
/-!
Constant words. A word of constants and a number of its width's range determine each other, so
circuits and ranges represent the same numbers.
-/

namespace ModelFinder

theorem Bit.eq_const_of_isConst {bit : Bit} (constant : bit.isConst = true)
    (assignment : Nat → Bool) : bit = .const (bit.eval assignment) := by
  rcases Option.isSome_iff_exists.mp constant with ⟨value, isValue⟩
  rw [Bit.eq_const_of_const? isValue, Bit.eval]

namespace Word

/-! Words of constants -/

theorem bits_constant (value : Int) {width : Nat} (positive : 0 < width) :
    (constant value width).bits = constantBits value width :=
  bits_ofBits (constantBits_ne_nil value positive)

theorem isConst_constant (value : Int) {width : Nat} (positive : 0 < width) :
    (constant value width).isConst = true := by
  rw [isConst, bits_constant value positive, constantBits, List.all_map]
  exact List.all_eq_true.mpr fun _ _ => rfl

/-- Of a number that 64 bits can hold, no digit beyond their sign is looked at. -/
theorem constantBits_eq_of_bounds {value : Int} (lower : -(Digits.weight 63 : Int) ≤ value)
    (upper : value < Digits.weight 63) (width : Nat) :
    constantBits value width =
      (List.range width).map fun position => .const (Digits.digit value (min position 63)) :=
  List.map_congr_left fun position _ => by rw [Digits.digit_eq_digit_min lower upper position]

section

variable {word : Word} (constants : word.isConst = true) (assignment : Nat → Bool)

include constants

theorem bits_of_isConst :
    word.bits = word.bits.map fun bit => Bit.const (bit.eval assignment) := by
  conv_lhs => rw [← List.map_id word.bits]
  apply List.map_congr_left
  intro bit member
  exact Bit.eq_const_of_isConst (List.all_eq_true.mp constants bit member) assignment

theorem eq_constant_of_isConst : word = constant (word.eval assignment) word.width := by
  have digits := Digits.eq_map_digit (word.map_eval_ne_nil assignment)
  have same : word.bits = constantBits (word.eval assignment) word.width := by
    calc word.bits
        = (word.bits.map (Bit.eval assignment)).map Bit.const := by
          rw [List.map_map]
          exact bits_of_isConst constants assignment
      _ = constantBits (word.eval assignment) word.width := by
          rw [digits, List.length_map, List.map_map]
          rfl
  rw [constant, ofBits_eq (same ▸ word.bits_ne_nil)]
  cases word
  exact Word.mk.injEq .. |>.mpr same

/-- The value of a word of constants, if it is no wider than a range may be. -/
theorem value?_of_isConst (narrow : word.width ≤ 32) :
    word.value? = .ok (some (word.eval assignment)) := by
  have digits : word.bits.map Bit.isTrue = word.bits.map (Bit.eval assignment) :=
    List.map_congr_left fun bit member => by
      rw [Bit.eq_const_of_isConst (List.all_eq_true.mp constants bit member) assignment]
      cases bit.eval assignment <;> rfl
  have bounds := word.eval_bounds assignment
  have larger : Digits.weight (word.width - 1) ≤ Digits.weight (32 - 1) :=
    Digits.weight_mono (by omega)
  have wrapped : Int.bmod (word.eval assignment) (Digits.weight 32) = word.eval assignment :=
    Digits.bmod_of_bounds (by decide) (by omega) (by omega)
  have short : (word.bits.map (Bit.eval assignment)).drop 64 = [] :=
    List.drop_eq_nil_of_le (by rw [List.length_map]; exact narrow.trans (by decide))
  have narrower : (word.sign.isTrue && decide (63 ≤ word.width)) = false := by
    rw [decide_eq_false (by omega), Bool.and_false]
  rw [value?, constants]
  dsimp only
  rw [digits, short, narrower]
  exact congrArg (fun value => Except.ok (some value)) wrapped

end

/-! Words read beyond their width -/

theorem map_bit_range (word : Word) (width : Nat) :
    (List.range width).map word.bit = word.extendedBits width := by
  apply List.ext_getElem
  · rw [List.length_map, List.length_range, length_extendedBits]
  · intro position below _
    rw [List.length_map, List.length_range] at below
    rw [List.getElem_map, List.getElem_range, bit]
    simp only [extendedBits]
    have length : word.bits.length = word.width := rfl
    by_cases inside : position < word.width
    · have taken : position < (word.bits.take width).length := by
        rw [List.length_take]
        omega
      rw [List.getElem_append_left taken, List.getElem_take, List.getElem?_eq_getElem inside]
      rfl
    · have beyond : (word.bits.take width).length ≤ position := by
        rw [List.length_take]
        omega
      rw [List.getElem_append_right beyond, List.getElem_replicate,
        List.getElem?_eq_none (not_lt.mp inside)]
      rfl

theorem signed_map_bit (word : Word) (assignment : Nat → Bool) {width : Nat}
    (le : word.width ≤ width) :
    Digits.signed ((List.range width).map fun position => (word.bit position).eval assignment) =
      word.eval assignment := by
  have read : (List.range width).map (fun position => (word.bit position).eval assignment) =
      (word.extendedBits width).map (Bit.eval assignment) := by
    rw [← map_bit_range, List.map_map]
    rfl
  rw [read, signed_extendedBits_of_le assignment word le]

end Word

/-! Words and ranges -/

theorem IntRange.ofBitwidth?_eq {bitwidth : Nat} (positive : 1 ≤ bitwidth)
    (small : bitwidth ≤ 32) : ofBitwidth? bitwidth = .ok ⟨bitwidth, positive, small⟩ :=
  dif_pos ⟨positive, small⟩

theorem IntRange.value?_constant (range : IntRange) (value : Int) :
    (Word.constant value range.bitwidth).value? = .ok (some (range.wrap value)) := by
  have positive := range.one_le_bitwidth
  have constants := Word.isConst_constant value positive
  have narrow : (Word.constant value range.bitwidth).width ≤ 32 := by
    rw [Word.width_constant value positive]
    exact range.bitwidth_le
  rw [Word.value?_of_isConst constants (fun _ => false) narrow,
    Word.eval_constant _ value positive]
  rfl

theorem IntRange.eq_constant_of_value? (range : IntRange) {word : Word}
    (constants : word.isConst = true) (width : word.width = range.bitwidth) :
    ∃ value, word.value? = .ok (some value) ∧ range.contains value = true ∧
      word = Word.constant value range.bitwidth := by
  have narrow : word.width ≤ 32 := width ▸ range.bitwidth_le
  have bounds := word.eval_bounds fun _ => false
  refine ⟨_, Word.value?_of_isConst constants (fun _ => false) narrow, ?_, ?_⟩
  · rw [contains_iff, ← width]
    exact bounds
  · rw [← width]
    exact Word.eq_constant_of_isConst constants _

/-- Ranges and constant words represent the same numbers. Wrapping, also as it is done on 64-bit
words, gives the member of the range that is congruent to a number, and the number's word has this
value; every word of constants is the word of its value. Words of any width stand for their number,
wrapped to the width, though no digit of a 64-bit number beyond its sign is read, and reading a word
beyond its width changes nothing. -/
theorem representations_agree :
    (∀ bitwidth, 1 ≤ bitwidth → bitwidth ≤ 32 →
      ∃ range, IntRange.ofBitwidth? bitwidth = .ok range ∧ range.bitwidth = bitwidth ∧
        (∀ value : Int,
          range.min ≤ range.wrap value ∧ range.wrap value ≤ range.max ∧
          range.wrap value ≡ value [ZMOD Digits.weight bitwidth] ∧
          (range.wrap value = value ↔ range.contains value = true) ∧
          (range.wrap value =
            let low := (BitVec.ofInt 64 value &&& BitVec.ofInt 64 range.mask).toInt
            if range.max < low then low - range.size else low) ∧
          (Word.constant value bitwidth).value? = .ok (some (range.wrap value))) ∧
        ∀ word : Word, word.isConst = true → word.width = bitwidth →
          ∃ value, word.value? = .ok (some value) ∧ range.contains value = true ∧
            word = Word.constant value bitwidth) ∧
    (∀ width, 1 ≤ width → ∀ value : Int,
      (Word.constant value width).width = width ∧
      (∀ assignment, (Word.constant value width).eval assignment =
        Int.bmod value (Digits.weight width)) ∧
      (-(Digits.weight 63 : Int) ≤ value → value < Digits.weight 63 →
        (Word.constant value width).bits = (List.range width).map fun position =>
          .const (Digits.digit value (min position 63)))) ∧
    ∀ (word : Word) (assignment : Nat → Bool) (width : Nat), word.width ≤ width →
      Digits.signed ((List.range width).map fun position =>
        (word.bit position).eval assignment) = word.eval assignment := by
  refine ⟨fun bitwidth positive small => ?_, fun width positive value => ?_,
    fun word assignment width le => word.signed_map_bit assignment le⟩
  · let range : IntRange := ⟨bitwidth, positive, small⟩
    refine ⟨range, IntRange.ofBitwidth?_eq positive small, rfl, fun value => ?_,
      fun word constants width => range.eq_constant_of_value? constants width⟩
    have inside := range.contains_wrap value
    rw [IntRange.contains, Bool.and_eq_true, decide_eq_true_iff, decide_eq_true_iff] at inside
    exact ⟨inside.1, inside.2, Int.bmod_emod, range.wrap_eq_self_iff, range.wrap_eq_masked value,
      range.value?_constant value⟩
  · refine ⟨Word.width_constant value positive,
      fun assignment => Word.eval_constant assignment value positive, fun lower upper => ?_⟩
    rw [Word.bits_constant value positive, Word.constantBits_eq_of_bounds lower upper]

theorem representations_agree_bytes :
    (∃ range, IntRange.ofBitwidth? 8 = .ok range ∧ range.contains (-56) = true ∧
      range.wrap 200 ≡ 200 [ZMOD 256] ∧
      (Word.constant 200 8).value? = .ok (some (range.wrap 200))) ∧
    (Word.constant (-5) 70).eval (fun _ => false) = -5 ∧
    Digits.signed ((List.range 100).map fun position =>
      ((Word.constant (-5) 70).bit position).eval fun _ => false) = -5 := by
  rcases representations_agree with ⟨ranges, constants, extended⟩
  have positive : 1 ≤ 70 := by decide
  have number : (Word.constant (-5) 70).eval (fun _ => false) = -5 :=
    ((constants 70 positive (-5)).2.1 _).trans (by decide)
  rcases ranges 8 (by decide) (by decide) with ⟨range, isRange, width, values, -⟩
  refine ⟨⟨range, isRange, ?_, (values 200).2.2.1, (values 200).2.2.2.2.2⟩, number, ?_⟩
  · cases isRange
    decide
  · have le : (Word.constant (-5) 70).width ≤ 100 := by
      rw [(constants 70 positive (-5)).1]
      decide
    exact (extended _ _ 100 le).trans number

end ModelFinder
