import Mathlib
import ModelFinder.Text.Numeral
import ModelFinder.Proofs.Text.Pieces
/-!
Numerals. Reading gives back the number that was written in decimal digits, and a written number
is one word.
-/

namespace ModelFinder.Text

/-! Digits -/

theorem readDigits_toDigits (value : Nat) : readDigits (Nat.toDigits 10 value) = some value := by
  have digits : (Nat.toDigits 10 value).any (fun digit => !digit.isDigit) = false := by
    simp only [List.any_eq_false, Bool.not_eq_true', Bool.not_eq_false]
    exact fun digit => Nat.isDigit_of_mem_toDigits (by decide) (by decide)
  have folded := Nat.ofDigitChars_ten_toDigits (n := value)
  rw [Nat.ofDigitChars_eq_foldl] at folded
  rw [readDigits, digits, if_neg (by simp)]
  simpa only [Nat.mul_comm] using congrArg some folded

theorem isBlank_of_isDigit {digit : Char} (isDigit : digit.isDigit = true) :
    isBlank digit = false := by
  simp only [Char.isDigit, Bool.and_eq_true, decide_eq_true_iff, UInt32.le_iff_toNat_le] at isDigit
  have bounds : 48 ≤ digit.toNat ∧ digit.toNat ≤ 57 := isDigit
  simp only [isBlank, Bool.or_eq_false_iff, Bool.and_eq_false_iff, decide_eq_false_iff_not,
    beq_eq_false_iff_ne]
  omega

theorem isWord_toDigits (value : Nat) : IsWord (Nat.toDigits 10 value) where
  nonempty := Nat.toDigits_ne_nil
  unbroken _ member := isBlank_of_isDigit
    (Nat.isDigit_of_mem_toDigits (by decide) (by decide) member)

/-! Written numbers -/

theorem toList_natCast (value : Nat) : (toString value).toList = Nat.toDigits 10 value := by
  rw [Nat.toString_eq_repr, Nat.toList_repr]

theorem toList_toString (value : Int) : (toString value).toList =
    if value < 0 then '-' :: Nat.toDigits 10 value.natAbs else Nat.toDigits 10 value.natAbs := by
  change value.repr.toList = _
  cases value with
  | ofNat value =>
      rw [if_neg (by simp)]
      exact Nat.toList_repr
  | negSucc value =>
      rw [if_pos (Int.negSucc_lt_zero value)]
      change ("-" ++ (value + 1).repr).toList = _
      rw [String.toList_append, Nat.toList_repr]
      rfl

theorem isWord_natCast (value : Nat) : IsWord (toString value).toList := by
  rw [toList_natCast]
  exact isWord_toDigits value

theorem isWord_toString (value : Int) : IsWord (toString value).toList := by
  have digits := isWord_toDigits value.natAbs
  rw [toList_toString]
  split
  · exact ⟨List.cons_ne_nil _ _, List.forall_mem_cons.mpr ⟨by decide, digits.unbroken⟩⟩
  · exact digits

theorem readDigits_natCast (value : Nat) : readDigits (toString value).toList = some value := by
  rw [toList_natCast, readDigits_toDigits]

theorem readInt_toDigits (value : Nat) :
    readInt (Nat.toDigits 10 value) = some (value : Int) := by
  have first : ∀ digit ∈ (Nat.toDigits 10 value).head?, digit.isDigit = true :=
    fun digit isFirst => Nat.isDigit_of_mem_toDigits (by decide) (by decide)
      (List.mem_of_mem_head? isFirst)
  have digits := readDigits_toDigits value
  generalize Nat.toDigits 10 value = text at first digits ⊢
  rw [readInt.eq_def]
  split
  · exact absurd (first '-' rfl) (by decide)
  · exact absurd (first '+' rfl) (by decide)
  · rw [digits, Option.map_some]

theorem readInt_toString (value : Int) : readInt (toString value).toList = some value := by
  rw [toList_toString]
  split
  · rw [readInt, readDigits_toDigits, Option.map_some]
    congr 1
    omega
  · rw [readInt_toDigits]
    congr 1
    omega

theorem readInt32_toString {value : Int} (lower : -(Digits.weight 31 : Int) ≤ value)
    (upper : value < Digits.weight 31) : readInt32 (toString value).toList = some value := by
  rw [readInt32, readInt_toString, Option.filter_some, if_pos]
  simp [lower, upper]

end ModelFinder.Text
