import Mathlib
import ModelFinder.Proofs.Circuit.Arithmetic
/-!
Division of words of different widths. The narrower word is extended by its highest digit, which
is right for a number with a sign but not for its magnitude. The quotient is therefore missed
exactly where the magnitude of the narrower word fills all its digits and the extension counts:
by the smallest divisor of a narrower word, into which every dividend that is at least as large is
divided zero times, and for the smallest dividend of a narrower word, from which every larger
divisor is taken away once.
-/

namespace ModelFinder

namespace Digits

private theorem bmod_ne_zero {value : Int} {size : Nat} (nonzero : value ≠ 0)
    (small : value.natAbs < size) : Int.bmod value size ≠ 0 := by
  intro none
  have divides := Int.natAbs_dvd_natAbs.mpr (Int.dvd_of_bmod_eq_zero none)
  rw [Int.natAbs_natCast] at divides
  exact absurd (Nat.le_of_dvd (Int.natAbs_pos.mpr nonzero) divides) (not_le.mpr small)

/-- Where division is missed, the quotient that it gives does not become right by wrapping: one
of it and the right quotient is zero and the other one is not. -/
theorem bmod_quotient_eq_iff {width other : Nat} (positive : 0 < width) {dividend divisor : Int}
    (lower : -(weight (width - 1) : Int) ≤ dividend) (upper : dividend < weight (width - 1))
    (nonzero : divisor ≠ 0) :
    Int.bmod (quotient width other dividend divisor) (weight width) =
        Int.bmod (dividend.tdiv divisor) (weight width) ↔
      ¬ Misdivided width other dividend divisor := by
  have half := weight_pos (width - 1)
  have double := weight_eq_double positive
  have magnitude : (dividend.tdiv divisor).natAbs = dividend.natAbs / divisor.natAbs :=
    Int.natAbs_tdiv dividend divisor
  refine ⟨fun equal missed => ?_, fun right => by rw [quotient_of_not right]⟩
  rw [quotient, if_pos missed] at equal
  rcases missed with ⟨narrower, -, fits⟩ | ⟨wider, -, larger⟩
  · rw [if_pos narrower, Int.zero_bmod] at equal
    have some : 0 < dividend.natAbs / divisor.natAbs :=
      Nat.div_pos fits (Int.natAbs_pos.mpr nonzero)
    have few := Nat.div_le_self dividend.natAbs divisor.natAbs
    exact bmod_ne_zero (by omega) (by omega) equal.symm
  · have none : dividend.tdiv divisor = 0 := by
      rw [← Int.natAbs_eq_zero, magnitude, Nat.div_eq_of_lt larger]
    have one := Int.natAbs_sign_of_ne_zero nonzero
    rw [if_neg wider.not_gt, none, Int.zero_bmod] at equal
    exact bmod_ne_zero (by omega) (by omega) equal

end Digits

namespace Circuit

variable {primary width : Nat} {circuit : Circuit} {made : List Bit}
  {performed : List (Task × Except Error Value)}

/-- Quotient and remainder of words of any widths. -/
theorem History.divides_across (history : History primary width circuit made performed)
    {left right : Word} (leftMade : left.bits ⊆ made) (rightMade : right.bits ⊆ made)
    (assignment : Nat → Bool) (nonzero : right.eval assignment ≠ 0) :
    let dividend := left.eval assignment
    let divisor := right.eval assignment
    let size := Digits.weight left.width
    let quotient := (left.divide right circuit).1
    let remainder := (left.modulo right circuit).1
    let neverFits := right.width < left.width ∧ divisor = -Digits.weight (right.width - 1) ∧
      divisor.natAbs ≤ dividend.natAbs
    let fitsOnce := left.width < right.width ∧ dividend = -Digits.weight (left.width - 1) ∧
      dividend.natAbs < divisor.natAbs
    (quotient.width = left.width ∧ remainder.width = left.width) ∧
    (¬ neverFits → ¬ fitsOnce →
      quotient.eval assignment = Int.bmod (dividend.tdiv divisor) size ∧
      remainder.eval assignment = Int.bmod (dividend - divisor * dividend.tdiv divisor) size) ∧
    (neverFits → quotient.eval assignment = 0 ∧ remainder.eval assignment = dividend) ∧
    (fitsOnce → quotient.eval assignment = Int.bmod (-divisor.sign) size ∧
      remainder.eval assignment = Int.bmod (dividend + divisor.natAbs) size) ∧
    (quotient.eval assignment = Int.bmod (dividend.tdiv divisor) size ↔
      ¬ neverFits ∧ ¬ fitsOnce) := by
  intro dividend divisor size quotient remainder neverFits fitsOnce
  have bounds := left.eval_bounds assignment
  have divided := history.yields leftMade rightMade Build.divide_quotient_yields
  have leftOver := history.yields leftMade rightMade Build.modulo_quotient_yields
  have quotientValue : quotient.eval assignment =
      Int.bmod (Digits.quotient left.width right.width dividend divisor) size :=
    divided.2.2 assignment nonzero
  have remainderValue : remainder.eval assignment = Int.bmod
      (dividend - divisor * Digits.quotient left.width right.width dividend divisor) size :=
    leftOver.2.2 assignment nonzero
  refine ⟨⟨divided.2.1, leftOver.2.1⟩, fun fits many => ?_, fun never => ?_, fun once => ?_, ?_⟩
  · rw [quotientValue, remainderValue, Digits.quotient_of_not (not_or.mpr ⟨fits, many⟩)]
    exact ⟨rfl, rfl⟩
  · have none : Digits.quotient left.width right.width dividend divisor = 0 := by
      rw [Digits.quotient, if_pos (.inl never), if_pos never.1]
    rw [quotientValue, remainderValue, none, Int.zero_bmod, mul_zero, sub_zero]
    exact ⟨rfl, left.bmod_eval assignment⟩
  · have one : Digits.quotient left.width right.width dividend divisor = -divisor.sign := by
      rw [Digits.quotient, if_pos (.inr once), if_neg once.1.not_gt]
    rw [quotientValue, remainderValue, one, mul_neg, sub_neg_eq_add, Int.mul_sign_self]
    exact ⟨rfl, rfl⟩
  · rw [quotientValue, ← not_or]
    exact Digits.bmod_quotient_eq_iff left.width_pos bounds.1 bounds.2 nonzero

theorem History.divides_across_thirds :
    let left : Word := .ofBits [.var 1, .var 2, .var 3, .var 4]
    let right : Word := .ofBits [.var 5, .var 6, .var 7]
    let assignment (label : Nat) : Bool := [4, 5, 6].contains label
    left.eval assignment = -8 ∧ right.eval assignment = 3 ∧
      (left.divide right (empty 7 4)).1.eval assignment = -2 ∧
      (left.modulo right (empty 7 4)).1.eval assignment = -2 := by
  intro left right assignment
  have history := ofVariables (by decide : 7 < 2147483647) 4 (le_refl 7)
  have leftMade : left.bits ⊆ firstVariables 7 := by simp [left, firstVariables]
  have rightMade : right.bits ⊆ firstVariables 7 := by simp [right, firstVariables]
  have divided := (history.divides_across leftMade rightMade assignment (by decide)).2.1
    (by decide) (by decide)
  exact ⟨by decide, by decide, divided.1.trans (by decide), divided.2.trans (by decide)⟩

/-- The number 7 of four bits is divided by the smallest number of two bits, -2, zero times and
not -3 times; the smallest number of two bits is divided by 3, given in three bits, -1 times and
not zero times. -/
theorem divides_across_missed :
    let wide := Word.constant 7 4
    let narrow := Word.constant (-2) 2
    let third := Word.constant 3 3
    let valuation (word : Word) : Int := word.eval fun _ => false
    (valuation wide = 7 ∧ valuation narrow = -2 ∧ valuation third = 3) ∧
      valuation (wide.divide narrow (empty 0 4)).1 = 0 ∧
      valuation (wide.modulo narrow (empty 0 4)).1 = 7 ∧
      Int.bmod ((7 : Int).tdiv (-2)) (Digits.weight 4) = -3 ∧
      valuation (narrow.divide third (empty 0 4)).1 = -1 ∧
      valuation (narrow.modulo third (empty 0 4)).1 = 1 ∧
      Int.bmod ((-2 : Int).tdiv 3) (Digits.weight 2) = 0 := by
  decide +kernel

end Circuit

end ModelFinder
