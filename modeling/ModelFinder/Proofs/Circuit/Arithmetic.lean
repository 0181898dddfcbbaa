import Mathlib
import ModelFinder.Proofs.Circuit.History
import ModelFinder.Proofs.Circuit.Word.Comparison
import ModelFinder.Proofs.Circuit.Word.Division
import ModelFinder.Proofs.Circuit.Word.Multiplication
import ModelFinder.Proofs.Circuit.Word.Shift
/-!
Arithmetic of words whose bits were made with a circuit: constants, variables and results of
any earlier tasks. Under every assignment of the variables sums, products, quotients and shifted
words stand for the sums, products, quotients and shifted values of the numbers that the operands
stand for, wrapped to the width of the wider operand of a sum and of the first operand otherwise.
Comparisons hold where they hold of the numbers.
-/

namespace ModelFinder

/-! Opposites, quotients and remainders of a width -/

namespace Digits

/-- The smallest number of a width has no opposite. -/
theorem bmod_opposite {width : Nat} (positive : 0 < width) :
    Int.bmod (weight (width - 1)) (weight width) = -weight (width - 1) := by
  rcases Nat.exists_eq_succ_of_ne_zero positive.ne' with ⟨rest, rfl⟩
  have half := weight_pos rest
  rw [Nat.succ_eq_add_one, Nat.add_sub_cancel, weight_succ, Int.bmod_def,
    Int.emod_eq_of_lt (by omega) (by push_cast; omega), if_neg (by push_cast; omega)]
  push_cast
  ring

section

variable {width : Nat} (positive : 0 < width) {value : Int}
  (lower : -(weight (width - 1) : Int) ≤ value) (upper : value < weight (width - 1))

include positive lower upper

theorem bmod_neg : Int.bmod (-value) (weight width) =
    if value = -weight (width - 1) then -(weight (width - 1) : Int) else -value := by
  split
  · rename_i smallest
    rw [smallest, neg_neg]
    exact bmod_opposite positive
  · exact bmod_of_bounds positive (by omega) (by omega)

theorem bmod_natAbs : Int.bmod value.natAbs (weight width) =
    if value = -weight (width - 1) then -(weight (width - 1) : Int) else value.natAbs := by
  have half := weight_pos (width - 1)
  by_cases negative : value < 0
  · rw [Int.ofNat_natAbs_of_nonpos negative.le]
    exact bmod_neg positive lower upper
  · rw [if_neg (by omega), Int.natAbs_of_nonneg (by omega)]
    exact bmod_of_bounds positive lower upper

end

/-- A quotient of numbers of a width is one of them, unless the smallest is negated. -/
theorem bmod_tdiv {width : Nat} (positive : 0 < width) {dividend divisor : Int}
    (lower : -(weight (width - 1) : Int) ≤ dividend) (upper : dividend < weight (width - 1))
    (nonzero : divisor ≠ 0) :
    Int.bmod (dividend.tdiv divisor) (weight width) =
      if dividend = -weight (width - 1) ∧ divisor = -1 then dividend
      else dividend.tdiv divisor := by
  have half := weight_pos (width - 1)
  have magnitude : (dividend.tdiv divisor).natAbs = dividend.natAbs / divisor.natAbs :=
    Int.natAbs_tdiv dividend divisor
  by_cases opposite : divisor = -1
  · subst opposite
    rw [Int.tdiv_neg, Int.tdiv_one, bmod_neg positive lower upper]
    exact ite_congr (by simp) (fun smallest => smallest.1.symm) fun _ => rfl
  · rw [if_neg fun both => opposite both.2]
    by_cases one : divisor = 1
    · rw [one, Int.tdiv_one]
      exact bmod_of_bounds positive lower upper
    · -- Any other divisor at least halves the dividend.
      have halved : dividend.natAbs / divisor.natAbs ≤ dividend.natAbs / 2 :=
        Nat.div_le_div_left (by omega) (by decide)
      exact bmod_of_bounds positive (by omega) (by omega)

theorem bmod_tmod {width : Nat} (positive : 0 < width) (dividend : Int) {divisor : Int}
    (lower : -(weight (width - 1) : Int) ≤ divisor) (upper : divisor < weight (width - 1))
    (nonzero : divisor ≠ 0) :
    Int.bmod (dividend.tmod divisor) (weight width) = dividend.tmod divisor := by
  have magnitude := Int.natAbs_tmod dividend divisor
  have smaller := Nat.mod_lt dividend.natAbs (Int.natAbs_pos.mpr nonzero)
  exact bmod_of_bounds positive (by omega) (by omega)

end Digits

namespace Circuit

variable {primary width : Nat} {circuit : Circuit} {made : List Bit}
  {performed : List (Task × Except Error Value)}

/-- What a computation on words of bits that were made with a circuit yields. -/
theorem History.yields (history : History primary width circuit made performed) {left right : Word}
    (leftMade : left.bits ⊆ made) (rightMade : right.bits ⊆ made) {α : Type} {action : Build α}
    {post : α → Circuit → Prop}
    (yields : circuit.KnowsWord left → circuit.KnowsWord right →
      Build.Yields circuit action post) :
    post (action circuit).1 (action circuit).2 :=
  (yields (history.knowsAll leftMade) (history.knowsAll rightMade) history.sound.valid).2.2

/-! Words of variables -/

/-- The first variables of a circuit, the last one first. -/
def firstVariables : Nat → List Bit
  | 0 => []
  | count + 1 => .var (count + 1) :: firstVariables count

theorem History.ofVariables (small : primary < 2147483647) (width : Nat) {count : Nat}
    (offered : count ≤ primary) :
    History primary width (empty primary width) (firstVariables count) [] := by
  induction count with
  | zero => exact .start (empty?_of_lt small width)
  | succ count history =>
      exact (history (by omega)).var (var?_of_le (by omega) offered (small.trans (by decide)))

/-! Addition -/

/-- Sums and differences of words of any widths, and what negation, magnitude and sign make of a
word. The smallest number of a width has no opposite and is its own magnitude. -/
theorem History.adds (history : History primary width circuit made performed)
    {left right : Word} (leftMade : left.bits ⊆ made) (rightMade : right.bits ⊆ made)
    (assignment : Nat → Bool) :
    let first := left.eval assignment
    let second := right.eval assignment
    let wider := max left.width right.width
    let smallest : Int := -Digits.weight (left.width - 1)
    let sum := (left.plus right circuit).1
    let difference := (left.minus right circuit).1
    let opposite := (left.negate circuit).1
    let magnitude := (left.abs circuit).1
    let sign := (left.sgn circuit).1
    (sum.width = wider ∧
      sum.eval assignment = Int.bmod (first + second) (Digits.weight wider)) ∧
    (difference.width = wider ∧
      difference.eval assignment = Int.bmod (first - second) (Digits.weight wider)) ∧
    (opposite.width = left.width ∧
      opposite.eval assignment = Int.bmod (-first) (Digits.weight left.width) ∧
      opposite.eval assignment = if first = smallest then smallest else -first) ∧
    (magnitude.width = left.width ∧
      magnitude.eval assignment = Int.bmod first.natAbs (Digits.weight left.width) ∧
      magnitude.eval assignment = if first = smallest then smallest else first.natAbs) ∧
    sign.width = left.width ∧ sign.eval assignment = first.sign := by
  intro first second wider smallest sum difference opposite magnitude sign
  have bounds := left.eval_bounds assignment
  have added := history.yields leftMade rightMade Build.plus_computes
  have taken := history.yields leftMade rightMade Build.minus_computes
  have negated := history.yields leftMade leftMade fun known _ => Build.negate_computes known
  have absolute := history.yields leftMade leftMade fun known _ => Build.abs_computes known
  have signed := history.yields leftMade leftMade fun known _ => Build.sgn_computes known
  have oppositeValue : opposite.eval assignment = _ := negated.2.2 assignment
  have magnitudeValue : magnitude.eval assignment = _ := absolute.2.2 assignment
  refine ⟨⟨added.2.1, added.2.2 assignment⟩, ⟨taken.2.1, taken.2.2 assignment⟩,
    ⟨negated.2.1, oppositeValue, ?_⟩, ⟨absolute.2.1, magnitudeValue, ?_⟩, signed.2.1,
    signed.2.2 assignment⟩
  · rw [oppositeValue]
    exact Digits.bmod_neg left.width_pos bounds.1 bounds.2
  · rw [magnitudeValue]
    exact Digits.bmod_natAbs left.width_pos bounds.1 bounds.2

theorem History.adds_smallest :
    let left : Word := .ofBits [.var 1, .var 2, .var 3, .var 4]
    let right : Word := .ofBits [.var 5, .var 6]
    let assignment (label : Nat) : Bool := [4, 6].contains label
    left.eval assignment = -8 ∧ right.eval assignment = -2 ∧
      (left.plus right (empty 6 4)).1.eval assignment = 6 ∧
      (left.minus right (empty 6 4)).1.eval assignment = -6 ∧
      (left.negate (empty 6 4)).1.eval assignment = -8 ∧
      (left.abs (empty 6 4)).1.eval assignment = -8 ∧
      (left.sgn (empty 6 4)).1.eval assignment = -1 := by
  intro left right assignment
  have history := ofVariables (by decide : 6 < 2147483647) 4 (le_refl 6)
  have leftMade : left.bits ⊆ firstVariables 6 := by simp [left, firstVariables]
  have rightMade : right.bits ⊆ firstVariables 6 := by simp [right, firstVariables]
  obtain ⟨sum, difference, opposite, magnitude, sign⟩ :=
    history.adds leftMade rightMade assignment
  exact ⟨by decide, by decide, sum.2.trans (by decide), difference.2.trans (by decide),
    opposite.2.1.trans (by decide), magnitude.2.1.trans (by decide), sign.2.trans (by decide)⟩

/-! Comparison -/

/-- Comparisons of words of any widths are the comparisons of the numbers. -/
theorem History.compares (history : History primary width circuit made performed)
    {left right : Word} (leftMade : left.bits ⊆ made) (rightMade : right.bits ⊆ made)
    (assignment : Nat → Bool) :
    let first := left.eval assignment
    let second := right.eval assignment
    (left.eq right circuit).1.eval assignment = decide (first = second) ∧
    (left.lt right circuit).1.eval assignment = decide (first < second) ∧
    (left.lte right circuit).1.eval assignment = decide (first ≤ second) ∧
    (left.gt right circuit).1.eval assignment = decide (first > second) ∧
    (left.gte right circuit).1.eval assignment = decide (first ≥ second) := by
  intro first second
  have equal := history.yields leftMade rightMade Build.eq_computes
  have less := history.yields leftMade rightMade Build.lt_computes
  have atMost := history.yields leftMade rightMade Build.lte_computes
  have greater := history.yields leftMade rightMade Build.gt_computes
  have atLeast := history.yields leftMade rightMade Build.gte_computes
  exact ⟨equal.2 assignment, less.2 assignment, atMost.2 assignment, greater.2 assignment,
    atLeast.2 assignment⟩

theorem History.compares_negative :
    let left : Word := .ofBits [.var 1, .var 2, .var 3, .var 4]
    let right : Word := .ofBits [.var 5, .var 6]
    let assignment (label : Nat) : Bool := [1, 4, 6].contains label
    left.eval assignment = -7 ∧ right.eval assignment = -2 ∧
      (left.eq right (empty 6 4)).1.eval assignment = false ∧
      (left.lt right (empty 6 4)).1.eval assignment = true ∧
      (left.lte right (empty 6 4)).1.eval assignment = true ∧
      (left.gt right (empty 6 4)).1.eval assignment = false ∧
      (left.gte right (empty 6 4)).1.eval assignment = false := by
  intro left right assignment
  have history := ofVariables (by decide : 6 < 2147483647) 4 (le_refl 6)
  have leftMade : left.bits ⊆ firstVariables 6 := by simp [left, firstVariables]
  have rightMade : right.bits ⊆ firstVariables 6 := by simp [right, firstVariables]
  obtain ⟨equal, less, atMost, greater, atLeast⟩ :=
    history.compares leftMade rightMade assignment
  exact ⟨by decide, by decide, equal.trans (by decide), less.trans (by decide),
    atMost.trans (by decide), greater.trans (by decide), atLeast.trans (by decide)⟩

/-! Division -/

/-- Division of words of one width: the quotient is truncated toward zero and wrapped, which
changes it only where the smallest number is divided by -1, and the remainder is what truncation
leaves, of the dividend's sign. -/
theorem History.divides (history : History primary width circuit made performed)
    {left right : Word} (leftMade : left.bits ⊆ made) (rightMade : right.bits ⊆ made)
    (same : left.width = right.width) (assignment : Nat → Bool)
    (nonzero : right.eval assignment ≠ 0) :
    let dividend := left.eval assignment
    let divisor := right.eval assignment
    let quotient := (left.divide right circuit).1
    let remainder := (left.modulo right circuit).1
    let smallest : Int := -Digits.weight (left.width - 1)
    (quotient.width = left.width ∧
      quotient.eval assignment =
        Int.bmod (dividend.tdiv divisor) (Digits.weight left.width) ∧
      quotient.eval assignment =
        if dividend = smallest ∧ divisor = -1 then smallest else dividend.tdiv divisor) ∧
    remainder.width = left.width ∧
    remainder.eval assignment = dividend - divisor * dividend.tdiv divisor ∧
    (remainder.eval assignment ≠ 0 → (remainder.eval assignment).sign = dividend.sign) := by
  intro dividend divisor quotient remainder smallest
  have dividendBounds := left.eval_bounds assignment
  have divisorBounds := right.eval_bounds assignment
  rw [← same] at divisorBounds
  have divided := history.yields leftMade rightMade fun leftKnown rightKnown =>
    Build.divide_yields leftKnown rightKnown same
  have leftOver := history.yields leftMade rightMade fun leftKnown rightKnown =>
    Build.modulo_yields leftKnown rightKnown same
  have wrapped : quotient.eval assignment =
      Int.bmod (dividend.tdiv divisor) (Digits.weight left.width) :=
    divided.2.2 assignment nonzero
  have exactRemainder : remainder.eval assignment = dividend.tmod divisor :=
    (leftOver.2.2 assignment nonzero).trans
      (Digits.bmod_tmod left.width_pos dividend divisorBounds.1 divisorBounds.2 nonzero)
  refine ⟨⟨divided.2.1, wrapped, ?_⟩, leftOver.2.1, ?_, fun rest => ?_⟩
  · rw [wrapped, Digits.bmod_tdiv left.width_pos dividendBounds.1 dividendBounds.2 nonzero]
    exact ite_congr rfl (fun both => both.1) fun _ => rfl
  · rw [exactRemainder, Int.tmod_def]
  · rw [exactRemainder] at rest ⊢
    rw [Int.sign_tmod, if_neg fun divides => rest (Int.tmod_eq_zero_of_dvd divides)]

theorem History.divides_smallest :
    let left : Word := .ofBits [.var 1, .var 2, .var 3, .var 4]
    let right : Word := .ofBits [.var 5, .var 6, .var 7, .var 8]
    let assignment (label : Nat) : Bool := decide (4 ≤ label)
    left.eval assignment = -8 ∧ right.eval assignment = -1 ∧
      (left.divide right (empty 8 4)).1.eval assignment = -8 ∧
      (left.modulo right (empty 8 4)).1.eval assignment = 0 := by
  intro left right assignment
  have history := ofVariables (by decide : 8 < 2147483647) 4 (le_refl 8)
  have leftMade : left.bits ⊆ firstVariables 8 := by simp [left, firstVariables]
  have rightMade : right.bits ⊆ firstVariables 8 := by simp [right, firstVariables]
  have divided := history.divides leftMade rightMade rfl assignment (by decide)
  exact ⟨by decide, by decide, divided.1.2.2.trans (by decide), divided.2.2.1.trans (by decide)⟩

/-! Multiplication -/

/-- Multiplication of words of any widths. -/
theorem History.multiplies (history : History primary width circuit made performed)
    {left right : Word} (leftMade : left.bits ⊆ made) (rightMade : right.bits ⊆ made)
    (assignment : Nat → Bool) :
    let product := (left.multiply right circuit).1
    product.width = left.width ∧ product.eval assignment =
      Int.bmod (left.eval assignment * right.eval assignment) (Digits.weight left.width) := by
  have product := history.yields leftMade rightMade Build.multiply_computes
  exact ⟨product.2.1, product.2.2 assignment⟩

theorem History.multiplies_narrow :
    let left : Word := .ofBits [.var 1, .var 2, .var 3, .var 4]
    let right : Word := .ofBits [.var 5, .var 6]
    let assignment (label : Nat) : Bool := [1, 4, 6].contains label
    left.eval assignment = -7 ∧ right.eval assignment = -2 ∧
      (left.multiply right (empty 6 4)).1.width = 4 ∧
      (left.multiply right (empty 6 4)).1.eval assignment = -2 := by
  intro left right assignment
  have history := ofVariables (by decide : 6 < 2147483647) 4 (le_refl 6)
  have leftMade : left.bits ⊆ firstVariables 6 := by simp [left, firstVariables]
  have rightMade : right.bits ⊆ firstVariables 6 := by simp [right, firstVariables]
  have product := history.multiplies leftMade rightMade assignment
  exact ⟨by decide, by decide, product.1, product.2.trans (by decide)⟩

/-! Shifts -/

/-- Shifts of words by words of any width. Amounts from zero to below the width move the digits,
and all others leave only the fill. A stage of the shifter moves by at most two to the power
of 62: an amount of up to 64 bits has no stage that should move further, and a machine of 64-bit
addresses keeps no word that is longer. -/
theorem History.shifts (history : History primary width circuit made performed)
    {word amount : Word} (wordMade : word.bits ⊆ made) (amountMade : amount.bits ⊆ made)
    (near : word.width ≤ Digits.weight 62 ∨ amount.width ≤ 64) (assignment : Nat → Bool) :
    let value := word.eval assignment
    let distance := amount.eval assignment
    let size := Digits.weight word.width
    let left := (word.shl amount circuit).1
    let logical := (word.shr amount circuit).1
    let arithmetic := (word.sha amount circuit).1
    (left.width = word.width ∧ logical.width = word.width ∧ arithmetic.width = word.width) ∧
    (0 ≤ distance → distance < word.width →
      left.eval assignment = Int.bmod (value * 2 ^ distance.toNat) size ∧
      logical.eval assignment = Int.bmod (value % size / 2 ^ distance.toNat) size ∧
      arithmetic.eval assignment = value / 2 ^ distance.toNat) ∧
    (distance < 0 ∨ word.width ≤ distance →
      left.eval assignment = 0 ∧ logical.eval assignment = 0 ∧
      arithmetic.eval assignment = if value < 0 then -1 else 0) ∧
    ∀ range : IntRange, range.bitwidth = word.width →
      left.eval assignment = range.shift .shl value distance ∧
      logical.eval assignment = range.shift .shr value distance ∧
      arithmetic.eval assignment = range.shift .sha value distance := by
  intro value distance size left logical arithmetic
  have shifted (kind : ShiftKind) : (Word.shift kind word amount circuit).1.width = word.width ∧
      (Word.shift kind word amount circuit).1.eval assignment =
        kind.apply word.width value distance := by
    have yielded := history.yields wordMade amountMade fun wordKnown amountKnown =>
      Build.shift_computes_apply kind wordKnown amountKnown near
    exact ⟨yielded.2.1, yielded.2.2 assignment⟩
  have leftShifted : left.eval assignment = _ := (shifted .left).2
  have logicalShifted : logical.eval assignment = _ := (shifted .logicalRight).2
  have arithmeticShifted : arithmetic.eval assignment = _ := (shifted .arithmeticRight).2
  have power : (Digits.weight distance.toNat : Int) = 2 ^ distance.toNat := by
    exact_mod_cast rfl
  refine ⟨⟨(shifted .left).1, (shifted .logicalRight).1, (shifted .arithmeticRight).1⟩,
    fun nonneg below => ?_, fun beyond => ?_, fun range same => ?_⟩
  · have inside : ¬(distance < 0 ∨ (word.width : Int) ≤ distance) := by omega
    rw [leftShifted, logicalShifted, arithmeticShifted, ← power]
    unfold ShiftKind.apply
    rw [if_neg inside, if_neg inside, if_neg inside]
    exact ⟨rfl, rfl, rfl⟩
  · rw [leftShifted, logicalShifted, arithmeticShifted]
    unfold ShiftKind.apply
    rw [if_pos beyond, if_pos beyond, if_pos beyond]
    simp
  · have bounds := word.eval_bounds assignment
    rw [← same] at bounds leftShifted logicalShifted arithmeticShifted
    have ranged (kind : ShiftKind) := range.shift_eq_apply kind bounds.1 bounds.2 distance
    exact ⟨leftShifted.trans (ranged .left).symm, logicalShifted.trans (ranged .logicalRight).symm,
      arithmeticShifted.trans (ranged .arithmeticRight).symm⟩

theorem History.shifts_once :
    let word : Word := .ofBits [.var 1, .var 2, .var 3, .var 4]
    let amount : Word := .ofBits [.var 5, .var 6, .var 7]
    let assignment (label : Nat) : Bool := [2, 4, 5].contains label
    word.eval assignment = -6 ∧ amount.eval assignment = 1 ∧
      (word.shl amount (empty 7 4)).1.eval assignment = 4 ∧
      (word.shr amount (empty 7 4)).1.eval assignment = 5 ∧
      (word.sha amount (empty 7 4)).1.eval assignment = -3 := by
  intro word amount assignment
  have history := ofVariables (by decide : 7 < 2147483647) 4 (le_refl 7)
  have wordMade : word.bits ⊆ firstVariables 7 := by simp [word, firstVariables]
  have amountMade : amount.bits ⊆ firstVariables 7 := by simp [amount, firstVariables]
  have shifted := (history.shifts wordMade amountMade (.inr (by decide)) assignment).2.1
    (by decide) (by decide)
  exact ⟨by decide, by decide, shifted.1.trans (by decide), shifted.2.1.trans (by decide),
    shifted.2.2.trans (by decide)⟩

end Circuit

end ModelFinder
