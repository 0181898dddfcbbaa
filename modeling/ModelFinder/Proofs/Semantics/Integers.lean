import Mathlib
import ModelFinder.Proofs.IntRange
import ModelFinder.Proofs.Semantics.Denotation
/-!
Integers of a range as numbers of a bit width. Evaluation computes with integers and wraps them
into the range after every step; this is arithmetic in two's complement.
-/

namespace ModelFinder

namespace IntRange

variable (range : IntRange)

theorem wrap_eq_toInt (value : Int) :
    range.wrap value = (BitVec.ofInt range.bitwidth value).toInt :=
  (BitVec.toInt_ofInt value).symm

@[simp] theorem wrap_toInt (a : BitVec range.bitwidth) : range.wrap a.toInt = a.toInt := by
  rw [wrap_eq_toInt, BitVec.ofInt_toInt]

theorem sum_map_toInt (values : List (BitVec range.bitwidth)) :
    range.sum (values.map BitVec.toInt) = values.sum.toInt := by
  rw [sum_eq_bmod]
  induction values with
  | nil => simp
  | cons first rest hypothesis =>
      rw [List.map_cons, List.sum_cons, List.sum_cons, BitVec.toInt_add, ← hypothesis]
      exact Int.add_bmod_bmod.symm

theorem toInt_emod_size (a : BitVec range.bitwidth) : a.toInt % range.size = a.toNat := by
  have bounded : (a.toNat : Int) < (2 ^ range.bitwidth : Nat) := by exact_mod_cast a.isLt
  change a.toInt % (2 ^ range.bitwidth : Nat) = _
  rw [BitVec.toInt_eq_toNat_bmod, Int.bmod_emod, Int.emod_eq_of_lt (Int.natCast_nonneg _) bounded]

/-- A shift by a signed amount, if the fill and the shifts by fewer positions than the width are
right. -/
theorem shift_toInt (op : IntOp) (a b : BitVec range.bitwidth) {fill : BitVec range.bitwidth}
    {shift : Nat → BitVec range.bitwidth}
    (filled : fill.toInt = if op = .sha ∧ a.toInt < 0 then -1 else 0)
    (shifted : ∀ amount : Nat, (amount : Int) < range.bitwidth →
      range.shift op a.toInt amount = (shift amount).toInt) :
    range.shift op a.toInt b.toInt = (shiftOr fill shift b).toInt := by
  rw [shiftOr]
  by_cases beyond : b.toInt < 0 ∨ range.bitwidth ≤ b.toInt
  · rw [if_pos beyond, filled]
    exact if_pos beyond
  · rw [if_neg beyond]
    rw [not_or, not_lt, not_le] at beyond
    have amount : b.toInt = b.toNat := by
      have bounded : b.toInt < range.size :=
        beyond.2.trans (by exact_mod_cast Digits.lt_weight range.bitwidth)
      rw [← range.toInt_emod_size, Int.emod_eq_of_lt beyond.1 bounded]
    rw [amount] at beyond ⊢
    exact shifted _ beyond.2

private theorem shift_natCast (op : IntOp) (value : Int) {amount : Nat}
    (inside : (amount : Int) < range.bitwidth) :
    range.shift op value amount = match op with
      | .shl => range.wrap (value % range.size * Digits.weight amount)
      | .shr => range.wrap (value % range.size / Digits.weight amount)
      | _ => range.wrap (value / Digits.weight amount) :=
  if_neg (not_or.mpr ⟨not_lt.mpr (Int.natCast_nonneg _), not_le.mpr inside⟩)

theorem shl_toInt (a b : BitVec range.bitwidth) :
    range.shift .shl a.toInt b.toInt = (shiftOr 0 (a <<< ·) b).toInt := by
  refine range.shift_toInt .shl a b (by simp) fun amount inside => ?_
  rw [range.shift_natCast .shl _ inside, BitVec.toInt_shiftLeft, range.toInt_emod_size,
    Nat.shiftLeft_eq]
  rfl

theorem shr_toInt (a b : BitVec range.bitwidth) :
    range.shift .shr a.toInt b.toInt = (shiftOr 0 (a >>> ·) b).toInt := by
  refine range.shift_toInt .shr a b (by simp) fun amount inside => ?_
  rw [range.shift_natCast .shr _ inside, range.toInt_emod_size,
    BitVec.toInt_eq_toNat_bmod (a >>> amount), BitVec.toNat_ushiftRight,
    Nat.shiftRight_eq_div_pow]
  rfl

theorem sha_toInt (a b : BitVec range.bitwidth) :
    range.shift .sha a.toInt b.toInt =
      (shiftOr (if a.msb then BitVec.allOnes range.bitwidth else 0) a.sshiftRight b).toInt := by
  refine range.shift_toInt .sha a b ?_ fun amount inside => ?_
  · have positive : 0 < range.bitwidth := range.one_le_bitwidth
    rw [BitVec.msb_eq_toInt, apply_ite BitVec.toInt, BitVec.toInt_allOnes, if_pos positive]
    simp
  · have divided : a.toInt / Digits.weight amount = (a.sshiftRight amount).toInt := by
      rw [BitVec.toInt_sshiftRight, Int.shiftRight_eq_div_pow]
      rfl
    rw [range.shift_natCast .sha _ inside]
    dsimp only
    rw [divided, range.wrap_toInt]

/-- The sign of a number is in the range, even if the range has no 1. -/
theorem sign_toInt_bounds (a : BitVec range.bitwidth) :
    -(Digits.weight (range.bitwidth - 1) : Int) ≤ a.toInt.sign ∧
      a.toInt.sign < Digits.weight (range.bitwidth - 1) := by
  have below : a.toInt < Digits.weight (range.bitwidth - 1) :=
    a.toInt_lt.trans_eq (Nat.cast_pow 2 _).symm
  have positive := Digits.weight_pos (range.bitwidth - 1)
  rcases lt_trichotomy a.toInt 0 with negative | zero | positive'
  · rw [Int.sign_eq_neg_one_of_neg negative]
    omega
  · rw [zero, Int.sign_zero]
    omega
  · rw [Int.sign_eq_one_of_pos positive']
    omega

end IntRange

section

variable (range : IntRange)

theorem IntOp.compute?_toInt (op : IntOp) (left right : IntExpr) (a b : BitVec range.bitwidth) :
    op.compute? range left right a.toInt b.toInt =
      (op.denote? left right a b).map BitVec.toInt := by
  have zero : b.toInt = 0 ↔ b = 0 := by
    rw [← BitVec.toInt_inj]
    exact iff_of_eq (congrArg (b.toInt = ·) BitVec.toInt_zero.symm)
  cases op with
  | plus => exact congrArg Except.ok (BitVec.toInt_add a b).symm
  | minus => exact congrArg Except.ok BitVec.toInt_sub.symm
  | multiply => exact congrArg Except.ok (BitVec.toInt_mul a b).symm
  | divide =>
      simp only [compute?, denote?, zero]
      split
      · rfl
      · exact congrArg Except.ok (BitVec.toInt_sdiv a b).symm
  | modulo =>
      simp only [compute?, denote?, zero]
      split
      · rfl
      · rw [← BitVec.toInt_srem, range.wrap_toInt]
        rfl
  | and | or | xor =>
      simp only [compute?, denote?, IntRange.bitwise, BitVec.ofInt_toInt]
      rfl
  | shl => exact congrArg Except.ok (range.shl_toInt a b)
  | shr => exact congrArg Except.ok (range.shr_toInt a b)
  | sha => exact congrArg Except.ok (range.sha_toInt a b)

theorem IntUnaryOp.apply_toInt (op : IntUnaryOp) (a : BitVec range.bitwidth) :
    op.apply range a.toInt = (op.denote a).toInt := by
  cases op with
  | negate => exact BitVec.toInt_neg.symm
  | abs =>
      rw [denote, BitVec.abs_eq, BitVec.msb_eq_toInt]
      by_cases negative : a.toInt < 0
      · rw [if_pos (decide_eq_true negative), BitVec.toInt_neg, apply,
          Int.ofNat_natAbs_of_nonpos negative.le]
        rfl
      · rw [if_neg (by simpa using negative), apply, Int.natAbs_of_nonneg (not_lt.mp negative),
          range.wrap_toInt]
  | sgn =>
      rcases range.sign_toInt_bounds a with ⟨above, below⟩
      rw [denote, ← range.wrap_eq_toInt]
      exact (Digits.bmod_of_bounds range.one_le_bitwidth above below).symm
  | not =>
      rw [denote, BitVec.not_eq_neg_add, BitVec.toInt_sub, BitVec.toInt_neg, Int.bmod_sub_bmod,
        BitVec.toInt_ofNat', Int.sub_bmod_bmod]
      rfl

theorem IntComparison.apply_toInt {width : Nat} (op : IntComparison) (a b : BitVec width) :
    op.apply a.toInt b.toInt = op.denote a b := by
  cases op with
  | eq =>
      rw [Bool.eq_iff_iff, apply, denote, beq_iff_eq, beq_iff_eq]
      exact BitVec.toInt_inj
  | lt => exact BitVec.slt_eq_decide.symm
  | lte => exact BitVec.sle_eq_decide.symm
  | gt => exact BitVec.slt_eq_decide.symm
  | gte => exact BitVec.sle_eq_decide.symm

end

end ModelFinder
