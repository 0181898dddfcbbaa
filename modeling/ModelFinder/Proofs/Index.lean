import Mathlib
import ModelFinder.Index
/-!
Positions that fit into machine words. As long as the tuples of the arities at hand can be
counted, no operation on positions is refused.
-/

namespace ModelFinder.Index

theorem word_of_lt {value : Nat} (small : value < limit) : word value = .ok value :=
  if_pos small

theorem of_word {value result : Nat} (counted : word value = .ok result) : result = value := by
  rw [word] at counted
  split at counted
  · exact (Except.ok.inj counted).symm
  · cases counted

theorem exponent_lt {base exponent : Nat} (atLeastTwo : 2 ≤ base)
    (small : base ^ exponent < 2 ^ 64) : exponent < 64 := by
  have monotone := Nat.pow_le_pow_left atLeastTwo exponent
  exact (Nat.pow_lt_pow_iff_right (by decide)).mp (monotone.trans_lt small)

/-- Tuples that can be counted are counted, however many columns they have: over a single atom
the number of columns does not matter, and over more atoms there are few of them. -/
theorem capacity_of_lt {base arity : Nat} (positive : 0 < base) (small : base ^ arity < limit) :
    capacity base arity = .ok (base ^ arity) := by
  rcases Nat.lt_or_ge base 2 with single | atLeastTwo
  · obtain rfl : base = 1 := by omega
    rw [one_pow] at small ⊢
    have inBounds : ¬(2 ≤ 1 ∧ 64 ≤ arity % UInt32.size) := by omega
    have power : Nat.pow 1 (arity % UInt32.size) = 1 := one_pow _
    rw [capacity, if_neg inBounds, power]
    exact word_of_lt small
  · have size : UInt32.size = 4294967296 := by decide
    have short := exponent_lt atLeastTwo small
    have exponent : arity % UInt32.size = arity := Nat.mod_eq_of_lt (by omega)
    have inBounds : ¬(2 ≤ base ∧ 64 ≤ arity) := by omega
    unfold capacity
    simp only [exponent, if_neg inBounds]
    exact word_of_lt small

/-- The tuples that share their first atom are counted, unless the low bits of the arity are
zero, which they only are over a single atom. -/
theorem rowLength_of_lt {base rest : Nat} (positive : 0 < base)
    (small : base ^ (rest + 1) < limit) (nonzero : (rest + 1) % UInt32.size ≠ 0) :
    rowLength base (rest + 1) = .ok (base ^ rest) := by
  have size : UInt32.size = 4294967296 := by decide
  unfold rowLength
  simp only [if_neg nonzero]
  rcases Nat.lt_or_ge base 2 with single | atLeastTwo
  · obtain rfl : base = 1 := by omega
    have counted := @capacity_of_lt 1 ((rest + 1) % UInt32.size - 1) Nat.one_pos
      (by rw [one_pow]; decide)
    rwa [one_pow] at counted ⊢
  · have short := exponent_lt atLeastTwo small
    have exponent : (rest + 1) % UInt32.size = rest + 1 := Nat.mod_eq_of_lt (by omega)
    rw [exponent, Nat.add_sub_cancel]
    exact capacity_of_lt positive
      ((Nat.pow_le_pow_right positive (Nat.le_succ rest)).trans_lt small)

theorem of_columns {left right both : Nat} (counted : columns left right = .ok both) :
    both = left + right :=
  of_word counted

theorem of_joinedColumns {left right rest : Nat} (counted : joinedColumns left right = .ok rest) :
    rest + 2 = left + right := by
  unfold joinedColumns at counted
  cases both : columns left right with
  | error error =>
      rw [both] at counted
      cases counted
  | ok number =>
      rw [both] at counted
      have sum := of_columns both
      change (if number < 2 then _ else _) = _ at counted
      split at counted
      · cases counted
      · have same := Except.ok.inj counted
        omega

theorem matching?_of_lt {α : Type} (position : α → Nat) (elements : List α)
    {base rest left : Nat} (counted : base ^ (rest + 1) < limit) (positive : 0 < base) :
    matching? (rows position (base ^ rest) elements) base (base ^ rest) left =
      .ok (elements.filter fun element => position element / base ^ rest == left % base) := by
  have first : left % base < base := Nat.mod_lt _ positive
  have rowPositive : 0 < base ^ rest := Nat.pow_pos positive
  have rowEnd : rowStart (base ^ rest) (left % base) + base ^ rest ≤ base ^ (rest + 1) := by
    have inside := Nat.mul_le_mul_right (base ^ rest) (Nat.succ_le_of_lt first)
    rw [rowStart, pow_succ, Nat.mul_comm (base ^ rest) base]
    rw [Nat.succ_mul] at inside
    exact inside
  have small := rowEnd.trans_lt counted
  rw [matching?, word_of_lt (by omega), getD_rows position rowPositive]
  change (word _ >>= fun _ => _) = _
  rw [word_of_lt small]
  change Except.ok _ = _
  congr 1
  apply List.filter_congr
  intro element _
  rw [Bool.eq_iff_iff, beq_iff_eq, div_eq_iff rowPositive, Bool.and_eq_true, decide_eq_true_iff,
    decide_eq_true_iff]

theorem joined_lt {base before rest left right : Nat} (positive : 0 < base)
    (leftInRange : left < base ^ (before + 1)) :
    joined base (base ^ rest) left right < base ^ (before + rest) := by
  have rowPositive : 0 < base ^ rest := Nat.pow_pos positive
  have high : left / base < base ^ before := by
    rw [Nat.div_lt_iff_lt_mul positive, ← pow_succ]
    exact leftInRange
  have low : right % base ^ rest < base ^ rest := Nat.mod_lt _ rowPositive
  have scaled := Nat.mul_le_mul_right (base ^ rest) (Nat.succ_le_of_lt high)
  rw [joined, pow_add]
  rw [Nat.succ_mul] at scaled
  omega

theorem continued_lt {base before after left right : Nat} (leftInRange : left < base ^ before)
    (rightInRange : right < base ^ after) :
    left * base ^ after + right < base ^ (before + after) := by
  have scaled := Nat.mul_le_mul_right (base ^ after) (Nat.succ_le_of_lt leftInRange)
  rw [pow_add]
  rw [Nat.succ_mul] at scaled
  omega

/-- What a join needs for not being refused: countable columns and tuples, and a row length whose
exponent can be computed. -/
structure Joinable (base before rest : Nat) : Prop where
  columns : columns (before + 1) (rest + 1) = .ok (before + 1 + (rest + 1))
  right : base ^ (rest + 1) < limit
  result : base ^ (before + rest) < limit
  nonzero : (rest + 1) % UInt32.size ≠ 0

structure Continuable (base before after : Nat) : Prop where
  columns : columns before after = .ok (before + after)
  right : base ^ after < limit
  result : base ^ (before + after) < limit

theorem Joinable.rowLength_eq {base before rest : Nat} (joinable : Joinable base before rest)
    (positive : 0 < base) : rowLength base (rest + 1) = .ok (base ^ rest) :=
  rowLength_of_lt positive joinable.right joinable.nonzero

end ModelFinder.Index
