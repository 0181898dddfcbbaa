import Mathlib
import ModelFinder.Compile
import ModelFinder.Evaluate
import ModelFinder.Proofs.IntRange
import ModelFinder.Proofs.Circuit.Word.Comparison
import ModelFinder.Proofs.Circuit.Word.Division
import ModelFinder.Proofs.Circuit.Word.Multiplication
import ModelFinder.Proofs.Circuit.Word.Shift
import ModelFinder.Proofs.Syntax.Formation
/-!
Operators on truth values and integers: what they compile to has, under every assignment, the
value that evaluation gives them.
-/

namespace ModelFinder

section

variable {circuit : Circuit}

theorem Connective.build_computes (op : Connective) {left right : Bit}
    (leftKnown : circuit.Knows left) (rightKnown : circuit.Knows right) :
    Build.Computes circuit (op.build left right) fun assignment =>
      op.apply (left.eval assignment) (right.eval assignment) := by
  cases op with
  | and => exact Build.and_computes leftKnown rightKnown
  | or => exact Build.or_computes leftKnown rightKnown
  | iff => exact Build.iff_computes leftKnown rightKnown
  | implies => exact Build.implies_computes leftKnown rightKnown

/-- A connective over a list has a bit only if it has a truth value. -/
theorem Connective.buildList_yields (op : Connective) {operands : List Bit}
    (known : circuit.KnowsAll operands) :
    TryBuild.Yields circuit (op.buildList operands) fun bit after =>
      after.Knows bit ∧ ∀ assignment,
        op.applyList? (operands.map (Bit.eval assignment)) = .ok (bit.eval assignment) := by
  cases op with
  | and =>
      refine TryBuild.Yields.lift (Build.Yields.weaken (Build.all_computes known)
        fun bit after _ made => ⟨made.1, fun assignment => ?_⟩)
      have value := made.2 assignment
      dsimp only at value
      rw [Connective.applyList?, value, List.all_map]
      rfl
  | or =>
      refine TryBuild.Yields.lift (Build.Yields.weaken (Build.any_computes known)
        fun bit after _ made => ⟨made.1, fun assignment => ?_⟩)
      have value := made.2 assignment
      dsimp only at value
      rw [Connective.applyList?, value, List.any_map]
      rfl
  | iff => exact TryBuild.Yields.throw
  | implies => exact TryBuild.Yields.throw

theorem IntComparison.build_computes (op : IntComparison) {left right : Word}
    (leftKnown : circuit.KnowsWord left) (rightKnown : circuit.KnowsWord right) :
    Build.Computes circuit (op.build left right) fun assignment =>
      op.apply (left.eval assignment) (right.eval assignment) := by
  cases op with
  | eq => exact Build.eq_computes leftKnown rightKnown
  | lt => exact Build.lt_computes leftKnown rightKnown
  | lte => exact Build.lte_computes leftKnown rightKnown
  | gt => exact Build.gt_computes leftKnown rightKnown
  | gte => exact Build.gte_computes leftKnown rightKnown

end

section

variable {circuit : Circuit} (range : IntRange)

theorem IntUnaryOp.build_computes (op : IntUnaryOp) {operand : Word}
    (known : circuit.KnowsWord operand) (width : operand.width = range.bitwidth) :
    Build.ComputesWord circuit (op.build operand) range.bitwidth fun assignment =>
      op.apply range (operand.eval assignment) := by
  cases op with
  | negate =>
      have negated := Build.negate_computes known
      rw [width] at negated
      exact negated
  | abs =>
      have magnitude := Build.abs_computes known
      rw [width] at magnitude
      exact magnitude
  | sgn =>
      have sign := Build.sgn_computes known
      rw [width] at sign
      exact sign
  | not =>
      have complement := Build.wordNot_computes known
      rw [width] at complement
      refine Build.computesWord_congr complement fun assignment => ?_
      have bounds := operand.eval_bounds assignment
      rw [width] at bounds
      exact (Digits.bmod_of_bounds range.one_le_bitwidth (by omega) (by omega)).symm

theorem Word.map_pairs_eq {left right : Word} {width : Nat} (leftWidth : left.width = width)
    (rightWidth : right.width = width) (operation : Bool → Bool → Bool)
    (assignment : Nat → Bool) :
    (left.pairs right).map (fun pair =>
        operation (pair.1.eval assignment) (pair.2.eval assignment)) =
      (List.range width).map fun position =>
        operation (Digits.digit (left.eval assignment) position)
          (Digits.digit (right.eval assignment) position) := by
  have leftDigits := Digits.eq_map_digit (left.map_eval_ne_nil assignment)
  have rightDigits := Digits.eq_map_digit (right.map_eval_ne_nil assignment)
  rw [List.length_map] at leftDigits rightDigits
  change _ = (List.range left.width).map (Digits.digit (left.eval assignment)) at leftDigits
  change _ = (List.range right.width).map (Digits.digit (right.eval assignment)) at rightDigits
  rw [leftWidth] at leftDigits
  rw [rightWidth] at rightDigits
  rw [Word.pairs_eq, leftWidth, rightWidth, max_self]
  conv_lhs => rw [← leftWidth, Word.extendedBits_self, leftWidth, ← rightWidth,
    Word.extendedBits_self]
  have zipped : (left.bits.zip right.bits).map (fun pair =>
      operation (pair.1.eval assignment) (pair.2.eval assignment)) =
        List.zipWith operation (left.bits.map (Bit.eval assignment))
          (right.bits.map (Bit.eval assignment)) := by
    rw [List.zipWith_map, List.map_zip_eq_zipWith]
    rfl
  rw [zipped, leftDigits, rightDigits, List.zipWith_map, List.zipWith_self]

theorem bitwise_gate_computes {gate : Bit → Bit → Build Bit} {operation : Bool → Bool → Bool}
    {operate : BitVec range.bitwidth → BitVec range.bitwidth → BitVec range.bitwidth}
    (computes : ∀ {first second : Bit} {after : Circuit}, after.Knows first →
      after.Knows second → Build.Computes after (gate first second)
        fun assignment => operation (first.eval assignment) (second.eval assignment))
    (digitwise : ∀ left right position, (operate left right).getLsbD position =
      operation (left.getLsbD position) (right.getLsbD position)) {left right : Word}
    (leftKnown : circuit.KnowsWord left) (rightKnown : circuit.KnowsWord right)
    (leftWidth : left.width = range.bitwidth) (rightWidth : right.width = range.bitwidth) :
    Build.ComputesWord circuit (Word.bitwise gate left right) range.bitwidth fun assignment =>
      range.bitwise operate (left.eval assignment) (right.eval assignment) := by
  have bits := Build.bitwise_computes gate (fun _ => operation) leftKnown rightKnown
    fun _ first second => computes first second
  rw [leftWidth, rightWidth, max_self] at bits
  refine Build.computesWord_congr bits fun assignment => ?_
  rw [Word.map_pairs_eq leftWidth rightWidth, range.bitwise_eq operate operation digitwise]

/-- The word of an operator stands for its value, except where a divisor is zero. -/
theorem IntOp.build_yields (op : IntOp) {left right : Word}
    (leftKnown : circuit.KnowsWord left) (rightKnown : circuit.KnowsWord right)
    (leftWidth : left.width = range.bitwidth) (rightWidth : right.width = range.bitwidth)
    (leftExpr rightExpr : IntExpr) :
    Build.Yields circuit (op.build left right) fun word after =>
      after.KnowsWord word ∧ word.width = range.bitwidth ∧ ∀ assignment,
        op.compute? range leftExpr rightExpr (left.eval assignment) (right.eval assignment) =
            .ok (word.eval assignment) ∨
          op.Divides ∧ op.compute? range leftExpr rightExpr (left.eval assignment)
            (right.eval assignment) = .error (.divisionByZero leftExpr op rightExpr) := by
  have computed : ∀ {action : Build Word} {value : (Nat → Bool) → Int},
      Build.ComputesWord circuit action range.bitwidth value →
      (∀ assignment, op.compute? range leftExpr rightExpr (left.eval assignment)
        (right.eval assignment) = .ok (value assignment)) →
      Build.Yields circuit action fun word after =>
        after.KnowsWord word ∧ word.width = range.bitwidth ∧ ∀ assignment,
          op.compute? range leftExpr rightExpr (left.eval assignment) (right.eval assignment) =
              .ok (word.eval assignment) ∨
            op.Divides ∧ op.compute? range leftExpr rightExpr (left.eval assignment)
              (right.eval assignment) = .error (.divisionByZero leftExpr op rightExpr) :=
    fun computes same => Build.Yields.weaken computes fun word after _ made =>
      ⟨made.1, made.2.1, fun assignment => .inl (by rw [made.2.2, same])⟩
  have same := leftWidth.trans rightWidth.symm
  cases op with
  | plus =>
      have sum := Build.plus_computes leftKnown rightKnown
      rw [leftWidth, rightWidth, max_self] at sum
      exact computed sum fun assignment => rfl
  | minus =>
      have difference := Build.minus_computes leftKnown rightKnown
      rw [leftWidth, rightWidth, max_self] at difference
      exact computed difference fun assignment => rfl
  | multiply =>
      have product := Build.multiply_computes leftKnown rightKnown
      rw [leftWidth] at product
      exact computed product fun assignment => rfl
  | divide =>
      refine Build.Yields.weaken (Build.divide_yields leftKnown rightKnown same)
        fun word after _ made => ⟨made.1, made.2.1.trans leftWidth, fun assignment => ?_⟩
      by_cases zero : right.eval assignment = 0
      · exact .inr ⟨.inl rfl, if_pos zero⟩
      · rw [made.2.2 assignment zero, leftWidth]
        exact .inl (if_neg zero)
  | modulo =>
      refine Build.Yields.weaken (Build.modulo_yields leftKnown rightKnown same)
        fun word after _ made => ⟨made.1, made.2.1.trans leftWidth, fun assignment => ?_⟩
      by_cases zero : right.eval assignment = 0
      · exact .inr ⟨.inr rfl, if_pos zero⟩
      · rw [made.2.2 assignment zero, leftWidth]
        exact .inl (if_neg zero)
  | and =>
      exact computed (bitwise_gate_computes range Build.and_computes
        (fun left right position => BitVec.getLsbD_and) leftKnown rightKnown leftWidth rightWidth)
        fun assignment => rfl
  | or =>
      exact computed (bitwise_gate_computes range Build.or_computes
        (fun left right position => BitVec.getLsbD_or) leftKnown rightKnown leftWidth rightWidth)
        fun assignment => rfl
  | xor =>
      exact computed (bitwise_gate_computes range Build.xor_computes
        (fun left right position => BitVec.getLsbD_xor) leftKnown rightKnown leftWidth rightWidth)
        fun assignment => rfl
  | shl =>
      exact computed (Build.shift_computes range .left leftKnown rightKnown leftWidth)
        fun assignment => rfl
  | shr =>
      exact computed (Build.shift_computes range .logicalRight leftKnown rightKnown leftWidth)
        fun assignment => rfl
  | sha =>
      exact computed (Build.shift_computes range .arithmeticRight leftKnown rightKnown leftWidth)
        fun assignment => rfl

end

end ModelFinder
