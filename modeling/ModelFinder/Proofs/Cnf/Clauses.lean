import Mathlib
import ModelFinder.Cnf.Encoding
/-!
What clauses say. The clauses of a gate hold where the variable of the gate has the value
that the gate computes from the variables of its operands, and the empty clause never holds.
-/

namespace ModelFinder

namespace Literal

theorem holds_of_pos {literal : Literal} (positive : 0 < literal) (assignment : Nat → Bool) :
    Literal.holds assignment literal = assignment literal.natAbs := by
  rw [holds, if_neg (by lia)]

theorem holds_neg {literal : Literal} (positive : 0 < literal) (assignment : Nat → Bool) :
    Literal.holds assignment (-literal) = !assignment literal.natAbs := by
  rw [holds, if_pos (by lia), Int.natAbs_neg]

end Literal

namespace Clause

theorem largestVariable_le {atLeast bound : Nat} {clause : Clause} :
    clause.largestVariable atLeast ≤ bound ↔
      atLeast ≤ bound ∧ ∀ literal ∈ clause, literal.natAbs ≤ bound := by
  induction clause generalizing atLeast with
  | nil => simp [largestVariable]
  | cons literal rest hypothesis =>
      have step : largestVariable atLeast (literal :: rest) =
          largestVariable (Nat.max atLeast literal.natAbs) rest := rfl
      rw [step, hypothesis, List.forall_mem_cons, ← and_assoc]
      exact and_congr_left fun _ => Nat.max_le

end Clause

namespace Cnf

theorem holds_add (assignment : Nat → Bool) (cnf : Cnf) (clause : Clause) :
    (cnf.add clause).holds assignment =
      (cnf.holds assignment && clause.holds assignment) := by
  simp [holds, add]

def addAll (cnf : Cnf) (clauses : List Clause) : Cnf := clauses.foldl add cnf

theorem holds_addAll (assignment : Nat → Bool) (cnf : Cnf) (clauses : List Clause) :
    (cnf.addAll clauses).holds assignment =
      (cnf.holds assignment && clauses.all (Clause.holds assignment)) := by
  induction clauses generalizing cnf with
  | nil => simp [addAll]
  | cons clause rest hypothesis =>
      have step : cnf.addAll (clause :: rest) = (cnf.add clause).addAll rest := rfl
      rw [step, hypothesis, holds_add, List.all_cons, Bool.and_assoc]

theorem variableCount_add_le {cnf : Cnf} {clause : Clause} {bound : Nat} :
    (cnf.add clause).variableCount ≤ bound ↔
      cnf.variableCount ≤ bound ∧ ∀ literal ∈ clause, literal.natAbs ≤ bound :=
  Clause.largestVariable_le

theorem variableCount_addAll_le {cnf : Cnf} {clauses : List Clause} {bound : Nat} :
    (cnf.addAll clauses).variableCount ≤ bound ↔
      cnf.variableCount ≤ bound ∧
        ∀ clause ∈ clauses, ∀ literal ∈ clause, literal.natAbs ≤ bound := by
  induction clauses generalizing cnf with
  | nil => simp [addAll]
  | cons clause rest hypothesis =>
      have step : cnf.addAll (clause :: rest) = (cnf.add clause).addAll rest := rfl
      rw [step, hypothesis, variableCount_add_le, List.forall_mem_cons, and_assoc]

end Cnf

/-! The clauses of the gates -/

private theorem all_congr_of_mem {α : Type} {left right : α → Bool} {values : List α}
    (same : ∀ value ∈ values, left value = right value) : values.all left = values.all right := by
  induction values with
  | nil => rfl
  | cons value rest hypothesis =>
      simp only [List.forall_mem_cons] at same
      rw [List.all_cons, List.all_cons, same.1, hypothesis same.2]

private theorem any_congr_of_mem {α : Type} {left right : α → Bool} {values : List α}
    (same : ∀ value ∈ values, left value = right value) : values.any left = values.any right := by
  rw [List.any_eq_not_all_not, List.any_eq_not_all_not, all_congr_of_mem]
  exact fun value member => by rw [same value member]

namespace Encode

variable {assignment : Nat → Bool} {output : Literal}

/-- Some clauses hold exactly where a variable has a given value, and mention no variable
above it. -/
structure Define (clauses : List Clause) (output : Literal) (value : (Nat → Bool) → Bool) :
    Prop where
  holds_iff : ∀ assignment, clauses.all (Clause.holds assignment) = true ↔
    assignment output.natAbs = value assignment
  bounded : ∀ clause ∈ clauses, ∀ literal ∈ clause, literal.natAbs ≤ output.natAbs

theorem conjunctionClauses_define {inputs : List Literal} (positive : 0 < output)
    (inputsPositive : ∀ input ∈ inputs, 0 < input ∧ input < output) :
    Define (conjunctionClauses output inputs) output fun assignment =>
      inputs.all fun input => assignment input.natAbs where
  holds_iff assignment := by
    have negated : (inputs.map (- ·)).any (Literal.holds assignment) =
        !inputs.all fun input => assignment input.natAbs := by
      rw [List.any_map, List.not_all_eq_any_not]
      exact any_congr_of_mem fun input member =>
        Literal.holds_neg (inputsPositive input member).1 assignment
    have each : (inputs.map fun input => [input, -output]).all (Clause.holds assignment) =
        inputs.all fun input => assignment input.natAbs || !assignment output.natAbs := by
      rw [List.all_map]
      refine all_congr_of_mem fun input member => ?_
      simp only [Function.comp, Clause.holds, List.any_cons, List.any_nil, Bool.or_false,
        Literal.holds_of_pos (inputsPositive input member).1, Literal.holds_neg positive]
    rw [conjunctionClauses, List.all_cons, each, Clause.holds, List.any_append, negated,
      List.any_cons, List.any_nil, Bool.or_false, Literal.holds_of_pos positive]
    cases assignment output.natAbs with
    | false => simp
    | true =>
        simp only [Bool.not_true, Bool.or_false, Bool.or_true, Bool.true_and]
        exact eq_comm
  bounded := by
    simp only [conjunctionClauses, List.mem_cons, List.mem_map]
    rintro clause (rfl | ⟨input, member, rfl⟩) literal literalMember
    · simp only [List.mem_append, List.mem_map, List.mem_singleton] at literalMember
      rcases literalMember with ⟨input, member, rfl⟩ | rfl
      · have := inputsPositive input member
        lia
      · rfl
    · have := inputsPositive input member
      simp only [List.mem_cons, List.not_mem_nil, or_false] at literalMember
      lia

theorem disjunctionClauses_define {inputs : List Literal} (positive : 0 < output)
    (inputsPositive : ∀ input ∈ inputs, 0 < input ∧ input < output) :
    Define (disjunctionClauses output inputs) output fun assignment =>
      inputs.any fun input => assignment input.natAbs where
  holds_iff assignment := by
    have some : inputs.any (Literal.holds assignment) =
        inputs.any fun input => assignment input.natAbs :=
      any_congr_of_mem fun input member =>
        Literal.holds_of_pos (inputsPositive input member).1 assignment
    have each : (inputs.map fun input => [-input, output]).all (Clause.holds assignment) =
        inputs.all fun input => !assignment input.natAbs || assignment output.natAbs := by
      rw [List.all_map]
      refine all_congr_of_mem fun input member => ?_
      simp only [Function.comp, Clause.holds, List.any_cons, List.any_nil, Bool.or_false,
        Literal.holds_neg (inputsPositive input member).1, Literal.holds_of_pos positive]
    rw [disjunctionClauses, List.all_cons, each, Clause.holds, List.any_append, some,
      List.any_cons, List.any_nil, Bool.or_false, Literal.holds_neg positive]
    cases assignment output.natAbs with
    | true => simp
    | false =>
        simp only [Bool.not_false, Bool.or_true, Bool.or_false, Bool.true_and]
        rw [← List.not_any_eq_all_not, Bool.not_eq_true', eq_comm]
  bounded := by
    simp only [disjunctionClauses, List.mem_cons, List.mem_map]
    rintro clause (rfl | ⟨input, member, rfl⟩) literal literalMember
    · simp only [List.mem_append, List.mem_singleton] at literalMember
      rcases literalMember with member | rfl
      · have := inputsPositive literal member
        lia
      · lia
    · have := inputsPositive input member
      simp only [List.mem_cons, List.not_mem_nil, or_false] at literalMember
      lia

theorem negationClauses_define {input : Literal} (inputPositive : 0 < input)
    (below : input < output) :
    Define (negationClauses output input) output fun assignment =>
      !assignment input.natAbs where
  holds_iff assignment := by
    have positive : 0 < output := inputPositive.trans below
    simp only [negationClauses, Clause.holds, List.all_cons, List.all_nil, List.any_cons,
      List.any_nil, Literal.holds_of_pos, Literal.holds_neg, inputPositive, positive]
    cases assignment output.natAbs <;> cases assignment input.natAbs <;> decide
  bounded := by
    simp only [negationClauses, List.mem_cons, List.not_mem_nil, or_false]
    rintro clause (rfl | rfl) literal member <;>
      simp only [List.mem_cons, List.not_mem_nil, or_false] at member <;> lia

theorem choiceClauses_define {condition thenLiteral elseLiteral : Literal}
    (conditionBounds : 0 < condition ∧ condition < output)
    (thenBounds : 0 < thenLiteral ∧ thenLiteral < output)
    (elseBounds : 0 < elseLiteral ∧ elseLiteral < output) :
    Define (choiceClauses output condition thenLiteral elseLiteral) output fun assignment =>
      bif assignment condition.natAbs then assignment thenLiteral.natAbs
      else assignment elseLiteral.natAbs where
  holds_iff assignment := by
    have positive : 0 < output := conditionBounds.1.trans conditionBounds.2
    simp only [choiceClauses, Clause.holds, List.all_cons, List.all_nil, List.any_cons,
      List.any_nil, Literal.holds_of_pos, Literal.holds_neg, conditionBounds.1, thenBounds.1,
      elseBounds.1, positive]
    cases assignment output.natAbs <;> cases assignment condition.natAbs <;>
      cases assignment thenLiteral.natAbs <;> cases assignment elseLiteral.natAbs <;> decide
  bounded := by
    simp only [choiceClauses, List.mem_cons, List.not_mem_nil, or_false]
    rintro clause (rfl | rfl | rfl | rfl) literal member <;>
      simp only [List.mem_cons, List.not_mem_nil, or_false] at member <;> lia

end Encode

end ModelFinder
