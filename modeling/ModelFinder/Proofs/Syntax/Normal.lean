import Mathlib
import ModelFinder.Error
import ModelFinder.Syntax.Alike
/-!
Normal forms of terms, in which every truth value is a node. Terms are alike just if they have the
same normal form. Errors that show terms have normal forms as well.
-/

namespace ModelFinder

/-! ## Terms -/

mutual

/-- The expression with all truth values as nodes. -/
def Expr.normal : Expr → Expr
  | .relation leaf => .relation leaf
  | .variable leaf => .variable leaf
  | .constant leaf => .constant leaf
  | .binary op left right arity => .binary op left.normal right.normal arity
  | .union operands arity => .union (Expr.normalAll operands) arity
  | .ite condition thenExpr elseExpr arity =>
    .ite condition.normal thenExpr.normal elseExpr.normal arity
  | .ofInt cast value => .ofInt cast value.normal

def Expr.normalAll : List Expr → List Expr
  | [] => []
  | expr :: rest => expr.normal :: Expr.normalAll rest

def Formula.normal : Formula → Formula
  | .literal value => .constant value
  | .constant value => .constant value
  | .binary op left right => .binary op left.normal right.normal
  | .nary op operands => .nary op (Formula.normalAll operands)
  | .not operand => .not operand.normal
  | .compare op left right => .compare op left.normal right.normal
  | .multiplicity amount operand => .multiplicity amount operand.normal
  | .quantified quantifier declarations body =>
    .quantified quantifier (Decl.normalAll declarations) body.normal
  | .compareInts op left right => .compareInts op left.normal right.normal

def Formula.normalAll : List Formula → List Formula
  | [] => []
  | formula :: rest => formula.normal :: Formula.normalAll rest

def IntExpr.normal : IntExpr → IntExpr
  | .constant value => .constant value
  | .binary op left right => .binary op left.normal right.normal
  | .unary op operand => .unary op operand.normal
  | .sum operands => .sum (IntExpr.normalAll operands)
  | .count operand => .count operand.normal
  | .sumOver declarations term => .sumOver (Decl.normalAll declarations) term.normal
  | .ite condition thenInt elseInt => .ite condition.normal thenInt.normal elseInt.normal
  | .sumOf operand => .sumOf operand.normal

def IntExpr.normalAll : List IntExpr → List IntExpr
  | [] => []
  | value :: rest => value.normal :: IntExpr.normalAll rest

def Decl.normalAll : List Decl → List Decl
  | [] => []
  | .oneOf declared domain :: rest => .oneOf declared domain.normal :: Decl.normalAll rest

end

@[simp]
theorem Expr.arity_normal (expr : Expr) : expr.normal.arity = expr.arity := by
  cases expr <;> simp only [Expr.normal, Expr.arity]

mutual

@[simp]
theorem Expr.normal_normal : ∀ expr : Expr, expr.normal.normal = expr.normal
  | .relation leaf => by rw [Expr.normal, Expr.normal]
  | .variable leaf => by rw [Expr.normal, Expr.normal]
  | .constant leaf => by rw [Expr.normal, Expr.normal]
  | .binary op left right arity => by
    rw [Expr.normal, Expr.normal, left.normal_normal, right.normal_normal]
  | .union operands arity => by
    rw [Expr.normal, Expr.normal, Expr.normalAll_normalAll operands]
  | .ite condition thenExpr elseExpr arity => by
    rw [Expr.normal, Expr.normal, condition.normal_normal, thenExpr.normal_normal,
      elseExpr.normal_normal]
  | .ofInt cast value => by rw [Expr.normal, Expr.normal, value.normal_normal]

theorem Expr.normalAll_normalAll : ∀ operands : List Expr,
    Expr.normalAll (Expr.normalAll operands) = Expr.normalAll operands
  | [] => by rw [Expr.normalAll, Expr.normalAll]
  | expr :: rest => by
    rw [Expr.normalAll, Expr.normalAll, expr.normal_normal, Expr.normalAll_normalAll rest]

theorem Formula.normal_normal : ∀ formula : Formula, formula.normal.normal = formula.normal
  | .literal value => by rw [Formula.normal, Formula.normal]
  | .constant value => by rw [Formula.normal, Formula.normal]
  | .binary op left right => by
    rw [Formula.normal, Formula.normal, left.normal_normal, right.normal_normal]
  | .nary op operands => by
    rw [Formula.normal, Formula.normal, Formula.normalAll_normalAll operands]
  | .not operand => by rw [Formula.normal, Formula.normal, operand.normal_normal]
  | .compare op left right => by
    rw [Formula.normal, Formula.normal, left.normal_normal, right.normal_normal]
  | .multiplicity amount operand => by
    rw [Formula.normal, Formula.normal, operand.normal_normal]
  | .quantified quantifier declarations body => by
    rw [Formula.normal, Formula.normal, Decl.normalAll_normalAll declarations,
      body.normal_normal]
  | .compareInts op left right => by
    rw [Formula.normal, Formula.normal, left.normal_normal, right.normal_normal]

theorem Formula.normalAll_normalAll : ∀ operands : List Formula,
    Formula.normalAll (Formula.normalAll operands) = Formula.normalAll operands
  | [] => by rw [Formula.normalAll, Formula.normalAll]
  | formula :: rest => by
    rw [Formula.normalAll, Formula.normalAll, formula.normal_normal,
      Formula.normalAll_normalAll rest]

@[simp]
theorem IntExpr.normal_normal : ∀ value : IntExpr, value.normal.normal = value.normal
  | .constant value => by rw [IntExpr.normal, IntExpr.normal]
  | .binary op left right => by
    rw [IntExpr.normal, IntExpr.normal, left.normal_normal, right.normal_normal]
  | .unary op operand => by rw [IntExpr.normal, IntExpr.normal, operand.normal_normal]
  | .sum operands => by
    rw [IntExpr.normal, IntExpr.normal, IntExpr.normalAll_normalAll operands]
  | .count operand => by rw [IntExpr.normal, IntExpr.normal, operand.normal_normal]
  | .sumOver declarations term => by
    rw [IntExpr.normal, IntExpr.normal, Decl.normalAll_normalAll declarations,
      term.normal_normal]
  | .ite condition thenInt elseInt => by
    rw [IntExpr.normal, IntExpr.normal, condition.normal_normal, thenInt.normal_normal,
      elseInt.normal_normal]
  | .sumOf operand => by rw [IntExpr.normal, IntExpr.normal, operand.normal_normal]

theorem IntExpr.normalAll_normalAll : ∀ operands : List IntExpr,
    IntExpr.normalAll (IntExpr.normalAll operands) = IntExpr.normalAll operands
  | [] => by rw [IntExpr.normalAll, IntExpr.normalAll]
  | value :: rest => by
    rw [IntExpr.normalAll, IntExpr.normalAll, value.normal_normal,
      IntExpr.normalAll_normalAll rest]

theorem Decl.normalAll_normalAll : ∀ declarations : List Decl,
    Decl.normalAll (Decl.normalAll declarations) = Decl.normalAll declarations
  | [] => by rw [Decl.normalAll, Decl.normalAll]
  | .oneOf declared domain :: rest => by
    rw [Decl.normalAll, Decl.normalAll, domain.normal_normal, Decl.normalAll_normalAll rest]

end

/-! Terms with different heads are neither alike nor have the same normal form, the two forms of a
truth value apart; others are compared part by part. -/

mutual

theorem Expr.alike_iff : ∀ left right : Expr,
    left.alike right = true ↔ left.normal = right.normal
  | .relation leaf, other => by
    cases other with
    | relation => simp [Expr.alike, Expr.normal]
    | _ => simp only [Expr.alike, Expr.normal, Bool.false_eq_true, reduceCtorEq]
  | .variable leaf, other => by
    cases other with
    | «variable» => simp [Expr.alike, Expr.normal]
    | _ => simp only [Expr.alike, Expr.normal, Bool.false_eq_true, reduceCtorEq]
  | .constant leaf, other => by
    cases other with
    | constant => simp [Expr.alike, Expr.normal]
    | _ => simp only [Expr.alike, Expr.normal, Bool.false_eq_true, reduceCtorEq]
  | .binary op left right arity, other => by
    cases other with
    | binary =>
        simp only [Expr.alike, Expr.normal, Bool.and_eq_true, beq_iff_eq, left.alike_iff,
          right.alike_iff, Expr.binary.injEq]
        tauto
    | _ => simp only [Expr.alike, Expr.normal, Bool.false_eq_true, reduceCtorEq]
  | .union operands arity, other => by
    cases other with
    | union =>
        simp only [Expr.alike, Expr.normal, Bool.and_eq_true, beq_iff_eq,
          Expr.allAlike_iff operands, Expr.union.injEq]
        exact and_comm
    | _ => simp only [Expr.alike, Expr.normal, Bool.false_eq_true, reduceCtorEq]
  | .ite condition thenExpr elseExpr arity, other => by
    cases other with
    | ite =>
        simp only [Expr.alike, Expr.normal, Bool.and_eq_true, beq_iff_eq, condition.alike_iff,
          thenExpr.alike_iff, elseExpr.alike_iff, Expr.ite.injEq]
        tauto
    | _ => simp only [Expr.alike, Expr.normal, Bool.false_eq_true, reduceCtorEq]
  | .ofInt cast value, other => by
    cases other with
    | ofInt => simp [Expr.alike, Expr.normal, value.alike_iff]
    | _ => simp only [Expr.alike, Expr.normal, Bool.false_eq_true, reduceCtorEq]

theorem Expr.allAlike_iff : ∀ left right : List Expr,
    Expr.allAlike left right = true ↔ Expr.normalAll left = Expr.normalAll right
  | [], others => by
    cases others <;> simp [Expr.allAlike, Expr.normalAll]
  | expr :: rest, others => by
    cases others <;> simp [Expr.allAlike, Expr.normalAll, expr.alike_iff, Expr.allAlike_iff rest]

theorem Formula.alike_iff : ∀ left right : Formula,
    left.alike right = true ↔ left.normal = right.normal
  | .literal value, other => by
    cases other with
    | literal => simp [Formula.alike, Formula.normal]
    | constant => simp [Formula.alike, Formula.normal]
    | _ => simp only [Formula.alike, Formula.normal, Bool.false_eq_true, reduceCtorEq]
  | .constant value, other => by
    cases other with
    | literal => simp [Formula.alike, Formula.normal]
    | constant => simp [Formula.alike, Formula.normal]
    | _ => simp only [Formula.alike, Formula.normal, Bool.false_eq_true, reduceCtorEq]
  | .binary op left right, other => by
    cases other with
    | binary =>
        simp [Formula.alike, Formula.normal, left.alike_iff, right.alike_iff, and_assoc]
    | _ => simp only [Formula.alike, Formula.normal, Bool.false_eq_true, reduceCtorEq]
  | .nary op operands, other => by
    cases other with
    | nary => simp [Formula.alike, Formula.normal, Formula.allAlike_iff operands]
    | _ => simp only [Formula.alike, Formula.normal, Bool.false_eq_true, reduceCtorEq]
  | .not operand, other => by
    cases other with
    | not => simp [Formula.alike, Formula.normal, operand.alike_iff]
    | _ => simp only [Formula.alike, Formula.normal, Bool.false_eq_true, reduceCtorEq]
  | .compare op left right, other => by
    cases other with
    | compare =>
        simp [Formula.alike, Formula.normal, left.alike_iff, right.alike_iff, and_assoc]
    | _ => simp only [Formula.alike, Formula.normal, Bool.false_eq_true, reduceCtorEq]
  | .multiplicity amount operand, other => by
    cases other with
    | multiplicity => simp [Formula.alike, Formula.normal, operand.alike_iff]
    | _ => simp only [Formula.alike, Formula.normal, Bool.false_eq_true, reduceCtorEq]
  | .quantified quantifier declarations body, other => by
    cases other with
    | quantified =>
        simp [Formula.alike, Formula.normal, Decl.allAlike_iff declarations, body.alike_iff,
          and_assoc]
    | _ => simp only [Formula.alike, Formula.normal, Bool.false_eq_true, reduceCtorEq]
  | .compareInts op left right, other => by
    cases other with
    | compareInts =>
        simp [Formula.alike, Formula.normal, left.alike_iff, right.alike_iff, and_assoc]
    | _ => simp only [Formula.alike, Formula.normal, Bool.false_eq_true, reduceCtorEq]

theorem Formula.allAlike_iff : ∀ left right : List Formula,
    Formula.allAlike left right = true ↔ Formula.normalAll left = Formula.normalAll right
  | [], others => by
    cases others <;> simp [Formula.allAlike, Formula.normalAll]
  | formula :: rest, others => by
    cases others <;>
      simp [Formula.allAlike, Formula.normalAll, formula.alike_iff, Formula.allAlike_iff rest]

theorem IntExpr.alike_iff : ∀ left right : IntExpr,
    left.alike right = true ↔ left.normal = right.normal
  | .constant value, other => by
    cases other with
    | constant => simp [IntExpr.alike, IntExpr.normal]
    | _ => simp only [IntExpr.alike, IntExpr.normal, Bool.false_eq_true, reduceCtorEq]
  | .binary op left right, other => by
    cases other with
    | binary =>
        simp [IntExpr.alike, IntExpr.normal, left.alike_iff, right.alike_iff, and_assoc]
    | _ => simp only [IntExpr.alike, IntExpr.normal, Bool.false_eq_true, reduceCtorEq]
  | .unary op operand, other => by
    cases other with
    | unary => simp [IntExpr.alike, IntExpr.normal, operand.alike_iff]
    | _ => simp only [IntExpr.alike, IntExpr.normal, Bool.false_eq_true, reduceCtorEq]
  | .sum operands, other => by
    cases other with
    | sum => simp [IntExpr.alike, IntExpr.normal, IntExpr.allAlike_iff operands]
    | _ => simp only [IntExpr.alike, IntExpr.normal, Bool.false_eq_true, reduceCtorEq]
  | .count operand, other => by
    cases other with
    | count => simp [IntExpr.alike, IntExpr.normal, operand.alike_iff]
    | _ => simp only [IntExpr.alike, IntExpr.normal, Bool.false_eq_true, reduceCtorEq]
  | .sumOver declarations term, other => by
    cases other with
    | sumOver =>
        simp [IntExpr.alike, IntExpr.normal, Decl.allAlike_iff declarations, term.alike_iff]
    | _ => simp only [IntExpr.alike, IntExpr.normal, Bool.false_eq_true, reduceCtorEq]
  | .ite condition thenInt elseInt, other => by
    cases other with
    | ite =>
        simp [IntExpr.alike, IntExpr.normal, condition.alike_iff, thenInt.alike_iff,
          elseInt.alike_iff, and_assoc]
    | _ => simp only [IntExpr.alike, IntExpr.normal, Bool.false_eq_true, reduceCtorEq]
  | .sumOf operand, other => by
    cases other with
    | sumOf => simp [IntExpr.alike, IntExpr.normal, operand.alike_iff]
    | _ => simp only [IntExpr.alike, IntExpr.normal, Bool.false_eq_true, reduceCtorEq]

theorem IntExpr.allAlike_iff : ∀ left right : List IntExpr,
    IntExpr.allAlike left right = true ↔ IntExpr.normalAll left = IntExpr.normalAll right
  | [], others => by
    cases others <;> simp [IntExpr.allAlike, IntExpr.normalAll]
  | value :: rest, others => by
    cases others <;>
      simp [IntExpr.allAlike, IntExpr.normalAll, value.alike_iff, IntExpr.allAlike_iff rest]

theorem Decl.allAlike_iff : ∀ left right : List Decl,
    Decl.allAlike left right = true ↔ Decl.normalAll left = Decl.normalAll right
  | [], others => by
    rcases others with _ | ⟨⟨_, _⟩, _⟩ <;> simp [Decl.allAlike, Decl.normalAll]
  | .oneOf declared domain :: rest, others => by
    rcases others with _ | ⟨⟨_, _⟩, _⟩ <;>
      simp [Decl.allAlike, Decl.normalAll, domain.alike_iff, Decl.allAlike_iff rest, and_assoc]

end

/-! ## Errors -/

def ArgumentError.normal : ArgumentError → ArgumentError
  | .arityMismatch left leftArity right rightArity =>
    .arityMismatch left.normal leftArity right.normal rightArity
  | .unionOperand operand expected => .unionOperand operand.normal expected
  | .nonUnarySum operand => .nonUnarySum operand.normal
  | cause => cause

namespace Error

def normal : Error → Error
  | .divisionByZero dividend op divisor => .divisionByZero dividend.normal op divisor.normal
  | .invalidArgument cause => .invalidArgument cause.normal
  | error => error

@[simp]
theorem normal_normal (error : Error) : error.normal.normal = error.normal := by
  cases error with
  | divisionByZero dividend op divisor => simp only [normal, IntExpr.normal_normal]
  | invalidArgument cause =>
      cases cause <;> simp only [normal, ArgumentError.normal, Expr.normal_normal]
  | _ => rfl

theorem kind?_normal (error : Error) : error.normal.kind? = error.kind? := by
  cases error <;> rfl

end Error

end ModelFinder
