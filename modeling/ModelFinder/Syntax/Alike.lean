import ModelFinder.Syntax.Basic
/-!
Structural equality of formulas and expressions. Relations and variables are compared with
their identifiers, and a truth value counts as one formula whether it is written inline or
as a node, at any depth.
-/

namespace ModelFinder

mutual

def Expr.alike : Expr → Expr → Bool
  | .relation leaf, .relation other => leaf == other
  | .variable leaf, .variable other => leaf == other
  | .constant leaf, .constant other => leaf == other
  | .binary op left right arity, .binary op' left' right' arity' =>
    op == op' && arity == arity' && left.alike left' && right.alike right'
  | .union operands arity, .union operands' arity' =>
    arity == arity' && Expr.allAlike operands operands'
  | .ite condition thenExpr elseExpr arity, .ite condition' thenExpr' elseExpr' arity' =>
    arity == arity' && condition.alike condition' && thenExpr.alike thenExpr'
      && elseExpr.alike elseExpr'
  | .ofInt cast value, .ofInt cast' value' => cast == cast' && value.alike value'
  | _, _ => false
termination_by structural first => first

def Expr.allAlike : List Expr → List Expr → Bool
  | [], [] => true
  | expr :: rest, expr' :: rest' => expr.alike expr' && Expr.allAlike rest rest'
  | _, _ => false
termination_by structural first => first

def Formula.alike : Formula → Formula → Bool
  | .literal value, .literal value' => value == value'
  | .literal value, .constant value' => value == value'
  | .constant value, .literal value' => value == value'
  | .constant value, .constant value' => value == value'
  | .binary op left right, .binary op' left' right' =>
    op == op' && left.alike left' && right.alike right'
  | .nary op operands, .nary op' operands' => op == op' && Formula.allAlike operands operands'
  | .not operand, .not operand' => operand.alike operand'
  | .compare op left right, .compare op' left' right' =>
    op == op' && left.alike left' && right.alike right'
  | .multiplicity amount operand, .multiplicity amount' operand' =>
    amount == amount' && operand.alike operand'
  | .quantified quantifier declarations body, .quantified quantifier' declarations' body' =>
    quantifier == quantifier' && Decl.allAlike declarations declarations' && body.alike body'
  | .compareInts op left right, .compareInts op' left' right' =>
    op == op' && left.alike left' && right.alike right'
  | _, _ => false
termination_by structural first => first

def Formula.allAlike : List Formula → List Formula → Bool
  | [], [] => true
  | formula :: rest, formula' :: rest' => formula.alike formula' && Formula.allAlike rest rest'
  | _, _ => false
termination_by structural first => first

def IntExpr.alike : IntExpr → IntExpr → Bool
  | .constant value, .constant value' => value == value'
  | .binary op left right, .binary op' left' right' =>
    op == op' && left.alike left' && right.alike right'
  | .unary op operand, .unary op' operand' => op == op' && operand.alike operand'
  | .sum operands, .sum operands' => IntExpr.allAlike operands operands'
  | .count operand, .count operand' => operand.alike operand'
  | .sumOver declarations term, .sumOver declarations' term' =>
    Decl.allAlike declarations declarations' && term.alike term'
  | .ite condition thenInt elseInt, .ite condition' thenInt' elseInt' =>
    condition.alike condition' && thenInt.alike thenInt' && elseInt.alike elseInt'
  | .sumOf operand, .sumOf operand' => operand.alike operand'
  | _, _ => false
termination_by structural first => first

def IntExpr.allAlike : List IntExpr → List IntExpr → Bool
  | [], [] => true
  | value :: rest, value' :: rest' => value.alike value' && IntExpr.allAlike rest rest'
  | _, _ => false
termination_by structural first => first

def Decl.allAlike : List Decl → List Decl → Bool
  | [], [] => true
  | .oneOf declared domain :: rest, .oneOf declared' domain' :: rest' =>
    declared == declared' && domain.alike domain' && Decl.allAlike rest rest'
  | _, _ => false
termination_by structural first => first

end

def distinctUpTo {α : Type} (alike : α → α → Bool) (values : List α) : List α :=
  (values.foldl (fun kept value => if kept.any (alike value) then kept else value :: kept)
    []).reverse

/-- An inline truth value and the same value as a node are one formula. -/
example : (distinctUpTo Formula.alike
    [.not (.literal true), .not (.constant true), .literal true]).length = 2 := by decide

end ModelFinder
