import ModelFinder.Syntax.Basic
/-!
Outlines: the tree of an expression written on one line. Every node is its kind followed
by its parts, either named, in braces, or unnamed, in parentheses.
-/

namespace ModelFinder

namespace Outline

def record (kind : String) (parts : List (String × String)) : String :=
  kind ++ " \x7b " ++ ", ".intercalate (parts.map fun part => part.1 ++ ": " ++ part.2) ++ " \x7d"

def wrap (kind part : String) : String := kind ++ "(" ++ part ++ ")"

def list (items : List String) : String := "[" ++ ", ".intercalate items ++ "]"

def bool (value : Bool) : String := if value then "true" else "false"

end Outline

open Outline

def Relation.outline (leaf : Relation) : String :=
  wrap "Relation" (leaf.name ++ "/" ++ toString leaf.arity)

def Variable.outline (leaf : Variable) : String :=
  wrap "Variable" (leaf.name ++ "/" ++ toString leaf.arity)

def SetConstant.outline : SetConstant → String
  | .univ => "Univ"
  | .iden => "Iden"
  | .none => "None"
  | .ints => "Ints"

def SetOp.outline : SetOp → String
  | .join => "Join"
  | .product => "Product"
  | .union => "Union"
  | .difference => "Difference"
  | .intersection => "Intersection"

def SetComparison.outline : SetComparison → String
  | .equals => "Equals"
  | .subset => "Subset"

def Multiplicity.outline : Multiplicity → String
  | .some => "Some"
  | .one => "One"
  | .lone => "Lone"
  | .no => "No"

def Quantifier.outline : Quantifier → String
  | .all => "All"
  | .some => "Some"

def Connective.outline : Connective → String
  | .and => "And"
  | .or => "Or"
  | .iff => "Iff"
  | .implies => "Implies"

def IntOp.outline : IntOp → String
  | .plus => "Plus"
  | .minus => "Minus"
  | .multiply => "Multiply"
  | .divide => "Divide"
  | .modulo => "Modulo"
  | .and => "And"
  | .or => "Or"
  | .xor => "Xor"
  | .shl => "Shl"
  | .shr => "Shr"
  | .sha => "Sha"

def IntUnaryOp.outline : IntUnaryOp → String
  | .negate => "Negate"
  | .abs => "Abs"
  | .sgn => "Sgn"
  | .not => "Not"

def IntComparison.outline : IntComparison → String
  | .eq => "Eq"
  | .lt => "Lt"
  | .lte => "Lte"
  | .gt => "Gt"
  | .gte => "Gte"

def IntCast.outline : IntCast → String
  | .value => "IntCast"
  | .bitset => "BitsetCast"

/-- How a formula is referred to, given the outline of its node: an inline truth value by its
name, any other formula as a reference. -/
def Formula.reference (formula : Formula) (node : String) : String :=
  match formula with
  | .literal true => "True"
  | .literal false => "False"
  | _ => wrap "Ref" node

mutual

def Expr.outline : Expr → String
  | .relation leaf => wrap "Relation" leaf.outline
  | .variable leaf => wrap "Variable" leaf.outline
  | .constant leaf => wrap "Constant" leaf.outline
  | .binary op left right arity =>
    record "Binary" [("left", left.outline), ("op", op.outline), ("right", right.outline),
      ("arity", toString arity)]
  | .union operands arity =>
    record "Nary" [("exprs", list (Expr.outlines operands)), ("arity", toString arity)]
  | .ite condition thenExpr elseExpr arity =>
    record "If" [("condition", condition.reference condition.nodeOutline),
      ("then_expr", thenExpr.outline), ("else_expr", elseExpr.outline), ("arity", toString arity)]
  | .ofInt cast value =>
    record "IntToExprCast" [("int_expr", value.outline), ("op", cast.outline)]

def Expr.outlines : List Expr → List String
  | [] => []
  | expr :: rest => expr.outline :: Expr.outlines rest

def Formula.nodeOutline : Formula → String
  | .literal value => wrap "Constant" (bool value)
  | .constant value => wrap "Constant" (bool value)
  | .binary op left right =>
    record "Binary" [("left", left.reference left.nodeOutline), ("op", op.outline),
      ("right", right.reference right.nodeOutline)]
  | .nary op operands =>
    record "Nary" [("op", op.outline), ("formulas", list (Formula.outlines operands))]
  | .not operand => wrap "Not" (operand.reference operand.nodeOutline)
  | .compare op left right =>
    record "Comparison" [("left", left.outline), ("op", op.outline), ("right", right.outline)]
  | .multiplicity amount operand =>
    record "Multiplicity" [("mult", amount.outline), ("expr", operand.outline)]
  | .quantified quantifier declarations body =>
    record "Quantified" [("quantifier", quantifier.outline),
      ("declarations", record "Decls" [("declarations", list (Decl.outlines declarations))]),
      ("body", body.reference body.nodeOutline)]
  | .compareInts op left right =>
    record "IntComparison" [("left", left.outline), ("op", op.outline), ("right", right.outline)]

def Formula.outlines : List Formula → List String
  | [] => []
  | formula :: rest => formula.reference formula.nodeOutline :: Formula.outlines rest

def IntExpr.outline : IntExpr → String
  | .constant value => wrap "Constant" (toString value)
  | .binary op left right =>
    record "Binary" [("left", left.outline), ("op", op.outline), ("right", right.outline)]
  | .unary op operand => record "Unary" [("op", op.outline), ("expr", operand.outline)]
  | .sum operands => record "Nary" [("exprs", list (IntExpr.outlines operands))]
  | .count operand => wrap "Cardinality" operand.outline
  | .sumOver declarations term =>
    record "Sum" [("decls", record "Decls" [("declarations", list (Decl.outlines declarations))]),
      ("expr", term.outline)]
  | .ite condition thenInt elseInt =>
    record "If" [("condition", condition.reference condition.nodeOutline),
      ("then_expr", thenInt.outline), ("else_expr", elseInt.outline)]
  | .sumOf operand => wrap "ExprCast" operand.outline

def IntExpr.outlines : List IntExpr → List String
  | [] => []
  | value :: rest => value.outline :: IntExpr.outlines rest

def Decl.outlines : List Decl → List String
  | [] => []
  | .oneOf declared domain :: rest =>
    record "Decl" [("variable", declared.outline), ("expression", domain.outline)]
      :: Decl.outlines rest

end

def Formula.outline (formula : Formula) : String := formula.reference formula.nodeOutline

example : (Formula.not (.literal true)).outline = "Ref(Not(True))" := by decide +kernel

end ModelFinder
