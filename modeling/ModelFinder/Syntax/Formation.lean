import ModelFinder.Index
/-!
Checked constructors. They declare the arity of every compound expression from the
arities of its parts, and refuse parts that do not fit together.
-/

namespace ModelFinder

def Relation.ofArity? (id : Nat) (name : String) (arity : Nat) : Except Error Relation :=
  if arity = 0 then .error (.violation (.relationArity arity)) else .ok ⟨id, name, arity⟩

def Variable.ofArity? (id : Nat) (name : String) (arity : Nat) : Except Error Variable :=
  if arity = 0 then .error (.violation .variableArity) else .ok ⟨id, name, arity⟩

namespace Expr

/-- Applies an operator. Union, difference and intersection need equal arities, and a join
must leave at least one column. -/
def combine? (op : SetOp) (left right : Expr) : Except Error Expr :=
  match op with
  | .union | .difference | .intersection =>
    if left.arity = right.arity then .ok (.binary op left right left.arity)
    else .error (.violation (.incompatibleArities op left.arity right.arity))
  | .join => do
    let arity ← Index.joinedColumns left.arity right.arity
    if arity = 0 then throw (.violation (.joinArity left.arity right.arity))
    return .binary op left right arity
  | .product => do return .binary op left right (← Index.columns left.arity right.arity)

/-- The union of a nonempty list of expressions of one arity; a single expression is its
own union. -/
def unionAll? : List Expr → Except Error Expr
  | [] => .error (.violation .emptyUnion)
  | [operand] => .ok operand
  | first :: rest =>
    if rest.all fun operand => operand.arity == first.arity then
      .ok (.union (first :: rest) first.arity)
    else .error (.violation .unionArities)

end Expr

def Formula.choose? (condition : Formula) (thenExpr elseExpr : Expr) : Except Error Expr :=
  if thenExpr.arity = elseExpr.arity then
    .ok (.ite condition thenExpr elseExpr thenExpr.arity)
  else .error (.violation (.branchArities thenExpr elseExpr))

/-- The conjunction of a list; an empty one is true and a single formula stands for
itself. -/
def Formula.andAll : List Formula → Formula
  | [] => .literal true
  | [operand] => operand
  | operands => .nary .and operands

def Formula.orAll : List Formula → Formula
  | [] => .literal false
  | [operand] => operand
  | operands => .nary .or operands

def IntExpr.sumAll? : List IntExpr → Except Error IntExpr
  | [] => .error (.violation .emptySum)
  | [operand] => .ok operand
  | operands => .ok (.sum operands)

def Decl.oneOf? (declared : Variable) (domain : Expr) : Except Error Decl :=
  if declared.arity = domain.arity then .ok (.oneOf declared domain)
  else .error (.violation (.declarationArity declared domain.arity))

/-- Quantifiers and quantified sums need at least one declaration. -/
def Decl.nonempty? (declarations : List Decl) : Except Error (List Decl) :=
  if declarations.isEmpty then .error (.violation .emptyDeclarations) else .ok declarations

/-- Joining a binary with a unary expression leaves one column, two unary ones none. -/
example :
    (Expr.combine? .join (.constant .iden) (.constant .univ)).toOption.map Expr.arity = some 1
      ∧ (Expr.combine? .join (.constant .univ) (.constant .univ)).toOption.isNone := by
  decide

end ModelFinder
