/-!
The language: relational expressions, formulas and integer expressions over a finite
universe.

A relation denotes a set of tuples, a variable stands for one tuple of the domain it
is declared over, and an integer is tied to relations in both directions: the size of
an expression is an integer, and an integer stands for the atoms bound to it.
-/

namespace ModelFinder

/-- A relation: a named leaf of fixed arity. The identifier tells relations of the same
name apart. -/
structure Relation where
  id : Nat
  name : String
  arity : Nat
deriving DecidableEq

/-- A variable of a quantifier or a quantified sum. Like relations, variables of the same
name are told apart by their identifiers. -/
structure Variable where
  id : Nat
  name : String
  arity : Nat
deriving DecidableEq

/-- Fixed relations: all atoms, the pairs `(a, a)`, no atom, and the atoms bound to
integers. -/
inductive SetConstant where
  | univ
  | iden
  | none
  | ints
deriving DecidableEq

inductive SetOp where
  | join
  | product
  | union
  | difference
  | intersection
deriving DecidableEq

inductive SetComparison where
  | equals
  | subset
deriving DecidableEq

inductive Multiplicity where
  | some
  | one
  | lone
  | no
deriving DecidableEq

inductive Quantifier where
  | all
  | some
deriving DecidableEq

inductive Connective where
  | and
  | or
  | iff
  | implies
deriving DecidableEq

/-- Binary integer operators; `shr` fills with zeros and `sha` with the sign. -/
inductive IntOp where
  | plus
  | minus
  | multiply
  | divide
  | modulo
  | and
  | or
  | xor
  | shl
  | shr
  | sha
deriving DecidableEq

/-- Unary integer operators; `not` complements every bit and `sgn` is the sign. -/
inductive IntUnaryOp where
  | negate
  | abs
  | sgn
  | not
deriving DecidableEq

inductive IntComparison where
  | eq
  | lt
  | lte
  | gt
  | gte
deriving DecidableEq

/-- Casts from integers to sets of atoms: the atoms bound to the value itself, or the atoms
bound to the powers of two that make it up. -/
inductive IntCast where
  | value
  | bitset
deriving DecidableEq

def IntOp.symbol : IntOp → String
  | .plus => "+"
  | .minus => "-"
  | .multiply => "*"
  | .divide => "/"
  | .modulo => "%"
  | .and => "&"
  | .or => "|"
  | .xor => "^"
  | .shl => "<<"
  | .shr => ">>>"
  | .sha => ">>"

mutual

/-- A relational expression. Compound expressions carry the arity they were declared with;
the checked constructors of `ModelFinder.Syntax.Formation` declare the right one. -/
inductive Expr where
  | relation (leaf : Relation)
  | variable (leaf : Variable)
  | constant (leaf : SetConstant)
  | binary (op : SetOp) (left right : Expr) (arity : Nat)
  | union (operands : List Expr) (arity : Nat)
  | ite (condition : Formula) (thenExpr elseExpr : Expr) (arity : Nat)
  | ofInt (cast : IntCast) (value : IntExpr)

/-- A formula. A truth value can be written inline, as a `literal`, or as a shared node, a
`constant`; the two print differently and mean the same. -/
inductive Formula where
  | literal (value : Bool)
  | constant (value : Bool)
  | binary (op : Connective) (left right : Formula)
  | nary (op : Connective) (operands : List Formula)
  | not (operand : Formula)
  | compare (op : SetComparison) (left right : Expr)
  | multiplicity (amount : Multiplicity) (operand : Expr)
  | quantified (quantifier : Quantifier) (declarations : List Decl) (body : Formula)
  | compareInts (op : IntComparison) (left right : IntExpr)

inductive IntExpr where
  | constant (value : Int)
  | binary (op : IntOp) (left right : IntExpr)
  | unary (op : IntUnaryOp) (operand : IntExpr)
  | sum (operands : List IntExpr)
  | count (operand : Expr)
  | sumOver (declarations : List Decl) (term : IntExpr)
  | ite (condition : Formula) (thenInt elseInt : IntExpr)
  | sumOf (operand : Expr)

inductive Decl where
  | oneOf (declared : Variable) (domain : Expr)

end

def Decl.declared : Decl → Variable
  | .oneOf declared _ => declared

def Decl.domain : Decl → Expr
  | .oneOf _ domain => domain

def Expr.arity : Expr → Nat
  | .relation leaf => leaf.arity
  | .variable leaf => leaf.arity
  | .constant .iden => 2
  | .constant _ => 1
  | .binary _ _ _ arity => arity
  | .union _ arity => arity
  | .ite _ _ _ arity => arity
  | .ofInt _ _ => 1

end ModelFinder
