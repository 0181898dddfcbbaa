import ModelFinder.Syntax.Basic
/-!
Operators by the names and symbols they are written with.
-/

namespace ModelFinder

def SetConstant.ofName? : String → Option SetConstant
  | "univ" => some .univ
  | "iden" => some .iden
  | "none" => some .none
  | "ints" => some .ints
  | _ => .none

def SetComparison.ofName? : String → Option SetComparison
  | "eq" => some .equals
  | "in" => some .subset
  | _ => none

def Quantifier.ofName? : String → Option Quantifier
  | "forall" => Option.some .all
  | "exists" => Option.some .some
  | _ => none

def IntCast.ofName? : String → Option IntCast
  | "int2expr" => some .value
  | "int2bits" => some .bitset
  | _ => none

def SetOp.ofName? : String → Option SetOp
  | "join" => some .join
  | "product" => some .product
  | "union" => some .union
  | "diff" => some .difference
  | "inter" => some .intersection
  | _ => none

def Connective.ofName? : String → Option Connective
  | "and" => some .and
  | "or" => some .or
  | "iff" => some .iff
  | "implies" => some .implies
  | _ => none

def Multiplicity.ofName? : String → Option Multiplicity
  | "some" => .some .some
  | "no" => .some .no
  | "one" => .some .one
  | "lone" => .some .lone
  | _ => .none

def IntOp.ofSymbol? (symbol : String) : Option IntOp :=
  [.plus, .minus, .multiply, .divide, .modulo, .and, .or, .xor, .shl, .shr, .sha].find?
    fun op => op.symbol == symbol

def IntUnaryOp.ofName? : String → Option IntUnaryOp
  | "neg" => some .negate
  | "abs" => some .abs
  | "sgn" => some .sgn
  | "bnot" => some .not
  | _ => none

def IntComparison.ofSymbol? : String → Option IntComparison
  | "=" => some .eq
  | "<" => some .lt
  | "<=" => some .lte
  | ">" => some .gt
  | ">=" => some .gte
  | _ => none

theorem IntOp.ofSymbol?_symbol (op : IntOp) : IntOp.ofSymbol? op.symbol = some op := by
  cases op <;> decide +kernel

end ModelFinder
