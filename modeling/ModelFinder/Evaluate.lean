import ModelFinder.IntRange
import ModelFinder.Instance
import ModelFinder.Scope
/-!
Evaluation of formulas and expressions over an instance, with integers of a bit width.

Nothing is skipped: both operands of a connective and every grounding of a quantifier are
evaluated, so an error anywhere in them is the result. Only the branch that a condition
does not choose is left alone.
-/

namespace ModelFinder

/-- Evaluation reads and changes the scope and may fail; the scope outlives a failure. -/
abbrev Evaluate := ExceptT Error (StateM (Scope TupleSet))

namespace IntRange

/-- A value shifted by an amount. Negative amounts and amounts of at least the width leave
only the fill, which is the sign for `sha` and zero otherwise. -/
def shift (range : IntRange) (op : IntOp) (value amount : Int) : Int :=
  if amount < 0 ∨ range.bitwidth ≤ amount then
    if op = .sha ∧ value < 0 then -1 else 0
  else
    match op with
    | .shl => range.wrap (value % range.size * Digits.weight amount.toNat)
    | .shr => range.wrap (value % range.size / Digits.weight amount.toNat)
    | _ => range.wrap (value / Digits.weight amount.toNat)

def bitwise (range : IntRange) (gate : BitVec range.bitwidth → BitVec range.bitwidth →
    BitVec range.bitwidth) (left right : Int) : Int :=
  (gate (.ofInt _ left) (.ofInt _ right)).toInt

def digits (range : IntRange) (value : Int) : List Nat :=
  (List.range (range.bitwidth - 1)).filter (Digits.digit value)

def sum (range : IntRange) (values : List Int) : Int :=
  values.foldl (fun total value => range.wrap (total + value)) 0

end IntRange

def IntOp.compute? (op : IntOp) (range : IntRange) (left right : IntExpr) (a b : Int) :
    Except Error Int :=
  match op with
  | .plus => .ok (range.wrap (a + b))
  | .minus => .ok (range.wrap (a - b))
  | .multiply => .ok (range.wrap (a * b))
  | .divide =>
    if b = 0 then .error (.divisionByZero left op right) else .ok (range.wrap (a.tdiv b))
  | .modulo =>
    if b = 0 then .error (.divisionByZero left op right) else .ok (range.wrap (a.tmod b))
  | .and => .ok (range.bitwise (· &&& ·) a b)
  | .or => .ok (range.bitwise (· ||| ·) a b)
  | .xor => .ok (range.bitwise (· ^^^ ·) a b)
  | .shl | .shr | .sha => .ok (range.shift op a b)

def IntUnaryOp.apply (op : IntUnaryOp) (range : IntRange) (value : Int) : Int :=
  match op with
  | .negate => range.wrap (-value)
  | .not => range.wrap (-value - 1)
  | .abs => range.wrap value.natAbs
  | .sgn => value.sign

def IntComparison.apply (op : IntComparison) (a b : Int) : Bool :=
  match op with
  | .eq => a == b
  | .lt => a < b
  | .lte => a ≤ b
  | .gt => a > b
  | .gte => a ≥ b

def Connective.apply (op : Connective) (a b : Bool) : Bool :=
  match op with
  | .and => a && b
  | .or => a || b
  | .implies => !a || b
  | .iff => a == b

/-- The truth of a connective over a list; only conjunction and disjunction have one. -/
def Connective.applyList? (op : Connective) (values : List Bool) : Except Error Bool :=
  match op with
  | .and => .ok (values.all id)
  | .or => .ok (values.any id)
  | .iff | .implies => .error (.invalidArgument (.notNary op))

def SetComparison.compute? (op : SetComparison) (left right : Expr) (a b : TupleSet) :
    Except Error Bool :=
  if a.arity ≠ b.arity then
    .error (.invalidArgument (.arityMismatch left a.arity right b.arity))
  else
    match op with
    | .equals => .ok (a == b)
    | .subset => .ok (a.isSubset b)

def Multiplicity.admits (amount : Multiplicity) (size : Nat) : Bool :=
  match amount with
  | .some => size > 0
  | .no => size == 0
  | .one => size == 1
  | .lone => size ≤ 1

def SetOp.compute? (op : SetOp) (left right : TupleSet) : Except Error TupleSet :=
  match op with
  | .join => left.join? right
  | .product => left.product? right
  | .union => left.union? right
  | .difference => left.difference? right
  | .intersection => left.intersection? right

namespace Instance

def constant? (model : Instance) (constant : SetConstant) : Except Error TupleSet :=
  let size := model.univ.size
  match constant with
  | .univ => TupleSet.all model.univ 1
  | .none => .ok (TupleSet.empty model.univ 1)
  | .iden =>
    TupleSet.ofIndices? model.univ 2 ((List.range size).map fun atom => atom * size + atom)
  | .ints => TupleSet.ofIndices? model.univ 1 (model.ints.map Prod.snd)

def castAtoms (model : Instance) (range : IntRange) (cast : IntCast) (value : Int) : List Nat :=
  match cast with
  | .value => (model.ints.filter fun entry => entry.1 == value).map Prod.snd
  | .bitset =>
    let weights := (range.digits value).filterMap fun position =>
      model.intAtom? (Digits.weight position)
    let sign := if value < 0 then (model.intAtom? range.min).toList else []
    weights ++ sign

/-- The bound integers whose atoms are in a unary set, wrapped. -/
def memberInts (model : Instance) (range : IntRange) (set : TupleSet) : List Int :=
  (model.ints.filter fun entry => set.containsIndex entry.2).map fun entry => range.wrap entry.1

end Instance

/-- Visits every grounding of declared variables and collects the results. A declaration is
its variable and the evaluation of its domain. -/
def visitGroundings {α : Type} : List (Variable × Evaluate TupleSet) → Evaluate α →
    Evaluate (List α)
  | [], visit => return [← visit]
  | (declared, domain) :: rest, visit => do
    let set ← domain
    let results ← set.toList.mapM fun index => do
      let singleton ← TupleSet.ofIndices? set.univ set.arity [index]
      Scope.binding declared singleton (visitGroundings rest visit)
    return results.flatten

mutual

def Expr.evaluate (model : Instance) (range : IntRange) : Expr → Evaluate TupleSet
  | .relation leaf =>
    match model.tuples? leaf with
    | some set => return set
    | none => throw (.unboundRelation leaf.name)
  | .variable leaf => do
    match (← get).lookup leaf with
    | some set => return set
    | none => throw (.unboundVariable leaf.name)
  | .constant leaf => model.constant? leaf
  | .binary op left right _ => do
    let leftSet ← left.evaluate model range
    let rightSet ← right.evaluate model range
    op.compute? leftSet rightSet
  | .union operands arity =>
    Expr.evaluateUnion model range (TupleSet.empty model.univ arity) operands
  | .ite condition thenExpr elseExpr _ => do
    if ← condition.evaluate model range then thenExpr.evaluate model range
    else elseExpr.evaluate model range
  | .ofInt cast value => do
    let number ← value.evaluate model range
    TupleSet.ofIndices? model.univ 1 (model.castAtoms range cast number)

def Expr.evaluateUnion (model : Instance) (range : IntRange) (result : TupleSet) :
    List Expr → Evaluate TupleSet
  | [] => return result
  | operand :: rest => do
    let set ← operand.evaluate model range
    let result ← result.union? set
    Expr.evaluateUnion model range result rest

def Formula.evaluate (model : Instance) (range : IntRange) : Formula → Evaluate Bool
  | .literal value => return value
  | .constant value => return value
  | .binary op left right => do
    let a ← left.evaluate model range
    let b ← right.evaluate model range
    return op.apply a b
  | .nary op operands => do op.applyList? (← Formula.evaluateAll model range operands)
  | .not operand => do return !(← operand.evaluate model range)
  | .compare op left right => do
    let leftSet ← left.evaluate model range
    let rightSet ← right.evaluate model range
    op.compute? left right leftSet rightSet
  | .multiplicity amount operand => do
    return amount.admits (← operand.evaluate model range).size
  | .quantified quantifier declarations body => do
    let values ← visitGroundings (Decl.evaluateDomains model range declarations)
      (body.evaluate model range)
    match quantifier with
    | .all => return values.all id
    | .some => return values.any id
  | .compareInts op left right => do
    let a ← left.evaluate model range
    let b ← right.evaluate model range
    return op.apply a b

def Formula.evaluateAll (model : Instance) (range : IntRange) :
    List Formula → Evaluate (List Bool)
  | [] => return []
  | formula :: rest => do
    let value ← formula.evaluate model range
    return value :: (← Formula.evaluateAll model range rest)

def IntExpr.evaluate (model : Instance) (range : IntRange) : IntExpr → Evaluate Int
  | .constant value => return range.wrap value
  | .binary op left right => do
    let a ← left.evaluate model range
    let b ← right.evaluate model range
    op.compute? range left right a b
  | .unary op operand => do return op.apply range (← operand.evaluate model range)
  | .sum operands => do return range.sum (← IntExpr.evaluateAll model range operands)
  | .count operand => do return range.wrap (← operand.evaluate model range).size
  | .sumOver declarations term => do
    let values ← visitGroundings (Decl.evaluateDomains model range declarations)
      (term.evaluate model range)
    return range.sum values
  | .ite condition thenInt elseInt => do
    if ← condition.evaluate model range then thenInt.evaluate model range
    else elseInt.evaluate model range
  | .sumOf operand => do
    if operand.arity ≠ 1 then throw (.invalidArgument (.nonUnarySum operand))
    let set ← operand.evaluate model range
    return range.sum (model.memberInts range set)

def IntExpr.evaluateAll (model : Instance) (range : IntRange) :
    List IntExpr → Evaluate (List Int)
  | [] => return []
  | value :: rest => do
    let number ← value.evaluate model range
    return number :: (← IntExpr.evaluateAll model range rest)

def Decl.evaluateDomains (model : Instance) (range : IntRange) :
    List Decl → List (Variable × Evaluate TupleSet)
  | [] => []
  | .oneOf declared domain :: rest =>
    (declared, domain.evaluate model range) :: Decl.evaluateDomains model range rest

end

namespace Instance

def run? {α : Type} (bitwidth : Nat) (evaluate : IntRange → Evaluate α) : Except Error α := do
  let range ← IntRange.ofBitwidth? bitwidth
  ((evaluate range).run.run Scope.empty).1

def formula? (model : Instance) (bitwidth : Nat) (formula : Formula) : Except Error Bool :=
  run? bitwidth fun range => formula.evaluate model range

def expr? (model : Instance) (bitwidth : Nat) (expr : Expr) : Except Error TupleSet :=
  run? bitwidth fun range => expr.evaluate model range

def int? (model : Instance) (bitwidth : Nat) (value : IntExpr) : Except Error Int :=
  run? bitwidth fun range => value.evaluate model range

end Instance

end ModelFinder
