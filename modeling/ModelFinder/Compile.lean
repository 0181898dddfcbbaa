import ModelFinder.IntRange
import ModelFinder.Leaves
import ModelFinder.Scope
import ModelFinder.Circuit.Word.Comparison
import ModelFinder.Circuit.Word.Shift
/-!
Compilation of formulas to bits, relational expressions to matrices and integer expressions
to words.

A variable is bound to a matrix with a single true cell. A quantifier compiles its body once
for every grounding: every choice of one cell from each domain in turn, together with the
conditions under which the chosen tuples belong to their domains. Later domains may mention
earlier variables, so domains are compiled while grounding.

Subterms are compiled from left to right; the order fixes the labels of the gates.
-/

namespace ModelFinder

/-- Compilation reads and changes the scope, adds gates, and may fail; scope and gates
outlive a failure. -/
abbrev Compile := ExceptT Error (StateT (Scope Matrix) Build)

instance : MonadLift TryBuild Compile where
  monadLift action := ExceptT.mk (liftM action.run)

def sameArity? (left right : Expr) : Except Error Unit :=
  if left.arity = right.arity then .ok ()
  else .error (.invalidArgument (.arityMismatch left left.arity right right.arity))

/-- What an operator needs to know about its operands before they are compiled. -/
def SetOp.admits? (op : SetOp) (left right : Expr) : Except Error Unit :=
  match op with
  | .join => do
    if (← Index.columns left.arity right.arity) < 3 then
      throw (.invalidArgument (.joinEmpty left.arity right.arity))
  | .union | .difference | .intersection => sameArity? left right
  | .product => .ok ()

def SetOp.build (op : SetOp) (left right : Matrix) : TryBuild Matrix :=
  match op with
  | .join => left.join? right
  | .product => left.product? right
  | .union => left.union? right
  | .difference => left.difference? right
  | .intersection => left.intersection? right

def SetComparison.build (op : SetComparison) (left right : Matrix) : TryBuild Bit :=
  match op with
  | .equals => left.equals? right
  | .subset => left.subset? right

def Multiplicity.build (amount : Multiplicity) (matrix : Matrix) : Build Bit :=
  match amount with
  | .some => matrix.some
  | .one => matrix.one
  | .lone => matrix.lone
  | .no => matrix.none

def Connective.build (op : Connective) (left right : Bit) : Build Bit :=
  match op with
  | .and => Build.and left right
  | .or => Build.or left right
  | .iff => Build.iff left right
  | .implies => Build.implies left right

def Connective.buildList (op : Connective) (operands : List Bit) : TryBuild Bit :=
  match op with
  | .and => Build.all operands
  | .or => Build.any operands
  | .iff | .implies => throw (.invalidArgument (.notNary op))

def IntComparison.build (op : IntComparison) (left right : Word) : Build Bit :=
  match op with
  | .eq => left.eq right
  | .lt => left.lt right
  | .lte => left.lte right
  | .gt => left.gt right
  | .gte => left.gte right

def IntUnaryOp.build (op : IntUnaryOp) (operand : Word) : Build Word :=
  match op with
  | .negate => operand.negate
  | .abs => operand.abs
  | .sgn => operand.sgn
  | .not => operand.not

def IntOp.build (op : IntOp) (left right : Word) : Build Word :=
  match op with
  | .plus => left.plus right
  | .minus => left.minus right
  | .multiply => left.multiply right
  | .divide => left.divide right
  | .modulo => left.modulo right
  | .and => left.and right
  | .or => left.or right
  | .xor => left.xor right
  | .shl => left.shl right
  | .shr => left.shr right
  | .sha => left.sha right

/-- What an operator needs to know about its right operand's word: a divisor must not be
constantly zero. -/
def IntOp.admits? (op : IntOp) (left right : IntExpr) (rightWord : Word) : Except Error Unit :=
  match op with
  | .divide | .modulo => do
    if (← rightWord.value?) == some 0 then throw (.divisionByZero left op right)
  | _ => .ok ()

/-- The unary matrix of atoms and conditions; an atom with several conditions is in it where
one of them holds. -/
def atomMatrix (universeSize : Nat) (conditions : List (Nat × Bit)) : Build Matrix := do
  let combined ← (Matrix.grouped conditions).mapM fun entry => do
    return (entry.1, ← Build.any entry.2)
  return combined.foldl (fun matrix entry => matrix.set entry.1 entry.2)
    (Matrix.empty universeSize 1)

/-- The atoms bound to the value of a word, each under the condition that the word has the
atom's integer as its value. Integers beyond the range are no word's value. -/
def valueAtoms (leaves : Leaves) (range : IntRange) (word : Word) : Build Matrix := do
  let bound := leaves.bounds.intAtoms.toList.filter fun entry => range.contains entry.1
  let conditions ← bound.mapM fun entry => do
    return (entry.2, ← word.eq (Word.constant entry.1 range.bitwidth))
  atomMatrix leaves.universeSize conditions

/-- The atoms bound to powers of two, each under the condition that the word's bit of this
weight is set; the atom of the smallest value stands for the sign. -/
def bitAtoms (leaves : Leaves) (range : IntRange) (word : Word) : Build Matrix :=
  let weights := (List.range (range.bitwidth - 1)).filterMap fun position =>
    (leaves.bounds.intAtom? (Digits.weight position)).map fun atom => (atom, word.bit position)
  let sign := (leaves.bounds.intAtom? range.min).toList.map fun atom => (atom, word.sign)
  atomMatrix leaves.universeSize (weights ++ sign)

/-- The bound integers whose atoms may be in a unary matrix, each where its atom is in it
and zero elsewhere. -/
def memberInts (leaves : Leaves) (range : IntRange) (matrix : Matrix) : Build (List Word) :=
  let members := leaves.bounds.intAtoms.toList.filter fun entry =>
    !(matrix.cell entry.2).isFalse
  members.mapM fun entry =>
    Word.choice (matrix.cell entry.2) (Word.constant entry.1 range.bitwidth)
      (Word.zero range.bitwidth)

/-- Visits every grounding of declared variables and collects the results. A declaration is
its variable and the computation of its domain; `pending` holds the membership conditions of
the variables bound so far. -/
def ground {α : Type} : List (Variable × Compile Matrix) → List Bit →
    (List Bit → Compile α) → Compile (List α)
  | [], pending, visit => return [← visit pending]
  | (declared, domain) :: rest, pending, visit => do
    let matrix ← domain
    let results ← matrix.entries.mapM fun entry =>
      Scope.binding declared (Matrix.constant matrix.universeSize matrix.arity [entry.1])
        (ground rest (pending ++ [entry.2]) visit)
    return results.flatten

mutual

def Expr.compile (leaves : Leaves) (range : IntRange) : Expr → Compile Matrix
  | .relation leaf => leaves.relationMatrix? leaf
  | .variable leaf => do
    match (← getThe (Scope Matrix)).lookup leaf with
    | some matrix => return matrix
    | none => throw (.unboundVariable leaf.name)
  | .constant leaf => return leaves.constantMatrix leaf
  | .binary op left right _ => do
    op.admits? left right
    let leftMatrix ← left.compile leaves range
    let rightMatrix ← right.compile leaves range
    op.build leftMatrix rightMatrix
  | .union operands arity =>
    Expr.compileUnion leaves range arity (Matrix.empty leaves.universeSize arity) operands
  | .ite condition thenExpr elseExpr _ => do
    sameArity? thenExpr elseExpr
    let bit ← condition.compile leaves range
    match bit.const? with
    | some true => thenExpr.compile leaves range
    | some false => elseExpr.compile leaves range
    | none =>
      let thenMatrix ← thenExpr.compile leaves range
      let elseMatrix ← elseExpr.compile leaves range
      Matrix.choice? bit thenMatrix elseMatrix
  | .ofInt cast value => do
    let word ← value.compile leaves range
    match cast with
    | .value => valueAtoms leaves range word
    | .bitset => bitAtoms leaves range word

def Expr.compileUnion (leaves : Leaves) (range : IntRange) (arity : Nat) (result : Matrix) :
    List Expr → Compile Matrix
  | [] => return result
  | operand :: rest => do
    if operand.arity ≠ arity then throw (.invalidArgument (.unionOperand operand arity))
    let matrix ← operand.compile leaves range
    Expr.compileUnion leaves range arity (← result.union? matrix) rest

def Formula.compile (leaves : Leaves) (range : IntRange) : Formula → Compile Bit
  | .literal value => return .const value
  | .constant value => return .const value
  | .binary op left right => do
    let leftBit ← left.compile leaves range
    let rightBit ← right.compile leaves range
    op.build leftBit rightBit
  | .nary op operands => do op.buildList (← Formula.compileAll leaves range operands)
  | .not operand => do Build.not (← operand.compile leaves range)
  | .compare op left right => do
    sameArity? left right
    let leftMatrix ← left.compile leaves range
    let rightMatrix ← right.compile leaves range
    op.build leftMatrix rightMatrix
  | .multiplicity amount operand => do amount.build (← operand.compile leaves range)
  | .quantified quantifier declarations body => do
    let domains := Decl.compileDomains leaves range declarations
    match quantifier with
    | .some =>
      let instances ← ground domains [] fun memberships => do
        let value ← body.compile leaves range
        let present ← Build.all memberships
        Build.and present value
      Build.any instances
    | .all =>
      let instances ← ground domains [] fun memberships => do
        let value ← body.compile leaves range
        let present ← Build.all memberships
        Build.implies present value
      Build.all instances
  | .compareInts op left right => do
    let leftWord ← left.compile leaves range
    let rightWord ← right.compile leaves range
    op.build leftWord rightWord

def Formula.compileAll (leaves : Leaves) (range : IntRange) : List Formula → Compile (List Bit)
  | [] => return []
  | formula :: rest => do
    let bit ← formula.compile leaves range
    return bit :: (← Formula.compileAll leaves range rest)

def IntExpr.compile (leaves : Leaves) (range : IntRange) : IntExpr → Compile Word
  | .constant value => return Word.constant value range.bitwidth
  | .binary op left right => do
    let leftWord ← left.compile leaves range
    let rightWord ← right.compile leaves range
    op.admits? left right rightWord
    op.build leftWord rightWord
  | .unary op operand => do op.build (← operand.compile leaves range)
  | .sum operands => do Word.sumAll (← IntExpr.compileAll leaves range operands)
  | .count operand => do Matrix.popcount (← operand.compile leaves range)
  | .sumOver declarations term => do
    let terms ← ground (Decl.compileDomains leaves range declarations) [] fun memberships => do
      let value ← term.compile leaves range
      let present ← Build.all memberships
      Word.choice present value (Word.zero range.bitwidth)
    Word.sumAll terms
  | .ite condition thenInt elseInt => do
    let bit ← condition.compile leaves range
    match bit.const? with
    | some true => thenInt.compile leaves range
    | some false => elseInt.compile leaves range
    | none =>
      let thenWord ← thenInt.compile leaves range
      let elseWord ← elseInt.compile leaves range
      Word.choice bit thenWord elseWord
  | .sumOf operand => do
    if operand.arity ≠ 1 then throw (.invalidArgument (.nonUnarySum operand))
    let matrix ← operand.compile leaves range
    Word.sumAll (← memberInts leaves range matrix)

def IntExpr.compileAll (leaves : Leaves) (range : IntRange) :
    List IntExpr → Compile (List Word)
  | [] => return []
  | value :: rest => do
    let word ← value.compile leaves range
    return word :: (← IntExpr.compileAll leaves range rest)

def Decl.compileDomains (leaves : Leaves) (range : IntRange) :
    List Decl → List (Variable × Compile Matrix)
  | [] => []
  | .oneOf declared domain :: rest =>
    (declared, domain.compile leaves range) :: Decl.compileDomains leaves range rest

end

/-- A compiled value with the circuit that it belongs to and the meaning of the circuit's
primary variables. -/
structure Compiled (α : Type) where
  value : α
  circuit : Circuit
  leaves : Leaves

/-- Runs a compilation over bounds, from an empty circuit and without variables in scope. -/
def Compiled.run? {α : Type} (bounds : Bounds) (bitwidth : Nat)
    (compile : Leaves → IntRange → Compile α) : Except Error (Compiled α) := do
  let range ← IntRange.ofBitwidth? bitwidth
  let leaves ← Leaves.ofBounds? bounds
  let start ← Circuit.empty? leaves.primary bitwidth
  let ((outcome, _), circuit) := ((compile leaves range).run.run Scope.empty).run start
  circuit.checkLabels?
  return ⟨← outcome, circuit, leaves⟩

def Formula.compiled? (formula : Formula) (bounds : Bounds) (bitwidth : Nat) :
    Except Error (Compiled Bit) :=
  Compiled.run? bounds bitwidth fun leaves range => formula.compile leaves range

def IntExpr.compiled? (value : IntExpr) (bounds : Bounds) (bitwidth : Nat) :
    Except Error (Compiled Word) :=
  Compiled.run? bounds bitwidth fun leaves range => value.compile leaves range

end ModelFinder
