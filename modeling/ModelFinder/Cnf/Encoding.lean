import ModelFinder.Circuit.Bit
import ModelFinder.Cnf.Basic
import Std.Data.ExtTreeMap
/-!
The clauses that say that the roots of a circuit hold.

Primary variables keep their labels. Every gate gets the next free variable after its
operands have theirs, and clauses that make this variable equivalent to the gate; a gate met
again keeps its variable. The numbering therefore depends only on the shape of the circuit.
-/

namespace ModelFinder

/-- An encoding in progress: the clauses so far, the next free variable, the variables of the
gates by label, and the variable that stands for truth, if one was needed. -/
structure Encoding where
  cnf : Cnf
  next : Literal
  gateVariables : Std.ExtTreeMap Int Literal
  truth : Option Literal

abbrev Encode := StateM Encoding

namespace Encode

def emit (clause : Clause) : Encode Unit :=
  modify fun encoding => { encoding with cnf := encoding.cnf.add clause }

def emitAll (clauses : List Clause) : Encode Unit := clauses.forM emit

def fresh : Encode Literal :=
  modifyGet fun encoding => (encoding.next, { encoding with next := encoding.next + 1 })

/-- The variable that stands for truth, fixed by a clause when it is first needed. -/
def truth : Encode Literal := do
  match (← get).truth with
  | some output => return output
  | none =>
    let output ← fresh
    emit [output]
    modify fun encoding => { encoding with truth := some output }
    return output

def conjunctionClauses (output : Literal) (inputs : List Literal) : List Clause :=
  (inputs.map (- ·) ++ [output]) :: inputs.map fun input => [input, -output]

def disjunctionClauses (output : Literal) (inputs : List Literal) : List Clause :=
  (inputs ++ [-output]) :: inputs.map fun input => [-input, output]

def negationClauses (output input : Literal) : List Clause :=
  [[input, output], [-input, -output]]

def choiceClauses (output condition thenLiteral elseLiteral : Literal) : List Clause :=
  [[-condition, -thenLiteral, output], [-condition, thenLiteral, -output],
    [condition, -elseLiteral, output], [condition, elseLiteral, -output]]

/-- The variable of a gate; `define` makes one if the gate has none yet. -/
def named (label : Int) (define : Encode Literal) : Encode Literal := do
  match (← get).gateVariables[label]? with
  | some output => return output
  | none =>
    let output ← define
    modify fun encoding =>
      { encoding with gateVariables := encoding.gateVariables.insert label output }
    return output

/-- Takes a free variable and makes it equivalent to something by clauses. -/
def defined (clauses : Literal → List Clause) : Encode Literal := do
  let output ← fresh
  emitAll (clauses output)
  return output

mutual

def literal : Bit → Encode Literal
  | .const value => do
    let output ← truth
    return if value then output else -output
  | .var label => return label
  | .and label operands => named label do
    let inputs ← literals operands
    defined fun output => conjunctionClauses output inputs
  | .or label operands => named label do
    let inputs ← literals operands
    defined fun output => disjunctionClauses output inputs
  | .not label operand => named label do
    let input ← literal operand
    defined fun output => negationClauses output input
  | .ite label condition thenBit elseBit => named label do
    let conditionLiteral ← literal condition
    let thenLiteral ← literal thenBit
    let elseLiteral ← literal elseBit
    defined fun output => choiceClauses output conditionLiteral thenLiteral elseLiteral

def literals : List Bit → Encode (List Literal)
  | [] => return []
  | bit :: rest => do
    let first ← literal bit
    return first :: (← literals rest)

end

def assertAll : List Bit → Encode Unit
  | [] => return
  | bit :: rest => do
    emit [← literal bit]
    assertAll rest

/-- Asserts a root. A true root needs no clause, a false one the empty clause, and a
conjunction is asserted operand by operand. -/
def assertRoot : Bit → Encode Unit
  | .const true => return
  | .const false => emit []
  | .and _ operands => assertAll operands
  | root => assertAll [root]

end Encode

/-- The clauses that say that all roots of a circuit over `primary` variables hold. Like
labels, variables are signed 32-bit words, and their number is the last one, read without a
sign. -/
def Cnf.ofRoots (primary : Nat) (roots : List Bit) : Cnf :=
  let start : Encoding := ⟨⟨primary, #[]⟩, Bit.lastVariable primary + 1, ∅, none⟩
  let encoding := ((roots.forM Encode.assertRoot).run start).2
  let last := ((encoding.next - 1) % UInt32.size).toNat
  { encoding.cnf with variableCount := Nat.max encoding.cnf.variableCount last }

/-- Over two variables, the root "not both" needs a variable for the conjunction and one for
its negation. -/
example : (Cnf.ofRoots 2 [.not 4 (.and 3 [.var 1, .var 2])]).clauses.toList
    = [[-1, -2, 3], [1, -3], [2, -3], [3, 4], [-3, -4], [4]] := by decide +kernel

end ModelFinder
