import ModelFinder.Error
import ModelFinder.Circuit.Bit
import Std.Data.ExtTreeMap
/-!
Circuits grow gate by gate and never forget one. A circuit keeps every gate under its kind
and the labels of its operands, so asking twice for the same gate gives the same bit. A new
gate takes the label after all variables and gates, so operands always have smaller labels
than the gates above them. Labels are 32-bit words: `limited` says what becomes of a
computation that needs more of them than there are.

Every operation first tries to do without a new gate: constants fold away, operands of
conjunctions and disjunctions are sorted and made distinct, an operand beside its negation
decides the gate, and choices with equal or constant branches become simpler gates.
-/

namespace ModelFinder

/-- A circuit over the primary variables `1, …, primary`, whose integers are `width` bits
wide. -/
structure Circuit where
  primary : Nat
  width : Nat
  gates : Std.ExtTreeMap (List Int) Bit

abbrev Build := StateM Circuit

/-- Computations that may add gates to a circuit and may fail; gates made before a failure
stay. -/
abbrev TryBuild := ExceptT Error Build

def GateKind.code : GateKind → Int
  | .and => 0
  | .or => 1
  | .not => 2
  | .ite => 3

namespace Circuit

def empty (primary width : Nat) : Circuit := ⟨primary, width, ∅⟩

/-- The number of gates ever made, whether still in use or not. -/
def gateCount (circuit : Circuit) : Nat := circuit.gates.size

def nextLabel (circuit : Circuit) : Int :=
  Bit.lastVariable circuit.primary + 1 + circuit.gateCount

/-- The largest label. No gate gets it, because there is no label after it. -/
def maxLabel : Int := 2147483647

/-- A circuit with a label for the next gate has not run out of labels. -/
def checkLabels? (circuit : Circuit) : Except Error Unit :=
  if circuit.nextLabel ≤ maxLabel then .ok () else .error (.violation .overflow)

/-- A circuit without gates, over a number of variables that leaves labels for gates. -/
def empty? (primary width : Nat) : Except Error Circuit := do
  (empty primary width).checkLabels?
  return empty primary width

/-- The gates that there are labels for. -/
def labelled (circuit : Circuit) : Circuit :=
  { circuit with gates := circuit.gates.filter fun _ bit => bit.label < maxLabel }

/-- A computation that fails where it needs a label that does not exist. The gates that got
their labels before stay. -/
def limited {α : Type} (action : TryBuild α) : TryBuild α := ExceptT.mk fun circuit =>
  let (outcome, after) := action.run.run circuit
  match after.checkLabels? with
  | .ok _ => (outcome, after)
  | .error error => (.error error, after.labelled)

def var? (circuit : Circuit) (label : Int) : Except Error Bit :=
  if 0 < label ∧ label ≤ Bit.lastVariable circuit.primary then .ok (.var label.toNat)
  else .error (.violation (.labelOutOfRange circuit.primary))

/-- The last label of all is not for gates, so a circuit cannot have as many variables. -/
example : (empty? 2147483646 4).toOption.isSome ∧ (empty? 2147483647 4).toOption.isNone := by
  decide +kernel

end Circuit

def Bit.var? (label : Int) : Except Error Bit :=
  if 0 < label then .ok (.var label.toNat) else .error (.violation .nonPositiveLabel)

/-- The gate stored for a kind and operands, or a new one with the next label. -/
def Build.intern (kind : GateKind) (operands : List Bit) (make : Int → Bit) : Build Bit :=
  fun circuit =>
    let key := kind.code :: operands.map Bit.label
    match circuit.gates[key]? with
    | some bit => (bit, circuit)
    | none =>
      let bit := make circuit.nextLabel
      (bit, { circuit with gates := circuit.gates.insert key bit })

/-- Adds a bit to a list in strictly ascending order of labels; of two bits with one label
the added one is kept. -/
def Bit.insertOrdered (bit : Bit) : List Bit → List Bit
  | [] => [bit]
  | first :: rest =>
    if bit.label < first.label then bit :: first :: rest
    else if bit.label = first.label then bit :: rest
    else first :: insertOrdered bit rest

def Bit.ordered (bits : List Bit) : List Bit := bits.foldr Bit.insertOrdered []

def Bit.clash (bits : List Bit) : Bool :=
  bits.any fun
    | .not _ operand => bits.any operand.same
    | _ => false

namespace Build

def all (inputs : List Bit) : Build Bit :=
  if inputs.any Bit.isFalse then pure (.const false)
  else
    let operands := Bit.ordered (inputs.filter fun input => !input.isTrue)
    if Bit.clash operands then pure (.const false)
    else
      match operands with
      | [] => pure (.const true)
      | [operand] => pure operand
      | _ => intern .and operands (.and · operands)

def any (inputs : List Bit) : Build Bit :=
  if inputs.any Bit.isTrue then pure (.const true)
  else
    let operands := Bit.ordered (inputs.filter fun input => !input.isFalse)
    if Bit.clash operands then pure (.const true)
    else
      match operands with
      | [] => pure (.const false)
      | [operand] => pure operand
      | _ => intern .or operands (.or · operands)

def and (left right : Bit) : Build Bit := all [left, right]

def or (left right : Bit) : Build Bit := any [left, right]

def not (input : Bit) : Build Bit :=
  match input with
  | .const value => pure (.const !value)
  | .not _ operand => pure operand
  | _ => intern .not [input] (.not · input)

def ite (condition thenBit elseBit : Bit) : Build Bit :=
  match condition.const? with
  | some value => pure (if value then thenBit else elseBit)
  | none =>
    if thenBit.same elseBit then pure thenBit
    else if condition.same thenBit then or condition elseBit
    else if condition.same elseBit then and condition thenBit
    else
      match thenBit.const?, elseBit.const? with
      | some true, _ => or condition elseBit
      | some false, _ => do and (← not condition) elseBit
      | _, some true => do or (← not condition) thenBit
      | _, some false => and condition thenBit
      | none, none =>
        intern .ite [condition, thenBit, elseBit] (.ite · condition thenBit elseBit)

def xor (left right : Bit) : Build Bit := do ite left (← not right) right

def iff (left right : Bit) : Build Bit := do ite left right (← not right)

def implies (left right : Bit) : Build Bit := do or (← not left) right

def sum (left right carry : Bit) : Build Bit := do xor (← xor left right) carry

def carry (left right carry : Bit) : Build Bit := do
  let both ← and left right
  let either ← xor left right
  let passed ← and carry either
  or both passed

end Build

end ModelFinder
