/-!
Bits: the Boolean values that circuits compute with.

A bit is a constant, a primary variable or a gate over other bits. Every bit has a label, a
signed 32-bit word. Within one circuit equal labels mean the same bit, so operations compare
labels and never descend into gates, although a gate determines its operands.

`Bit.eval` is the meaning of a bit under an assignment of the primary variables.
-/

namespace ModelFinder

inductive GateKind where
  | and
  | or
  | not
  | ite
deriving DecidableEq

def GateKind.name : GateKind → String
  | .and => "and"
  | .or => "or"
  | .not => "not"
  | .ite => "ite"

/-- A Boolean value. Gates carry their label first; an `ite` gate has its condition, the
value where the condition holds and the value elsewhere. -/
inductive Bit where
  | const (value : Bool)
  | var (label : Nat)
  | and (label : Int) (operands : List Bit)
  | or (label : Int) (operands : List Bit)
  | not (label : Int) (operand : Bit)
  | ite (label : Int) (condition thenBit elseBit : Bit)

namespace Bit

/-- The label of the last of a number of variables: the number itself, read as a signed
32-bit word. -/
def lastVariable (count : Nat) : Int := Int.bmod count UInt32.size

/-- Truth is labelled 0 and falsehood -1; variables have positive labels, and gates those
after the last variable. -/
def label : Bit → Int
  | .const true => 0
  | .const false => -1
  | .var label => label
  | .and label _ => label
  | .or label _ => label
  | .not label _ => label
  | .ite label _ _ _ => label

/-- Within one circuit two bits are the same if their labels are equal. -/
def same (left right : Bit) : Bool := left.label == right.label

def const? : Bit → Option Bool
  | .const value => some value
  | _ => none

def isConst (bit : Bit) : Bool := bit.const?.isSome

def isTrue (bit : Bit) : Bool := bit.same (.const true)

def isFalse (bit : Bit) : Bool := bit.same (.const false)

def isVar : Bit → Bool
  | .var _ => true
  | _ => false

def kind? : Bit → Option GateKind
  | .const _ | .var _ => none
  | .and _ _ => some .and
  | .or _ _ => some .or
  | .not _ _ => some .not
  | .ite _ _ _ _ => some .ite

def operands : Bit → List Bit
  | .const _ | .var _ => []
  | .and _ operands => operands
  | .or _ operands => operands
  | .not _ operand => [operand]
  | .ite _ condition thenBit elseBit => [condition, thenBit, elseBit]

/-- A bit on one line: `T` or `F`, a variable as `v3`, and a gate as `g7:and(1,2)`, with its
label, what it computes and the labels of its operands. -/
def render (bit : Bit) : String :=
  match bit.kind? with
  | some kind =>
    let labels := bit.operands.map fun operand => toString operand.label
    "g" ++ toString bit.label ++ ":" ++ kind.name ++ "(" ++ ",".intercalate labels ++ ")"
  | none =>
    match bit.const? with
    | some value => if value then "T" else "F"
    | none => "v" ++ toString bit.label

mutual

def eval (assignment : Nat → Bool) : Bit → Bool
  | .const value => value
  | .var label => assignment label
  | .and _ operands => evalAll assignment operands
  | .or _ operands => evalAny assignment operands
  | .not _ operand => !operand.eval assignment
  | .ite _ condition thenBit elseBit =>
    bif condition.eval assignment then thenBit.eval assignment else elseBit.eval assignment

def evalAll (assignment : Nat → Bool) : List Bit → Bool
  | [] => true
  | bit :: rest => bit.eval assignment && evalAll assignment rest

def evalAny (assignment : Nat → Bool) : List Bit → Bool
  | [] => false
  | bit :: rest => bit.eval assignment || evalAny assignment rest

end

theorem evalAll_eq_all (assignment : Nat → Bool) (bits : List Bit) :
    evalAll assignment bits = bits.all (eval assignment) := by
  induction bits with
  | nil => simp [evalAll]
  | cons bit rest hypothesis => simp [evalAll, hypothesis]

theorem evalAny_eq_any (assignment : Nat → Bool) (bits : List Bit) :
    evalAny assignment bits = bits.any (eval assignment) := by
  induction bits with
  | nil => simp [evalAny]
  | cons bit rest hypothesis => simp [evalAny, hypothesis]

example : (Bit.or 7 [.var 1, .not 5 (.var 2)]).render = "g7:or(1,5)" := by decide +kernel

end Bit

end ModelFinder
