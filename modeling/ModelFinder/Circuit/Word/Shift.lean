import ModelFinder.Circuit.Word.Basic
/-!
Shifts of words by words. The amount is read as a signed number: a shift by a negative
amount, or by at least the width, leaves only the fill.
-/

namespace ModelFinder

/-- Directions of a shift; an arithmetic shift to the right fills with the sign, the others
with false bits. -/
inductive ShiftKind where
  | left
  | logicalRight
  | arithmeticRight
deriving DecidableEq

namespace Word

def move (kind : ShiftKind) (fill : Bit) (distance : Nat) (bits : List Bit) : List Bit :=
  let entering := List.replicate (Nat.min distance bits.length) fill
  match kind with
  | .left => entering ++ bits.take (bits.length - distance)
  | .logicalRight | .arithmeticRight => bits.drop distance ++ entering

/-- A barrel shifter: stage by stage, bits move by `2 ^ stage` where the amount's bit is set.
Stages beyond 62 move no further than stage 62, which is beyond any width. -/
def barrel (kind : ShiftKind) (fill : Bit) (current : List Bit) (stage : Nat) :
    List Bit → Build (List Bit)
  | [] => pure current
  | selector :: rest => do
    if selector.isFalse then barrel kind fill current (stage + 1) rest
    else
      let moved := move kind fill (Digits.weight (Nat.min stage 62)) current
      let next ← (moved.zip current).mapM fun pair => Build.ite selector pair.1 pair.2
      barrel kind fill next (stage + 1) rest

def shift (kind : ShiftKind) (word amount : Word) : Build Word := do
  let fill := if kind = .arithmeticRight then word.sign else .const false
  let moved ← barrel kind fill word.bits 0 amount.bits.dropLast
  return ofBits (← moved.mapM fun bit => Build.ite amount.sign fill bit)

def shl (word amount : Word) : Build Word := shift .left word amount

def shr (word amount : Word) : Build Word := shift .logicalRight word amount

def sha (word amount : Word) : Build Word := shift .arithmeticRight word amount

end Word

end ModelFinder
