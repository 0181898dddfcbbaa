import ModelFinder.Digits
import ModelFinder.Error
/-!
The integers of a bit width: the two's complement range from `-2 ^ (w - 1)` to
`2 ^ (w - 1) - 1`. Compiler and evaluator take their bounds from one `IntRange`,
so wrapping and range checks agree everywhere.
-/

namespace ModelFinder

structure IntRange where
  bitwidth : Nat
  one_le_bitwidth : 1 ≤ bitwidth := by decide
  bitwidth_le : bitwidth ≤ 32 := by decide
deriving DecidableEq

namespace IntRange

/-- The range of a bit width between 1 and 32; any other width is refused. -/
def ofBitwidth? (bitwidth : Nat) : Except Error IntRange :=
  if bounds : 1 ≤ bitwidth ∧ bitwidth ≤ 32 then .ok ⟨bitwidth, bounds.1, bounds.2⟩
  else .error (.invalidBitwidth bitwidth)

def size (range : IntRange) : Nat := Digits.weight range.bitwidth

def min (range : IntRange) : Int := -Digits.weight (range.bitwidth - 1)

def max (range : IntRange) : Int := Digits.weight (range.bitwidth - 1) - 1

def mask (range : IntRange) : Int := Digits.weight range.bitwidth - 1

def contains (range : IntRange) (value : Int) : Bool :=
  decide (range.min ≤ value) && decide (value ≤ range.max)

/-- The member of the range that is congruent to `value` modulo `2 ^ w`. -/
def wrap (range : IntRange) (value : Int) : Int := Int.bmod value range.size

def firstValues (range : IntRange) (limit : Nat) : List Int :=
  (List.range (Nat.min limit range.size)).map fun (offset : Nat) => range.min + (offset : Int)

/-- Four bits wrap 8 to -8, and a single bit has the values -1 and 0. -/
example : IntRange.wrap ⟨4, by decide, by decide⟩ 8 = -8
    ∧ IntRange.firstValues ⟨1, by decide, by decide⟩ 5 = [-1, 0] := by decide

end IntRange

inductive IntEncoding where
  | twosComplement
deriving DecidableEq

def IntEncoding.name : IntEncoding → String
  | .twosComplement => "TwosComplement"

end ModelFinder
