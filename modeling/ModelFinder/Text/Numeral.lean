import ModelFinder.Digits
/-!
Reading of signed decimal numerals, of any size and of 32 bits.
-/

namespace ModelFinder.Text

def readDigits (digits : List Char) : Option Nat :=
  if digits.isEmpty || digits.any (fun digit => !digit.isDigit) then none
  else some (digits.foldl (fun value digit => value * 10 + (digit.toNat - '0'.toNat)) 0)

def readInt : List Char → Option Int
  | '-' :: digits => (readDigits digits).map fun value : Nat => -(value : Int)
  | '+' :: digits => (readDigits digits).map fun value : Nat => (value : Int)
  | digits => (readDigits digits).map fun value : Nat => (value : Int)

def readInt32 (text : List Char) : Option Int :=
  (readInt text).filter fun value =>
    decide (-Digits.weight 31 ≤ value) && decide (value < Digits.weight 31)

example : readInt32 "+007".toList = some 7 ∧ readInt32 "-0".toList = some 0 := by decide

/-- A sign alone, a fraction and a value beyond 32 bits are no numerals. -/
example : readInt32 "-".toList = none ∧ readInt32 "1.0".toList = none
    ∧ readInt32 "2147483648".toList = none := by decide

end ModelFinder.Text
