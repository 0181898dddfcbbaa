import ModelFinder.Circuit.Word.Basic
/-!
Arithmetic on words. Results wrap: a sum has the width of its wider operand, every other
result the width of the first one. Narrower operands are extended by their sign.
-/

namespace ModelFinder.Word

/-- Ripple-carry addition of bit pairs, least significant first: the sum bits and the carry
out of the last pair. -/
def ripple (carry : Bit) : List (Bit × Bit) → Build (List Bit × Bit)
  | [] => pure ([], carry)
  | (left, right) :: rest => do
    let sum ← Build.sum left right carry
    let next ← Build.carry left right carry
    let (sums, out) ← ripple next rest
    return (sum :: sums, out)

def addWithCarry (left right : Word) (carry : Bit) : Build (Word × Bit) := do
  let (sums, out) ← ripple carry (left.pairs right)
  return (ofBits sums, out)

def plus (left right : Word) : Build Word := do
  return (← left.addWithCarry right (.const false)).1

def not (word : Word) : Build Word := do return ofBits (← word.bits.mapM Build.not)

def minus (left right : Word) : Build Word := do
  let complement ← right.not
  return (← left.addWithCarry complement (.const true)).1

def bitwise (gate : Bit → Bit → Build Bit) (left right : Word) : Build Word := do
  return ofBits (← (left.pairs right).mapM fun pair => gate pair.1 pair.2)

def and (left right : Word) : Build Word := bitwise Build.and left right

def or (left right : Word) : Build Word := bitwise Build.or left right

def xor (left right : Word) : Build Word := bitwise Build.xor left right

def choice (condition : Bit) (thenWord elseWord : Word) : Build Word :=
  match condition.const? with
  | some value => pure (if value then thenWord else elseWord)
  | none => bitwise (Build.ite condition) thenWord elseWord

def negate (word : Word) : Build Word := do (← word.not).plus word.oneLike

def negateIf (condition : Bit) (word : Word) : Build Word := do
  choice condition (← word.negate) word

def abs (word : Word) : Build Word := word.negateIf word.sign

/-- The sign as -1, 0 or 1: every bit but the lowest is the sign, and the lowest is set
unless the word is zero. -/
def sgn (word : Word) : Build Word := do
  let isZero ← Build.all (← word.bits.mapM Build.not)
  let lowest ← Build.not isZero
  return ⟨lowest :: List.replicate (word.width - 1) word.sign, by simp⟩

/-- Shift-and-add multiplication: for every digit of the multiplier, from position
`shift` on, the shifted multiplicand is added where the digit is set. -/
def addShifted (multiplicand product : Word) (shift : Nat) : List Bit → Build Word
  | [] => pure product
  | selector :: rest => do
    if selector.isFalse then addShifted multiplicand product (shift + 1) rest
    else
      let kept ← (multiplicand.bits.take (multiplicand.width - shift)).mapM
        fun bit => Build.and bit selector
      let product ← product.plus (ofBits (List.replicate shift (.const false) ++ kept))
      addShifted multiplicand product (shift + 1) rest

def multiply (left right : Word) : Build Word :=
  addShifted left (zero left.width) 0 (right.extendedBits left.width)

/-- Restoring division of magnitudes. The dividend's bits come most significant first; each
enters the remainder from below, and wherever the divisor fits it is taken away. The
quotient bits come most significant first. -/
def restoringDivision (divisorComplement : Word) (remainder : List Bit) :
    List Bit → Build (List Bit × List Bit)
  | [] => pure ([], remainder)
  | incoming :: rest => do
    let shifted := ofBits (incoming :: remainder.dropLast)
    let (difference, fits) ← shifted.addWithCarry divisorComplement (.const true)
    let remainder ← (shifted.bits.zip (difference.extendedBits shifted.width)).mapM
      fun pair => Build.ite fits pair.2 pair.1
    let (quotient, remainder) ← restoringDivision divisorComplement remainder rest
    return (fits :: quotient, remainder)

/-- Quotient, truncated toward zero, and remainder, with the sign of the dividend. Both are
unspecified where the divisor is zero. -/
def divideWithRemainder (left right : Word) : Build (Word × Word) := do
  let dividend ← left.abs
  let divisor ← right.abs
  let complement ← divisor.not
  let (quotient, remainder) ← restoringDivision complement
    (List.replicate left.width (.const false)) dividend.bits.reverse
  let signsDiffer ← Build.xor left.sign right.sign
  let quotient ← (ofBits quotient.reverse).negateIf signsDiffer
  let remainder ← (ofBits remainder).negateIf left.sign
  return (quotient, remainder)

def divide (left right : Word) : Build Word := do
  return (← left.divideWithRemainder right).1

def modulo (left right : Word) : Build Word := do
  return (← left.divideWithRemainder right).2

def addNeighbours : List Word → Build (List Word)
  | left :: right :: rest => do
    let sum ← left.plus right
    return sum :: (← addNeighbours rest)
  | words => pure words

/-- Adds neighbours until at most one word is left, or the given number of rounds is
used up. -/
def addRounds : Nat → List Word → Build (List Word)
  | rounds + 1, left :: right :: rest => do
    addRounds rounds (← addNeighbours (left :: right :: rest))
  | _, words => pure words

/-- The sum of any number of words as a balanced tree of additions; the empty sum is zero at
the circuit's width. Every round at least halves the number of words, so there are fewer
rounds than words. -/
def sumAll (words : List Word) : TryBuild Word := do
  match ← (addRounds words.length words : Build (List Word)) with
  | sum :: _ => return sum
  | [] => zero? (← get).width

end ModelFinder.Word
