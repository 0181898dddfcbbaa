import ModelFinder.Circuit.Gates
import ModelFinder.Digits
/-!
Words: integers in two's complement whose bits are bits of a circuit, least significant bit
first. The last bit is the sign; a word read beyond its width repeats its sign.
-/

namespace ModelFinder

structure Word where
  bits : List Bit
  bits_ne_nil : bits ≠ []

namespace Word

/-- The word of a list of bits; the empty list has no sign and stands for a single false
bit. -/
def ofBits (bits : List Bit) : Word :=
  if nonempty : bits ≠ [] then ⟨bits, nonempty⟩ else ⟨[.const false], by simp⟩

def ofBits? (bits : List Bit) : Except Error Word :=
  if nonempty : bits ≠ [] then .ok ⟨bits, nonempty⟩ else .error (.violation .emptyWord)

@[simp] theorem bits_ofBits {bits : List Bit} (nonempty : bits ≠ []) :
    (ofBits bits).bits = bits := by
  simp [ofBits, nonempty]

def width (word : Word) : Nat := word.bits.length

theorem width_pos (word : Word) : 0 < word.width :=
  List.length_pos_iff.mpr word.bits_ne_nil

def sign (word : Word) : Bit := word.bits.getLast word.bits_ne_nil

def bit (word : Word) (position : Nat) : Bit := word.bits[position]?.getD word.sign

/-- The low bits of a word, extended by its sign where they are more than it has. -/
def extendedBits (word : Word) (width : Nat) : List Bit :=
  word.bits.take width ++ List.replicate (width - word.width) word.sign

/-- The bit pairs of two words, the narrower one extended by its sign. -/
def pairs (left right : Word) : List (Bit × Bit) :=
  let width := Nat.max left.width right.width
  (left.extendedBits width).zip (right.extendedBits width)

def constantBits (value : Int) (width : Nat) : List Bit :=
  (List.range width).map fun position => .const (Digits.digit value position)

def constant? (value : Int) (width : Nat) : Except Error Word :=
  ofBits? (constantBits value width)

/-- The constant word of the low bits of an integer, for widths of at least one. -/
def constant (value : Int) (width : Nat) : Word := ofBits (constantBits value width)

def zero? (width : Nat) : Except Error Word := ofBits? (List.replicate width (.const false))

def zero (width : Nat) : Word := ofBits (List.replicate width (.const false))

def ofBit? (bit : Bit) (width : Nat) : Except Error Word :=
  match width with
  | 0 => .error (.violation .outOfBounds)
  | rest + 1 => .ok ⟨bit :: List.replicate rest (.const false), by simp⟩

def oneLike (word : Word) : Word :=
  ⟨.const true :: List.replicate (word.width - 1) (.const false), by simp⟩

def isConst (word : Word) : Bool := word.bits.all Bit.isConst

def same (left right : Word) : Bool :=
  left.bits.length == right.bits.length
    && (left.bits.zip right.bits).all fun pair => pair.1.same pair.2

def eval (assignment : Nat → Bool) (word : Word) : Int :=
  Digits.signed (word.bits.map (Bit.eval assignment))

/-- The value of a constant word as a 32-bit integer. The value is computed in 64 bits, so
a wider word must have no bit set beyond them, and a negative one at most 62 bits. -/
def value? (word : Word) : Except Error (Option Int) :=
  if !word.isConst then .ok none
  else
    let digits := word.bits.map Bit.isTrue
    if word.sign.isTrue && 63 ≤ word.width then .error (.violation .overflow)
    else if (digits.drop 64).any id then .error (.violation .overflow)
    else .ok (some (Int.bmod (Digits.signed digits) UInt32.size))

end Word

end ModelFinder
