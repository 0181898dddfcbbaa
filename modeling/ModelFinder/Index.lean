import ModelFinder.Error
import ModelFinder.Grouping
/-!
Positions of tuples. Over a universe of `n` atoms the tuples of arity `k` are numbered from
0 to `n ^ k - 1` in lexicographic order of their atoms, so a tuple is a numeral in base `n`
whose most significant digit is its first atom.

Positions and arities are machine words: an operation that needs a larger number is
refused, even if the number is only on the way to a smaller one.
-/

namespace ModelFinder.Index

def limit : Nat := UInt64.size

def word (value : Nat) : Except Error Nat :=
  if value < limit then .ok value else .error (.violation .overflow)

/-- The number of tuples of arity `k`, if it is a machine word. Exponents are 32-bit
words, of which larger arities keep the low bits. -/
def capacity (base arity : Nat) : Except Error Nat :=
  let exponent := arity % UInt32.size
  if 2 ≤ base ∧ 64 ≤ exponent then .error (.violation .overflow) else word (Nat.pow base exponent)

/-- The number of tuples that share their first atom, among the tuples of arity `k`. The
exponent is one less than the low bits of the arity, which must not be zero. -/
def rowLength (base arity : Nat) : Except Error Nat :=
  let exponent := arity % UInt32.size
  if exponent = 0 then .error (.violation .overflow) else capacity base (exponent - 1)

def columns (left right : Nat) : Except Error Nat := word (left + right)

/-- The number of columns that a join leaves: all but the two that are matched. -/
def joinedColumns (left right : Nat) : Except Error Nat := do
  let both ← columns left right
  if both < 2 then .error (.violation .overflow) else .ok (both - 2)

def encode (base : Nat) (atoms : List Nat) : Nat :=
  atoms.foldl (fun position atom => position * base + atom) 0

def decode (base : Nat) : Nat → Nat → List Nat
  | 0, _ => []
  | arity + 1, position =>
    position / Nat.pow base arity :: decode base arity (position % Nat.pow base arity)

/-- Over three atoms the pair `(2, 1)` has position 7. -/
example : encode 3 [2, 1] = 7 ∧ decode 3 2 7 = [2, 1] := by decide

/-- The positions of the tuples that share `first` as their first atom start here, if the
tuples after the first atom number `rowLength`. -/
def rowStart (rowLength first : Nat) : Nat := first * rowLength

theorem div_eq_iff {rowLength : Nat} (positive : 0 < rowLength) (index first : Nat) :
    index / rowLength = first ↔
      rowStart rowLength first ≤ index ∧ index < rowStart rowLength first + rowLength := by
  rw [Nat.div_eq_iff positive, rowStart]
  omega

def rows {α : Type} (position : α → Nat) (rowLength : Nat) (elements : List α) :
    Std.ExtTreeMap Nat (List α) :=
  Grouping.groups (fun element => position element / rowLength) elements

theorem getD_rows {α : Type} (position : α → Nat) {rowLength : Nat} (positive : 0 < rowLength)
    (elements : List α) (first : Nat) :
    (rows position rowLength elements).getD first [] =
      elements.filter fun element =>
        rowStart rowLength first ≤ position element &&
          position element < rowStart rowLength first + rowLength := by
  simp only [rows, Grouping.getD_groups]
  congr 1
  funext element
  rw [Bool.eq_iff_iff]
  simpa using div_eq_iff positive (position element) first

/-- The elements whose tuples start with the last atom of the tuple at position `left`. The
ends of their row must be machine words. -/
def matching? {α : Type} (rows : Std.ExtTreeMap Nat (List α)) (base rowLength left : Nat) :
    Except Error (List α) := do
  let first := left % base
  let start ← word (rowStart rowLength first)
  let _ ← word (start + rowLength)
  return rows.getD first []

/-- The position of the tuple that joins position `left`, without its last atom, with
position `right`, without its first atom. -/
def joined (base rowLength left right : Nat) : Nat :=
  left / base * rowLength + right % rowLength

/-- Joining `(0, 2)` with `(2, 1)` over three atoms gives `(0, 1)`. -/
example : joined 3 3 (encode 3 [0, 2]) (encode 3 [2, 1]) = encode 3 [0, 1] := by decide

end ModelFinder.Index
