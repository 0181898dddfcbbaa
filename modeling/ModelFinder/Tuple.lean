import ModelFinder.Index
import ModelFinder.Universe
/-!
Tuples: finite sequences of atoms of a universe.
-/

namespace ModelFinder

/-- A tuple, given by the positions of its atoms. -/
structure Tuple where
  univ : Universe
  atoms : List Nat
deriving DecidableEq

namespace Tuple

def arity (tuple : Tuple) : Nat := tuple.atoms.length

def index (tuple : Tuple) : Nat := Index.encode tuple.univ.size tuple.atoms

def atom? (tuple : Tuple) (column : Nat) : Option String :=
  tuple.atoms[column]? >>= tuple.univ.atom?

def names (tuple : Tuple) : List String := tuple.atoms.filterMap tuple.univ.atom?

def render (tuple : Tuple) : String := Outline.list tuple.names

/-- The tuple of a nonempty list of atoms, named in order. The first unknown atom is
reported. -/
def ofNames? (univ : Universe) (names : List String) : Except Error Tuple :=
  if names.isEmpty then .error (.invalidArgument .emptyTuple)
  else do
    let atoms ← names.mapM fun name =>
      match univ.indexOf? name with
      | some index => Except.ok index
      | none => Except.error (Error.invalidArgument (.unknownAtom name))
    let _ ← Index.word (Index.encode univ.size atoms)
    return ⟨univ, atoms⟩

/-- No tuple has as many atoms, because memory does not hold as many machine words. -/
def tooLong : Nat := 1152921504606846976

/-- The tuple at a position among the tuples of an arity. The row lengths of all columns must be
machine words, and exponents are 32-bit words; over a single atom this does not matter. -/
def ofIndex? (univ : Universe) (arity index : Nat) : Except Error Tuple := do
  let capacity ← Index.capacity univ.size arity
  if capacity ≤ index then throw (.invalidArgument (.indexOutOfRange index arity))
  if tooLong ≤ arity ∨ (2 ≤ univ.size ∧ UInt32.size ≤ arity) then throw (.violation .overflow)
  return ⟨univ, Index.decode univ.size arity index⟩

end Tuple

end ModelFinder
