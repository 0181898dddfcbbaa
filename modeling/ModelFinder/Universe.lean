import ModelFinder.Error
/-!
Universes: nonempty sequences of distinct atoms. Tuples name atoms by their position.
-/

namespace ModelFinder

/-- A universe. Two universes are the same only if they have the same identifier, even when
they list the same atoms. -/
structure Universe where
  id : Nat
  atoms : List String
deriving DecidableEq

namespace Universe

/-- The first atom that has been seen before, or occurs earlier in the list. -/
def firstRepeated? (seen : List String) : List String → Option String
  | [] => none
  | atom :: rest =>
    if seen.contains atom then some atom else firstRepeated? (atom :: seen) rest

/-- The universe of a nonempty list of distinct atoms. -/
def ofAtoms? (id : Nat) (atoms : List String) : Except Error Universe :=
  if atoms.isEmpty then .error (.invalidArgument .emptyUniverse)
  else
    match firstRepeated? [] atoms with
    | some atom => .error (.invalidArgument (.repeatedAtom atom))
    | none => .ok ⟨id, atoms⟩

def size (univ : Universe) : Nat := univ.atoms.length

def atom? (univ : Universe) (index : Nat) : Option String := univ.atoms[index]?

def indexOf? (univ : Universe) (atom : String) : Option Nat := univ.atoms.idxOf? atom

def contains (univ : Universe) (atom : String) : Bool := univ.atoms.contains atom

def outline (univ : Universe) : String :=
  Outline.wrap "Universe" (Outline.list (univ.atoms.map Text.quote))

end Universe

end ModelFinder
