import ModelFinder.TupleSet
import Std.Data.ExtTreeMap
/-!
Bounds: what every instance must agree with. A bound relation holds at least the tuples of
its lower and at most those of its upper bound; a bound integer stands for one atom.
-/

namespace ModelFinder

/-- Atoms of integers, in ascending order of the integers. -/
abbrev IntAtoms := Std.ExtTreeMap Int Nat

def IntAtoms.intOf? (atoms : IntAtoms) (atom : Nat) : Option Int :=
  (atoms.toList.find? fun entry => entry.2 == atom).map Prod.fst

structure RelationBound where
  relation : Relation
  lower : TupleSet
  upper : TupleSet

/-- Bounds over a universe, relations in the order in which they were first bound. -/
structure Bounds where
  univ : Universe
  entries : List RelationBound
  intAtoms : IntAtoms

namespace Bounds

def empty (univ : Universe) : Bounds := ⟨univ, [], ∅⟩

def relations (bounds : Bounds) : List Relation := bounds.entries.map RelationBound.relation

def bound? (bounds : Bounds) (relation : Relation) : Option RelationBound :=
  bounds.entries.find? fun entry => entry.relation == relation

def lower? (bounds : Bounds) (relation : Relation) : Option TupleSet :=
  (bounds.bound? relation).map RelationBound.lower

def upper? (bounds : Bounds) (relation : Relation) : Option TupleSet :=
  (bounds.bound? relation).map RelationBound.upper

def put (entry : RelationBound) : List RelationBound → List RelationBound
  | [] => [entry]
  | first :: rest =>
    if first.relation == entry.relation then entry :: rest else first :: put entry rest

/-- Binds a relation, replacing an earlier bound. Both sets must be over the universe of the
bounds and of the relation's arity, and the lower set must be included in the upper one. -/
def bind? (bounds : Bounds) (relation : Relation) (lower upper : TupleSet) :
    Except Error Bounds :=
  if lower.univ ≠ bounds.univ ∨ upper.univ ≠ bounds.univ then
    .error (.invalidArgument .foreignBounds)
  else if lower.arity ≠ relation.arity ∨ upper.arity ≠ relation.arity then
    .error (.invalidArgument (.relationArity lower.arity relation.arity))
  else if !lower.isSubset upper then
    .error (.invalidArgument (.lowerNotWithinUpper relation.name))
  else .ok { bounds with entries := put ⟨relation, lower, upper⟩ bounds.entries }

def bindExactly? (bounds : Bounds) (relation : Relation) (tuples : TupleSet) :
    Except Error Bounds :=
  bounds.bind? relation tuples tuples

/-- Binds an integer to the only atom of a unary set, replacing an earlier atom. -/
def bindInt? (bounds : Bounds) (value : Int) (tuples : TupleSet) : Except Error Bounds :=
  if tuples.univ ≠ bounds.univ then .error (.invalidArgument .foreignIntBound)
  else
    match tuples.singleAtom? with
    | some atom => .ok { bounds with intAtoms := bounds.intAtoms.insert value atom }
    | none => do throw (.invalidArgument (.boundNotSingleAtom value (← tuples.render?)))

def ints (bounds : Bounds) : List Int := bounds.intAtoms.toList.map Prod.fst

def intAtom? (bounds : Bounds) (value : Int) : Option Nat := bounds.intAtoms[value]?

def intBound? (bounds : Bounds) (value : Int) : Option TupleSet :=
  (bounds.intAtom? value).map (TupleSet.ofAtomIndex bounds.univ)

end Bounds

end ModelFinder
