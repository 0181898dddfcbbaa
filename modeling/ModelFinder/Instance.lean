import ModelFinder.Bounds
/-!
Instances: values of relations, and atoms of integers.
-/

namespace ModelFinder

/-- An instance over a universe, relations in the order in which they were first given a
value. -/
structure Instance where
  univ : Universe
  entries : List (Relation × TupleSet)
  intAtoms : IntAtoms
deriving DecidableEq

namespace Instance

def empty (univ : Universe) : Instance := ⟨univ, [], ∅⟩

def relations (model : Instance) : List Relation := model.entries.map Prod.fst

def tuples? (model : Instance) (relation : Relation) : Option TupleSet :=
  (model.entries.find? fun entry => entry.1 == relation).map Prod.snd

def put (relation : Relation) (tuples : TupleSet) :
    List (Relation × TupleSet) → List (Relation × TupleSet)
  | [] => [(relation, tuples)]
  | first :: rest =>
    if first.1 == relation then (relation, tuples) :: rest else first :: put relation tuples rest

def add? (model : Instance) (relation : Relation) (tuples : TupleSet) : Except Error Instance :=
  if tuples.univ ≠ model.univ then .error (.invalidArgument .foreignRelationValue)
  else if tuples.arity ≠ relation.arity then
    .error (.invalidArgument (.relationArity tuples.arity relation.arity))
  else .ok { model with entries := put relation tuples model.entries }

/-- Lets an integer stand for the only atom of a unary set. -/
def addInt? (model : Instance) (value : Int) (tuples : TupleSet) : Except Error Instance :=
  if tuples.univ ≠ model.univ then .error (.invalidArgument (.valueNotSingleAtom value))
  else
    match tuples.singleAtom? with
    | some atom => .ok { model with intAtoms := model.intAtoms.insert value atom }
    | none => .error (.invalidArgument (.valueNotSingleAtom value))

def ints (model : Instance) : List (Int × Nat) := model.intAtoms.toList

def intAtom? (model : Instance) (value : Int) : Option Nat := model.intAtoms[value]?

def render? (model : Instance) : Except Error String := do
  let relations ← model.entries.mapM fun entry => do
    return entry.1.name ++ "=" ++ (← entry.2.render?)
  let ints := model.ints.map fun entry =>
    toString entry.1 ++ "=" ++ (model.univ.atom? entry.2).getD "?"
  return "relations: \x7b" ++ ", ".intercalate relations ++ "\x7d ints: \x7b"
    ++ ", ".intercalate ints ++ "\x7d"

end Instance

end ModelFinder
