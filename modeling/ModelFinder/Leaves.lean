import ModelFinder.Allocation
import ModelFinder.Bounds
import ModelFinder.Instance
import ModelFinder.Circuit.Matrix
/-!
Leaves: bounds with a primary variable for every tuple that they leave open, in the order of
the relations and, within a relation, of the tuples' positions.

The variables give each bound relation a matrix, and an assignment of the variables an
instance within the bounds.
-/

namespace ModelFinder

/-- The part of a layout that belongs to one relation: the tuples that it always holds, and
the open tuples with their variables. -/
structure RelationLayout where
  relation : Relation
  lower : TupleSet
  openTuples : List (Nat × Nat)

namespace RelationBound

def openTuples (bound : RelationBound) (allocation : Allocation) : List (Nat × Nat) :=
  let uncertain := bound.upper.toList.filter fun index => !bound.lower.containsIndex index
  let labels := ((allocation.range? bound.relation).map LabelRange.labels).getD []
  uncertain.zip labels

/-- The matrix of a bound relation: tuples of the lower bound are true, open ones are their
variables, and all others are false. -/
def matrix (bound : RelationBound) (universeSize : Nat) (allocation : Allocation) : Matrix :=
  let certain := Matrix.constant universeSize bound.relation.arity bound.lower.toList
  (bound.openTuples allocation).foldl
    (fun matrix entry => matrix.set entry.1 (.var entry.2)) certain

end RelationBound

structure Leaves where
  bounds : Bounds
  allocation : Allocation
  matrices : List (Relation × Matrix)

namespace Leaves

def ofBounds? (bounds : Bounds) : Except Error Leaves := do
  let allocation ← bounds.entries.foldlM
    (fun allocation entry =>
      (allocation.allocate? entry.relation entry.lower.size entry.upper.size).map Prod.snd)
    Allocation.empty
  let matrices := bounds.entries.map fun bound =>
    (bound.relation, bound.matrix bounds.univ.size allocation)
  return ⟨bounds, allocation, matrices⟩

def primary (leaves : Leaves) : Nat := leaves.allocation.total

def universeSize (leaves : Leaves) : Nat := leaves.bounds.univ.size

def relationMatrix? (leaves : Leaves) (relation : Relation) : Except Error Matrix :=
  match leaves.matrices.find? fun entry => entry.1 == relation with
  | none => .error (.unboundRelation relation.name)
  | some entry => .ok entry.2

theorem relationMatrix?_of_ofBounds? {bounds : Bounds} {leaves : Leaves}
    (allocated : ofBounds? bounds = .ok leaves) (relation : Relation) :
    leaves.relationMatrix? relation =
      match bounds.bound? relation with
      | none => .error (.unboundRelation relation.name)
      | some bound => .ok (bound.matrix bounds.univ.size leaves.allocation) := by
  simp only [ofBounds?, bind, Except.bind, pure, Except.pure] at allocated
  split at allocated
  · cases allocated
  · cases allocated
    simp only [relationMatrix?, Bounds.bound?, List.find?_map, Function.comp_def]
    cases bounds.entries.find? fun entry => entry.relation == relation <;> rfl

def constantMatrix (leaves : Leaves) (constant : SetConstant) : Matrix :=
  let size := leaves.universeSize
  match constant with
  | .univ => Matrix.constant size 1 (List.range size)
  | .none => Matrix.empty size 1
  | .iden => Matrix.constant size 2 ((List.range size).map fun atom => atom * size + atom)
  | .ints => Matrix.constant size 1 (leaves.bounds.intAtoms.toList.map Prod.snd)

def layout (leaves : Leaves) : List RelationLayout :=
  leaves.bounds.entries.map fun bound =>
    ⟨bound.relation, bound.lower, bound.openTuples leaves.allocation⟩

end Leaves

/-- The value of a relation that holds its certain tuples and those of its open tuples whose
variables are true. -/
def RelationLayout.decode? (layout : RelationLayout) (univ : Universe) (holds : Nat → Bool) :
    Except Error TupleSet :=
  let chosen := (layout.openTuples.filter fun entry => holds entry.2).map Prod.fst
  TupleSet.ofIndices? univ layout.relation.arity (layout.lower.toList ++ chosen)

/-- The instance of an assignment: every relation holds its certain tuples and the open ones
whose variables are true, and every bound integer keeps its atom. -/
def decodeInstance? (bounds : Bounds) (layout : List RelationLayout) (holds : Nat → Bool) :
    Except Error Instance := do
  let relations ← layout.foldlM
    (fun model part => do model.add? part.relation (← part.decode? bounds.univ holds))
    (Instance.empty bounds.univ)
  bounds.intAtoms.toList.foldlM
    (fun model entry => model.addInt? entry.1 (TupleSet.ofAtomIndex bounds.univ entry.2))
    relations

end ModelFinder
