import ModelFinder.Tuple
import Std.Data.ExtTreeSet
/-!
Sets of tuples of one arity over one universe, kept as the set of the tuples' positions.
Two sets are equal exactly if they have the same universe, arity and members.

An operation on sets of different universes, or of arities that do not fit together, is
refused.
-/

namespace ModelFinder

structure TupleSet where
  univ : Universe
  arity : Nat
  indices : Std.ExtTreeSet Nat
deriving DecidableEq

namespace TupleSet

def empty (univ : Universe) (arity : Nat) : TupleSet := ⟨univ, arity, ∅⟩

def all (univ : Universe) (arity : Nat) : Except Error TupleSet := do
  let capacity ← Index.capacity univ.size arity
  return ⟨univ, arity, .ofList (List.range capacity)⟩

/-- The set of the tuples at the given positions; the largest position out of range is
reported. -/
def ofIndices? (univ : Universe) (arity : Nat) (indices : List Nat) :
    Except Error TupleSet := do
  let capacity ← Index.capacity univ.size arity
  let set : Std.ExtTreeSet Nat := .ofList indices
  match set.max? with
  | some last =>
    if capacity ≤ last then throw (.invalidArgument (.indexOutOfRange last arity))
    else return ⟨univ, arity, set⟩
  | none => return ⟨univ, arity, set⟩

def toList (set : TupleSet) : List Nat := set.indices.toList

def size (set : TupleSet) : Nat := set.indices.size

def isEmpty (set : TupleSet) : Bool := set.indices.isEmpty

def containsIndex (set : TupleSet) (index : Nat) : Bool := set.indices.contains index

def contains (set : TupleSet) (tuple : Tuple) : Bool :=
  tuple.univ = set.univ && tuple.arity = set.arity && set.containsIndex tuple.index

/-- The member at a position; a position beyond the set's arity has none. -/
def member? (set : TupleSet) (index : Nat) : Except Error (Option Tuple) :=
  match Tuple.ofIndex? set.univ set.arity index with
  | .ok tuple => .ok (some tuple)
  | .error (.violation cause) => .error (.violation cause)
  | .error _ => .ok none

/-- The members in ascending order of their positions. Unless the set is empty, the tuples of
its arity must be countable in machine words. -/
def tuples? (set : TupleSet) : Except Error (List Tuple) := set.toList.filterMapM set.member?

def render? (set : TupleSet) : Except Error String := do
  return Outline.list ((← set.tuples?).map Tuple.render)

def insert? (set : TupleSet) (tuple : Tuple) : Except Error TupleSet :=
  if tuple.univ ≠ set.univ then .error (.invalidArgument .foreignTuple)
  else if tuple.arity ≠ set.arity then
    .error (.invalidArgument (.unexpectedArity set.arity tuple.arity))
  else .ok { set with indices := set.indices.insert tuple.index }

def compatible? (left right : TupleSet) : Except Error Unit :=
  if right.univ ≠ left.univ then .error (.invalidArgument .foreignTupleSets)
  else if right.arity ≠ left.arity then
    .error (.invalidArgument (.unexpectedArity left.arity right.arity))
  else .ok ()

def isSubset (left right : TupleSet) : Bool :=
  left.univ = right.univ && left.arity = right.arity
    && left.toList.all right.containsIndex

def union? (left right : TupleSet) : Except Error TupleSet := do
  left.compatible? right
  return { left with indices := left.indices ∪ right.indices }

def intersection? (left right : TupleSet) : Except Error TupleSet := do
  left.compatible? right
  return { left with indices := left.indices ∩ right.indices }

def difference? (left right : TupleSet) : Except Error TupleSet := do
  left.compatible? right
  return { left with indices := left.indices \ right.indices }

def product? (left right : TupleSet) : Except Error TupleSet := do
  if right.univ ≠ left.univ then throw (.invalidArgument .foreignTupleSets)
  let capacity ← Index.capacity left.univ.size right.arity
  let indices ← (left.toList.flatMap fun i => right.toList.map fun j => (i, j)).mapM
    fun pair => Index.word (pair.1 * capacity + pair.2)
  return ⟨left.univ, ← Index.columns left.arity right.arity, .ofList indices⟩

/-- All tuples `s ++ t` for which some atom `a` has `s ++ [a]` in `left` and `a :: t` in
`right`. At least one column must remain. -/
def join? (left right : TupleSet) : Except Error TupleSet := do
  if right.univ ≠ left.univ then throw (.invalidArgument .foreignTupleSets)
  let columns ← Index.columns left.arity right.arity
  if columns < 3 then throw (.invalidArgument (.tupleJoinEmpty left.arity right.arity))
  let base := left.univ.size
  let rowLength ← Index.rowLength base right.arity
  let rows := Index.rows id rowLength right.toList
  let indices ← left.toList.mapM fun i => do
    (← Index.matching? rows base rowLength i).mapM fun j =>
      Index.word (Index.joined base rowLength i j)
  return ⟨left.univ, columns - 2, .ofList indices.flatten⟩

def insertNames? (set : TupleSet) : List (List String) → Except Error TupleSet
  | [] => .ok set
  | names :: rest => do
    if names.length ≠ set.arity then throw (.invalidArgument .mixedArities)
    let tuple ← Tuple.ofNames? set.univ names
    let set ← set.insert? tuple
    set.insertNames? rest

/-- The set of a nonempty list of tuples of one arity, given by the names of their atoms. -/
def ofNames? (univ : Universe) (tuples : List (List String)) : Except Error TupleSet :=
  match tuples with
  | [] => .error (.invalidArgument .emptyTupleList)
  | first :: _ => (empty univ first.length).insertNames? tuples

def ofAtom? (univ : Universe) (name : String) : Except Error TupleSet := do
  (empty univ 1).insert? (← Tuple.ofNames? univ [name])

def ofAtomIndex (univ : Universe) (index : Nat) : TupleSet :=
  ⟨univ, 1, (∅ : Std.ExtTreeSet Nat).insert index⟩

def singleAtom? (set : TupleSet) : Option Nat :=
  if set.arity = 1 then
    match set.toList with
    | [index] => some index
    | _ => none
  else none

end TupleSet

end ModelFinder
