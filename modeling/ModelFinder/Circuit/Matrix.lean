import ModelFinder.Index
import ModelFinder.Circuit.Word.Arithmetic
/-!
Matrices: relational expressions as circuits. The cell at a position holds the condition
under which the tuple at that position belongs to the expression. Only cells that are not
constantly false are stored; the order of positions is the order in which gates are made.
-/

namespace ModelFinder

structure Matrix where
  universeSize : Nat
  arity : Nat
  cells : Std.ExtTreeMap Nat Bit

namespace Matrix

def empty (universeSize arity : Nat) : Matrix := ⟨universeSize, arity, ∅⟩

def cell (matrix : Matrix) (index : Nat) : Bit := matrix.cells[index]?.getD (.const false)

/-- Changes a cell; a false cell is not stored. -/
def set (matrix : Matrix) (index : Nat) (value : Bit) : Matrix :=
  { matrix with
    cells := if value.isFalse then matrix.cells.erase index else matrix.cells.insert index value }

def entries (matrix : Matrix) : List (Nat × Bit) := matrix.cells.toList

def constant (universeSize arity : Nat) (indices : List Nat) : Matrix :=
  ⟨universeSize, arity, .ofList (indices.map fun index => (index, Bit.const true))⟩

def density (matrix : Matrix) : Nat := matrix.cells.size

def compatible? (left right : Matrix) : Except Error Unit :=
  if left.universeSize = right.universeSize ∧ left.arity = right.arity then .ok ()
  else .error (.violation .dimensionMismatch)

def setEach (matrix : Matrix) (compute : Matrix → Nat → Bit → Build Bit) :
    List (Nat × Bit) → Build Matrix
  | [] => pure matrix
  | (index, value) :: rest => do
    let result ← compute matrix index value
    setEach (matrix.set index result) compute rest

def union? (left right : Matrix) : TryBuild Matrix := do
  left.compatible? right
  left.setEach (fun result index value => Build.or (result.cell index) value) right.entries

def intersection? (left right : Matrix) : TryBuild Matrix := do
  left.compatible? right
  let shared := left.entries.filter fun entry => right.cells.contains entry.1
  (empty left.universeSize left.arity).setEach
    (fun _ index value => Build.and value (right.cell index)) shared

def difference? (left right : Matrix) : TryBuild Matrix := do
  left.compatible? right
  (empty left.universeSize left.arity).setEach
    (fun _ index value => do Build.and value (← Build.not (right.cell index))) left.entries

/-- Collects values under their indices, each list in the order of the values. -/
def grouped (entries : List (Nat × Bit)) : List (Nat × List Bit) :=
  (Grouping.groups Prod.fst entries).toList.map fun group => (group.1, group.2.map Prod.snd)

/-- The conjunctions of one cell with every cell that continues it, at the positions of the
joined tuples; false ones are left out. -/
def joinRow? (base rowLength left : Nat) (value : Bit) :
    List (Nat × Bit) → TryBuild (List (Nat × Bit))
  | [] => pure []
  | (right, other) :: rest => do
    let both ← (Build.and value other : Build Bit)
    if both.isFalse then joinRow? base rowLength left value rest
    else
      let index ← Index.word (Index.joined base rowLength left right)
      return (index, both) :: (← joinRow? base rowLength left value rest)

/-- The rows of a join, one for each cell of the left matrix; the cells of the right matrix
are given by rows. -/
def joinRows? (base rowLength : Nat) (right : Std.ExtTreeMap Nat (List (Nat × Bit))) :
    List (Nat × Bit) → TryBuild (List (Nat × Bit))
  | [] => pure []
  | (index, value) :: rest => do
    if base = 0 then throw (.violation .outOfBounds)
    let matching ← Index.matching? right base rowLength index
    let row ← joinRow? base rowLength index value matching
    return row ++ (← joinRows? base rowLength right rest)

def join? (left right : Matrix) : TryBuild Matrix := do
  let result := empty left.universeSize (← Index.joinedColumns left.arity right.arity)
  if left.cells.isEmpty || right.cells.isEmpty then return result
  let base := left.universeSize
  let rowLength ← Index.rowLength base right.arity
  let rows := Index.rows Prod.fst rowLength right.entries
  let products ← joinRows? base rowLength rows left.entries
  let combined ← (grouped products).mapM fun entry => do
    return (entry.1, ← (Build.any entry.2 : Build Bit))
  return combined.foldl (fun matrix entry => matrix.set entry.1 entry.2) result

def productRow? (capacity left : Nat) (value : Bit) :
    List (Nat × Bit) → TryBuild (List (Nat × Bit))
  | [] => pure []
  | (right, other) :: rest => do
    let index ← Index.word (left * capacity + right)
    let both ← (Build.and value other : Build Bit)
    return (index, both) :: (← productRow? capacity left value rest)

def product? (left right : Matrix) : TryBuild Matrix := do
  let result := empty left.universeSize (← Index.columns left.arity right.arity)
  let capacity ← Index.capacity right.universeSize right.arity
  let rows ← left.entries.mapM fun entry => productRow? capacity entry.1 entry.2 right.entries
  return rows.flatten.foldl (fun matrix entry => matrix.set entry.1 entry.2) result

def choice? (condition : Bit) (left right : Matrix) : TryBuild Matrix := do
  left.compatible? right
  match condition.const? with
  | some value => return if value then left else right
  | none =>
    let onlyRight := right.entries.filter fun entry => !left.cells.contains entry.1
    let result ← ((empty left.universeSize left.arity).setEach
      (fun _ index value => Build.ite condition value (right.cell index)) left.entries :
        Build Matrix)
    result.setEach (fun _ _ value => Build.ite condition (.const false) value) onlyRight

def subset? (left right : Matrix) : TryBuild Bit := do
  left.compatible? right
  let implications ← left.entries.mapM fun entry =>
    (Build.implies entry.2 (right.cell entry.1) : Build Bit)
  Build.all implications

def equals? (left right : Matrix) : TryBuild Bit := do
  let included ← left.subset? right
  let including ← right.subset? left
  Build.and included including

def values (matrix : Matrix) : List Bit := matrix.entries.map Prod.snd

def some (matrix : Matrix) : Build Bit := Build.any matrix.values

def none (matrix : Matrix) : Build Bit := do Build.not (← matrix.some)

/-- The conditions that no cell is true together with an earlier one; `seen` is the
disjunction of the earlier cells. -/
def exclusions (seen : Bit) : List Bit → Build (List Bit)
  | [] => pure []
  | value :: rest => do
    let notSeen ← Build.not seen
    let exclusion ← Build.implies value notSeen
    let seen ← Build.or seen value
    return exclusion :: (← exclusions seen rest)

def lone (matrix : Matrix) : Build Bit := do
  Build.all (← exclusions (.const false) matrix.values)

def one (matrix : Matrix) : Build Bit := do
  let atMostOne ← matrix.lone
  let atLeastOne ← matrix.some
  Build.and atMostOne atLeastOne

def popcount (matrix : Matrix) : TryBuild Word := do
  let width := (← get).width
  let words ← matrix.values.mapM fun value => (liftM (Word.ofBit? value width) : TryBuild Word)
  Word.sumAll words

end Matrix

end ModelFinder
