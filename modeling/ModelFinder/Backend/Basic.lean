import ModelFinder.Error
import ModelFinder.Cnf.Basic
/-!
Backends: what decides clauses. A backend is a machine that is told to start afresh, is
offered clauses, is asked whether the clauses are satisfiable, and then tells the value of
each variable. Nothing is assumed of its answers here.
-/

namespace ModelFinder

/-- Steps of a machine that may fail; the machine's state outlives a failure. -/
abbrev Solving (σ : Type) := ExceptT Error (StateM σ)

/-- A backend with states `σ`. Incremental backends accept further clauses after they have
answered. -/
structure Backend (σ : Type) where
  name : String
  incremental : Bool
  /-- Drops what was held and starts without variables and clauses. -/
  create : Solving σ Unit
  addVariables : Nat → Solving σ Unit
  /-- Offers a clause; a refused clause makes the problem unsatisfiable or was not taken. -/
  addClause : Clause → StateM σ Bool
  solve : Solving σ Bool
  value : σ → Nat → Bool
  variableCount : σ → Nat
  clauseCount : σ → Nat

namespace Backend

variable {σ : Type}

/-- Offers clauses in order, up to the first nonempty one that is refused. -/
def offer (backend : Backend σ) : List Clause → Solving σ Unit
  | [] => return
  | clause :: rest => do
    let accepted ← (backend.addClause clause : StateM σ Bool)
    if !accepted && !clause.isEmpty then
      throw (.aborted (.refusedClause backend.name clause))
    backend.offer rest

def load (backend : Backend σ) (cnf : Cnf) (further : List Clause) : Solving σ Unit := do
  backend.create
  backend.addVariables cnf.variableCount
  backend.offer (cnf.clauses.toList ++ further)

/-- Whether the backend finds the clause of one positive literal satisfiable; any failure
counts against it. -/
def available (backend : Backend σ) : StateM σ Bool := do
  let outcome ← (do
    backend.create
    backend.addVariables 1
    let _ ← (backend.addClause [1] : StateM σ Bool)
    backend.solve : Solving σ Bool).run
  match outcome with
  | .ok answer => return answer
  | .error _ => return false

def outline (backend : Backend σ) : String :=
  Outline.record "SATFactory"
    [("name", Text.quote backend.name), ("incremental", Outline.bool backend.incremental)]

end Backend

def addVariableCount (count further : Nat) : Except Error Nat :=
  if count + further < UInt32.size then .ok (count + further) else .error (.violation .overflow)

end ModelFinder
