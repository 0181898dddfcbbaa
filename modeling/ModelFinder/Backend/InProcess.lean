import ModelFinder.Backend.Basic
import ModelFinder.Backend.Search
import ModelFinder.Digits
/-!
Backends that run in the same process, on top of a decision procedure.

The procedure may reject a clause. A rejected clause, or one with a literal that the
procedure cannot represent, makes every later answer an error: the procedure would answer
for fewer clauses than it was offered. The empty clause is never passed on; it makes every
later answer negative.
-/

namespace ModelFinder

structure Procedure (γ : Type) where
  initial : γ
  add : Clause → γ → Except BackendFailure Unit × γ
  /-- Decides the clauses taken so far, or stops without an answer. -/
  decide : γ → Except BackendFailure (Option Bool) × γ
  /-- Whether a variable is true in the assignment found last. -/
  holds : γ → Nat → Bool

structure InProcess (γ : Type) where
  procedure : γ
  variableCount : Nat
  clauseCount : Nat
  contradiction : Bool
  failure : Option BackendFailure

def Literal.isRepresentable (literal : Literal) : Bool :=
  literal != 0 && literal.natAbs ≤ Digits.weight 31

namespace InProcess

variable {γ : Type}

def initial (procedure : Procedure γ) : InProcess γ := ⟨procedure.initial, 0, 0, false, none⟩

def addVariables (state : InProcess γ) (count : Nat) : Except Error (InProcess γ) :=
  (addVariableCount state.variableCount count).map fun total =>
    { state with variableCount := total }

def fail (state : InProcess γ) (failure : BackendFailure) : InProcess γ :=
  { state with failure := state.failure.or (some failure) }

def addClause (procedure : Procedure γ) (state : InProcess γ) (clause : Clause) :
    Bool × InProcess γ :=
  let state := { state with clauseCount := state.clauseCount + 1 }
  if clause.isEmpty then (false, { state with contradiction := true })
  else if clause.all Literal.isRepresentable then
    match procedure.add clause state.procedure with
    | (.ok _, after) => (true, { state with procedure := after })
    | (.error failure, after) => (false, { state with procedure := after }.fail failure)
  else (false, state.fail (.invalidLiteral clause))

/-- Offers a clause. Clauses are counted by a 32-bit word. -/
def addClause? (procedure : Procedure γ) (state : InProcess γ) (clause : Clause) :
    Except Error (Bool × InProcess γ) :=
  if state.clauseCount + 1 < UInt32.size then .ok (state.addClause procedure clause)
  else .error (.violation .overflow)

def solve (procedure : Procedure γ) (state : InProcess γ) : Except Error Bool × InProcess γ :=
  match state.failure with
  | some failure => (.error (.aborted failure), state)
  | none =>
    if state.contradiction then (.ok false, state)
    else
      match procedure.decide state.procedure with
      | (.ok (some answer), after) => (.ok answer, { state with procedure := after })
      | (.ok none, after) =>
        (.error (.aborted .stoppedWithoutAnswer), { state with procedure := after })
      | (.error failure, after) => (.error (.aborted failure), { state with procedure := after })

def value (procedure : Procedure γ) (state : InProcess γ) (name : Nat) : Bool :=
  name != 0 && name ≤ state.variableCount && procedure.holds state.procedure name

/-- The value of a variable, which must not be announced unless literals can name it. -/
def value? (procedure : Procedure γ) (state : InProcess γ) (name : Nat) : Except Error Bool :=
  if name ≤ state.variableCount && name != 0 && !Literal.isRepresentable name then
    .error (.violation .unrepresentableVariable)
  else .ok (state.value procedure name)

end InProcess

def Procedure.search : Procedure SearchState where
  initial := .empty
  add clause state := (.ok (), state.add clause)
  decide state :=
    let (answer, after) := state.decide
    (.ok (some answer), after)
  holds state name := state.assignment name

namespace Backend

/-- The backend of a decision procedure. The interface has no error for an offer, so clauses are
counted here without the limit of 32 bits, which `InProcess.addClause?` checks. -/
def ofProcedure {γ : Type} (name : String) (incremental : Bool) (procedure : Procedure γ) :
    Backend (InProcess γ) where
  name := name
  incremental := incremental
  create := set (InProcess.initial procedure)
  addVariables count := do
    match (← get).addVariables count with
    | .ok state => set state
    | .error error => throw error
  addClause clause := modifyGet fun state => state.addClause procedure clause
  solve := ExceptT.mk (modifyGet fun state => state.solve procedure)
  value state name := state.value procedure name
  variableCount state := state.variableCount
  clauseCount state := state.clauseCount

def standard : Backend (InProcess SearchState) := ofProcedure "batsat" true .search

end Backend

end ModelFinder
