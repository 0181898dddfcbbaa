import ModelFinder.Backend.Basic
/-!
A backend that gives prepared answers, whatever it is asked, and keeps a log. It shows how a
solver deals with backends that are wrong, fail or refuse clauses.
-/

namespace ModelFinder

/-- A prepared answer: the variables that are true, a negative answer, or a failure. -/
inductive ScriptedAnswer where
  | model (trueVariables : List Int)
  | unsatisfiable
  | failure (text : String)

/-- What a scripted backend was asked: to start afresh, or to decide, with the numbers of
variables and clauses offered since and the last clause, which is empty if there was none. -/
inductive ScriptedEvent where
  | created
  | asked (variableCount clauseCount : Nat) (last : Clause)

/-- The answers not given yet and the log, shared by all starts, and what was offered since
the last start. -/
structure Script where
  answers : List ScriptedAnswer
  log : Array ScriptedEvent
  variableCount : Nat
  clauseCount : Nat
  last : Clause
  trueVariables : List Int

namespace Script

def ofAnswers (answers : List ScriptedAnswer) : Script := ⟨answers, #[], 0, 0, [], []⟩

def create (failure : Option Error) : Solving Script Unit := do
  modify fun script =>
    { script with
      log := script.log.push .created
      variableCount := 0, clauseCount := 0, last := [], trueVariables := [] }
  match failure with
  | some error => throw error
  | none => return

/-- Counts and remembers a clause. Clauses are numbered from 1, and those in `refused` are
refused. -/
def addClause (refused : List Nat) (clause : Clause) : StateM Script Bool :=
  modifyGet fun script =>
    let number := script.clauseCount + 1
    (!refused.contains number, { script with clauseCount := number, last := clause })

def solve : Solving Script Bool := do
  modify fun script =>
    { script with
      log := script.log.push (.asked script.variableCount script.clauseCount script.last) }
  let script ← get
  match script.answers with
  | [] => throw (.aborted (.scripted "script exhausted"))
  | answer :: rest =>
    set { script with answers := rest }
    match answer with
    | .model trueVariables =>
      set { script with answers := rest, trueVariables := trueVariables }
      return true
    | .unsatisfiable => return false
    | .failure text => throw (.aborted (.scripted text))

end Script

def Backend.scripted (name : String) (incremental : Bool) (refused : List Nat)
    (failure : Option Error) : Backend Script where
  name := name
  incremental := incremental
  create := Script.create failure
  addVariables count := modify fun script =>
    { script with variableCount := script.variableCount + count }
  addClause := Script.addClause refused
  solve := Script.solve
  value script name := script.trueVariables.contains (name : Int)
  variableCount script := script.variableCount
  clauseCount script := script.clauseCount

end ModelFinder
