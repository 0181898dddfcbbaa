import ModelFinder.Solution
import ModelFinder.Backend.Basic
/-!
Solving: one instance of a formula, or all of them in turn.

Trivial problems are answered without a backend. To enumerate, a clause that rules out the
values of the primary variables is added after every instance; an incremental backend keeps
what it holds, any other starts afresh with all these clauses. The enumeration ends with the
first answer that is not positive.
-/

namespace ModelFinder

variable {σ : Type}

def Problem.solve (problem : Problem) (backend : Backend σ) : Solving σ Solution :=
  match problem.trivial with
  | some true => problem.triviallySatisfiable?
  | some false => return problem.triviallyUnsatisfiable
  | none => do
    backend.load problem.cnf []
    if ← backend.solve then problem.satisfiable? (backend.value (← get))
    else return problem.unsatisfiable

def Formula.solve (formula : Formula) (bounds : Bounds) (bitwidth : Nat) (backend : Backend σ) :
    Solving σ Solution := do
  let problem ← Problem.ofFormula? formula bounds bitwidth
  problem.solve backend

/-- An enumeration in progress: whether the backend holds the problem's clauses, the clauses
that rule out the instances found so far, and whether the enumeration has ended. -/
structure Enumeration where
  problem : Problem
  loaded : Bool
  blocking : List Clause
  done : Bool

namespace Enumeration

def ofProblem (problem : Problem) : Enumeration := ⟨problem, false, [], false⟩

/-- The next answer of a backend. The clause that rules out a new instance is offered to an
incremental backend at once, which may refuse it without consequence. -/
def ask (enumeration : Enumeration) (backend : Backend σ) : Solving σ (Solution × Enumeration) := do
  let problem := enumeration.problem
  if !(enumeration.loaded && backend.incremental) then
    backend.load problem.cnf enumeration.blocking
  if ← backend.solve then
    let holds := backend.value (← get)
    let solution ← problem.satisfiable? holds
    let clause := problem.blockingClause holds
    if backend.incremental then
      let _ ← (backend.addClause clause : StateM σ Bool)
    return (solution, { enumeration with
      loaded := backend.incremental, blocking := enumeration.blocking ++ [clause] })
  else return (problem.unsatisfiable, enumeration)

/-- The next answer. Without open tuples a trivially true problem has a single instance. -/
def step (enumeration : Enumeration) (backend : Backend σ) : Solving σ (Solution × Enumeration) :=
  let problem := enumeration.problem
  match problem.trivial with
  | some false => return (problem.triviallyUnsatisfiable, enumeration)
  | some true =>
    if problem.primary = 0 then do
      let after := { enumeration with blocking := enumeration.blocking ++ [[]] }
      if enumeration.blocking.isEmpty then return (← problem.triviallySatisfiable?, after)
      else return (problem.triviallyUnsatisfiable, after)
    else enumeration.ask backend
  | none => enumeration.ask backend

/-- The next answer or failure, or nothing once the enumeration has ended. -/
def next (enumeration : Enumeration) (backend : Backend σ) :
    StateM σ (Option (Except Error Solution) × Enumeration) := do
  if enumeration.done then return (none, enumeration)
  match ← (enumeration.step backend).run with
  | .error error => return (some (.error error), { enumeration with done := true })
  | .ok (solution, after) =>
    return (some (.ok solution), { after with done := !solution.outcome.isSat })

def take (backend : Backend σ) : Nat → Enumeration →
    StateM σ (List (Except Error Solution) × Enumeration)
  | 0, enumeration => return ([], enumeration)
  | limit + 1, enumeration => do
    match ← enumeration.next backend with
    | (none, after) => return ([], after)
    | (some answer, after) =>
      let (answers, last) ← take backend limit after
      return (answer :: answers, last)

end Enumeration

def Formula.enumerate? (formula : Formula) (bounds : Bounds) (bitwidth : Nat) :
    Except Error Enumeration :=
  (Problem.ofFormula? formula bounds bitwidth).map Enumeration.ofProblem

end ModelFinder
