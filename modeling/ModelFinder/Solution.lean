import ModelFinder.Compile
import ModelFinder.Cnf.Encoding
/-!
Problems ready to be solved, and what solving them yields.

A formula is compiled to a single bit. If the bit is a constant, the problem is trivial and
needs no clauses; otherwise its clauses say that the bit holds.
-/

namespace ModelFinder

/-- A compiled problem: bounds, the primary variables of their open tuples, and either the
constant that the formula came down to or its clauses. -/
structure Problem where
  bounds : Bounds
  layout : List RelationLayout
  cnf : Cnf
  primary : Nat
  trivial : Option Bool

/-- How a solving step ended; a trivial end needed no backend. -/
inductive Outcome where
  | satisfiable
  | unsatisfiable
  | triviallySatisfiable
  | triviallyUnsatisfiable
deriving DecidableEq

namespace Outcome

def isSat : Outcome → Bool
  | .satisfiable | .triviallySatisfiable => true
  | .unsatisfiable | .triviallyUnsatisfiable => false

def isTrivial : Outcome → Bool
  | .triviallySatisfiable | .triviallyUnsatisfiable => true
  | .satisfiable | .unsatisfiable => false

def name : Outcome → String
  | .satisfiable => "Satisfiable"
  | .unsatisfiable => "Unsatisfiable"
  | .triviallySatisfiable => "TriviallySatisfiable"
  | .triviallyUnsatisfiable => "TriviallyUnsatisfiable"

end Outcome

structure Statistics where
  primary : Nat
  variableCount : Nat
  clauseCount : Nat
deriving DecidableEq

structure Solution where
  outcome : Outcome
  model : Option Instance
  statistics : Statistics

namespace Problem

def ofFormula? (formula : Formula) (bounds : Bounds) (bitwidth : Nat) :
    Except Error Problem := do
  let compiled ← formula.compiled? bounds bitwidth
  let primary := compiled.leaves.primary
  let trivial := compiled.value.const?
  let cnf :=
    match trivial with
    | some _ => ⟨primary, #[]⟩
    | none => Cnf.ofRoots primary [compiled.value]
  return ⟨bounds, compiled.leaves.layout, cnf, primary, trivial⟩

def statistics (problem : Problem) : Statistics :=
  ⟨problem.primary, problem.cnf.variableCount, problem.cnf.clauseCount⟩

def decode? (problem : Problem) (holds : Nat → Bool) : Except Error Instance :=
  decodeInstance? problem.bounds problem.layout holds

/-- The positive answer to a trivial problem, in which no open tuple holds. -/
def triviallySatisfiable? (problem : Problem) : Except Error Solution := do
  let model ← problem.decode? fun _ => false
  return ⟨.triviallySatisfiable, some model, problem.statistics⟩

def triviallyUnsatisfiable (problem : Problem) : Solution :=
  ⟨.triviallyUnsatisfiable, none, problem.statistics⟩

def unsatisfiable (problem : Problem) : Solution :=
  ⟨.unsatisfiable, none, problem.statistics⟩

def satisfiable? (problem : Problem) (holds : Nat → Bool) : Except Error Solution := do
  let model ← problem.decode? holds
  return ⟨.satisfiable, some model, problem.statistics⟩

def blockingClause (problem : Problem) (holds : Nat → Bool) : Clause :=
  (List.range problem.primary).map fun index =>
    let name := index + 1
    if holds name then -(name : Int) else (name : Int)

end Problem

end ModelFinder
