/-!
Conjunctive normal form: clauses over variables numbered from 1, and their DIMACS text.
-/

namespace ModelFinder

/-- A variable, or its negation if negative. -/
abbrev Literal := Int

abbrev Clause := List Literal

structure Cnf where
  variableCount : Nat
  clauses : Array Clause
deriving DecidableEq

namespace Literal

def holds (assignment : Nat → Bool) (literal : Literal) : Bool :=
  if literal < 0 then !assignment literal.natAbs else assignment literal.natAbs

end Literal

namespace Clause

def holds (assignment : Nat → Bool) (clause : Clause) : Bool :=
  clause.any (Literal.holds assignment)

def largestVariable (atLeast : Nat) (clause : Clause) : Nat :=
  clause.foldl (fun largest literal => Nat.max largest literal.natAbs) atLeast

end Clause

namespace Cnf

def empty : Cnf := ⟨0, #[]⟩

def clauseCount (cnf : Cnf) : Nat := cnf.clauses.size

/-- Adds a clause; the variables grow to cover its literals. -/
def add (cnf : Cnf) (clause : Clause) : Cnf :=
  ⟨clause.largestVariable cnf.variableCount, cnf.clauses.push clause⟩

def holds (assignment : Nat → Bool) (cnf : Cnf) : Bool :=
  cnf.clauses.all (Clause.holds assignment)

def clauseLine (clause : Clause) : String :=
  String.join (clause.map fun literal => toString literal ++ " ") ++ "0\n"

/-- The DIMACS text: a header with the numbers of variables and clauses, then a line for
every clause. -/
def dimacs (cnf : Cnf) : String :=
  "p cnf " ++ toString cnf.variableCount ++ " " ++ toString cnf.clauseCount ++ "\n"
    ++ String.join (cnf.clauses.toList.map clauseLine)

example : ((empty.add [1, -3]).add []).dimacs = "p cnf 3 2\n1 -3 0\n0\n" := by decide +kernel

end Cnf

end ModelFinder
