import ModelFinder.Cnf.Basic
/-!
What a search knows: clauses that hold wherever the offered clauses hold, and the literals
among them. Knowledge grows by offered clauses, by literals that a known clause leaves no way
around, and by clauses that are resolvents of known ones. A search may forget clauses.

Knowledge is contradictory once all literals of a known clause are refuted. Then no
assignment satisfies the offered clauses, however the search came to look at that clause.
-/

namespace ModelFinder

/-- The place of a literal in tables by literals. A literal and its negation are
neighbours. -/
@[inline] def Literal.place (literal : Literal) : Nat :=
  if literal < 0 then 2 * literal.natAbs + 1 else 2 * literal.natAbs

/-- Known clauses and, by place, known literals. -/
structure Knowledge where
  clauses : Array Clause
  facts : Array Bool
  contradictory : Bool

namespace Knowledge

def empty : Knowledge := ⟨#[], #[], false⟩

def cover (known : Knowledge) (bound : Nat) : Knowledge :=
  { known with facts := known.facts.rightpad (2 * bound) false }

/-- A known clause. Those that were never added are taken to say that a variable has a
value. -/
@[inline] def clause (known : Knowledge) (index : Nat) : Clause :=
  known.clauses.getD index [1, -1]

@[inline] def refutes (known : Knowledge) (literal : Literal) : Bool :=
  known.facts.getD (Literal.place (-literal)) false

def trim (known : Knowledge) (clause : Clause) : Clause :=
  clause.filter fun literal => !known.refutes literal

def add (known : Knowledge) (clause : Clause) : Knowledge :=
  { known with clauses := known.clauses.push clause }

def affirm (known : Knowledge) (literal : Literal) : Knowledge :=
  { known with facts := known.facts.setIfInBounds literal.place true }

/-- Draws the conclusion from one known clause: a contradiction if all its literals are
refuted, and a literal if all others are. -/
def conclude (known : Knowledge) (index : Nat) : Knowledge :=
  match known.trim (known.clause index) with
  | [] => { known with contradictory := true }
  | literal :: rest => if rest.all (· == literal) then known.affirm literal else known

/-- Two clauses give a literal, and a third one then gives a contradiction. -/
example :
    let known := (((empty.cover 3).add [1]).add [-1, 2]).add [-2]
    let facts := (known.conclude 0).conclude 1
    facts.refutes (-2) ∧ !facts.contradictory ∧ (facts.conclude 2).contradictory := by
  decide +kernel

end Knowledge

end ModelFinder
