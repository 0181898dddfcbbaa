import ModelFinder.Backend.Search.Learning
import ModelFinder.Backend.Search.Splitting
/-!
The decision procedure for clauses. A search that learns from conflicts goes first. Its
negative answers come from clauses derived by resolution, and its positive answers are
compared with all clauses. Where it has no answer, every way to satisfy the clauses is
split into cases.
-/

namespace ModelFinder

/-- The clauses to decide, a search that has taken them all, and the assignment that the last
positive answer found. There is no search once a clause has a variable that is too large for
tables. -/
structure SearchState where
  clauses : Array Clause
  learner : Option Learner
  assignment : Nat → Bool

namespace SearchState

def empty : SearchState := ⟨#[], some .empty, fun _ => false⟩

def tableLimit : Nat := Digits.weight 20

def add (state : SearchState) (clause : Clause) : SearchState :=
  let { clauses, learner, assignment } := state
  let learner :=
    if clause.largestVariable 0 < tableLimit then learner.map fun learner => learner.add clause
    else none
  ⟨clauses.push clause, learner, assignment⟩

/-- Decides clauses by cases, whatever a search has found out about them. -/
def split (clauses : Array Clause) (learner : Option Learner) : Bool × SearchState :=
  match Splitting.search clauses.toList with
  | some literals => (true, ⟨clauses, learner, fun name => literals.contains (name : Int)⟩)
  | none => (false, ⟨clauses, learner, fun _ => false⟩)

def decide (state : SearchState) : Bool × SearchState :=
  let { clauses, learner, assignment := _ } := state
  match learner.map Learner.run with
  | none => split clauses none
  | some (none, learner) => split clauses (some learner)
  | some (some false, learner) => (false, ⟨clauses, some learner, fun _ => false⟩)
  | some (some true, learner) =>
    let assignment := learner.trail.assignment
    if clauses.all (Clause.holds assignment) then (true, ⟨clauses, some learner, assignment⟩)
    else split clauses (some learner)

/-- Three of the four clauses over two variables leave one assignment, and all four none. -/
example :
    let three := ((empty.add [1, 2]).add [1, -2]).add [-1, 2]
    (three.decide.1 && three.decide.2.assignment 1 && three.decide.2.assignment 2) = true ∧
      (three.decide.2.add [-1, -2]).decide.1 = false := by
  decide +kernel

end SearchState

end ModelFinder
