import ModelFinder.Cnf.Basic
/-!
A complete search for a satisfying assignment. Assigning a literal removes the clauses that
hold by it and shortens those that do not; single-literal clauses are assigned first, and
otherwise both values of a variable are tried.
-/

namespace ModelFinder.Splitting

def assign (literal : Literal) (clauses : List Clause) : List Clause :=
  clauses.filterMap fun clause =>
    if clause.contains literal then none
    else some (clause.filter fun other => other != -literal)

def forced? (clauses : List Clause) : Option Literal :=
  clauses.findSome? fun
    | [literal] => some literal
    | _ => none

def smallest? (clauses : List Clause) : Option Nat :=
  (clauses.flatMap fun clause => clause.map Int.natAbs).min?

/-- The literal of the smallest variable that makes more clauses hold, negative if there are
as many either way. -/
def branch? (clauses : List Clause) : Option Literal :=
  (smallest? clauses).map fun name =>
    let literal : Literal := name
    if clauses.countP (·.contains (-literal)) < clauses.countP (·.contains literal) then literal
    else -literal

def size (clauses : List Clause) : Nat := clauses.flatten.length

/-- Literals that satisfy all clauses, if there are any. Every assignment removes at least
one occurrence of a literal, so the number of occurrences bounds the depth of the search. -/
def searchWithin : Nat → List Clause → Option (List Literal)
  | depth, clauses =>
    if clauses.any List.isEmpty then none
    else
      match depth with
      | 0 => some []
      | depth + 1 =>
        match forced? clauses with
        | some literal => (searchWithin depth (assign literal clauses)).map (literal :: ·)
        | none =>
          match branch? clauses with
          | none => some []
          | some literal =>
            match searchWithin depth (assign literal clauses) with
            | some literals => some (literal :: literals)
            | none => (searchWithin depth (assign (-literal) clauses)).map (-literal :: ·)

def search (clauses : List Clause) : Option (List Literal) :=
  searchWithin (size clauses) clauses

/-- Two clauses with opposite first literals force the common rest. -/
example : search [[1, 2], [-1, 2]] = some [-1, 2] ∧ search [[1], [-1, 2], [-2]] = none := by
  decide +kernel

end ModelFinder.Splitting
