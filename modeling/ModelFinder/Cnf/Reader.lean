import ModelFinder.Cnf.Basic
import ModelFinder.Text.Blank
import ModelFinder.Text.Numeral
/-!
Reading of DIMACS texts. Lines that start with a `c` are comments. The first other line is the
header, `p cnf` with the numbers of variables and clauses. The numbers after it may be spread over
lines in any way; they are the literals of clauses, each of which a zero closes.
-/

namespace ModelFinder.Dimacs

structure Content where
  variableCount : Nat
  clauseCount : Nat
  numbers : List Int
deriving DecidableEq

def isComment (line : List Char) : Bool := line.head? == some 'c'

def header? (words : List (List Char)) : Option (Nat × Nat) :=
  match words with
  | [problem, format, variableCount, clauseCount] =>
    if problem == "p".toList && format == "cnf".toList then do
      return (← Text.readDigits variableCount, ← Text.readDigits clauseCount)
    else none
  | _ => none

def content? (text : String) : Option Content :=
  match (Text.lines text.toList).filter fun line => !isComment line with
  | [] => none
  | first :: rest => do
    let (variableCount, clauseCount) ← header? (Text.words first)
    let numbers ← (rest.flatMap Text.words).mapM Text.readInt
    return ⟨variableCount, clauseCount, numbers⟩

/-- The clauses that zeros close, the first of which has `begun`. None may be left open. -/
def clauses? (begun : Clause) : List Int → Option (List Clause)
  | [] => if begun.isEmpty then some [] else none
  | number :: rest =>
    if number = 0 then (clauses? [] rest).map (begun :: ·)
    else clauses? (begun ++ [number]) rest

/-- Reads a text. The header must give the number of its clauses and cover its variables. -/
def read? (text : String) : Option Cnf := do
  let content ← content? text
  let clauses ← clauses? [] content.numbers
  if clauses.length = content.clauseCount
      ∧ content.numbers.all fun number => number.natAbs ≤ content.variableCount then
    return ⟨content.variableCount, clauses.toArray⟩
  else none

/-- A clause may go over several lines, and several may stand on one. -/
example : read? "c note\np cnf 3 2\n1\n-3 0 0\n" = some ⟨3, #[[1, -3], []]⟩ := by
  decide +kernel

end ModelFinder.Dimacs
