import Std.Data.TreeSet
import ModelFinder.Cnf.Basic
/-!
Guidance of a search: which variable to decide next, which value to try first, and when to
begin again. No answer depends on it.

Variables that took part in many recent conflicts come first: every conflict adds to their
scores, and later conflicts add more. A variable is tried with the value that it had last.
The numbers of conflicts between two fresh starts follow the sequence
1, 1, 2, 1, 1, 2, 4, 1, 1, 2, 1, 1, 2, 4, 8, …
-/

namespace ModelFinder

structure Candidate where
  score : Nat
  name : Nat

/-- Candidates are in order of their scores. Of equal ones the first variable is last. -/
instance : Ord Candidate where
  compare left right := (compare left.score right.score).then (compare right.name left.name)

/-- Scores and last values by variable, what the next conflict adds to a score, and
candidates that include every variable without a value. The schedule has the position in the
sequence of lengths, and the number of conflicts before the next fresh start. -/
structure Guidance where
  scores : Array Nat
  values : Array Bool
  candidates : Std.TreeSet Candidate
  gain : Nat
  schedule : Nat × Nat
  remaining : Nat

namespace Guidance

def stride : Nat := 100

/-- Scores from here on are scaled down. -/
def ceiling : Nat := 1000000000000000

def scale : Nat := 1000000000000

def empty : Guidance := ⟨#[], #[], ∅, 1000, (1, 1), stride⟩

def cover (guidance : Guidance) (bound : Nat) : Guidance :=
  { guidance with
    scores := guidance.scores.rightpad bound 0
    values := guidance.values.rightpad bound false }

def candidate (guidance : Guidance) (name : Nat) : Candidate :=
  ⟨guidance.scores.getD name 0, name⟩

def enter (guidance : Guidance) (name : Nat) : Guidance :=
  let candidate := guidance.candidate name
  { guidance with candidates := guidance.candidates.insert candidate }

/-- Enters the variable of a literal that ceases to hold. -/
def leave (guidance : Guidance) (literal : Literal) : Guidance :=
  let name := literal.natAbs
  { guidance with values := guidance.values.setIfInBounds name (0 < literal) }.enter name

def raise (guidance : Guidance) (name : Nat) : Guidance :=
  let candidate := guidance.candidate name
  let score := candidate.score + guidance.gain
  { guidance with
    candidates := guidance.candidates.erase candidate
    scores := guidance.scores.setIfInBounds name score }

def rescale (guidance : Guidance) : Guidance :=
  if guidance.gain < ceiling then guidance
  else
    { guidance with
      gain := guidance.gain / scale
      scores := guidance.scores.map (· / scale)
      candidates := guidance.candidates.foldl
        (fun scaled candidate => scaled.insert ⟨candidate.score / scale, candidate.name⟩) ∅ }

def learn (guidance : Guidance) (names : List Nat) : Guidance :=
  let raised := names.foldl raise guidance
  { raised with
    gain := raised.gain * 20 / 19 + 1
    remaining := raised.remaining - 1 }.rescale

/-- The next literal to decide among a number of candidates. Those that have a value are
passed over. -/
def next (assigned : Nat → Bool) : Nat → Guidance → Option Literal × Guidance
  | 0, guidance => (none, guidance)
  | count + 1, guidance =>
    match guidance.candidates.atIdx? (guidance.candidates.size - 1) with
    | none => (none, guidance)
    | some candidate =>
      let name := candidate.name
      let guidance := { guidance with candidates := guidance.candidates.erase candidate }
      if assigned name then next assigned count guidance
      else
        let literal : Literal := name
        (some (if guidance.values.getD name false then literal else -literal), guidance)

def choose (guidance : Guidance) (assigned : Nat → Bool) : Option Literal × Guidance :=
  guidance.next assigned guidance.candidates.size

/-- The successor of a position in the sequence of lengths. The second number is the length:
it doubles as long as its double divides the first one, which counts the ones. -/
def advance (position : Nat × Nat) : Nat × Nat :=
  if position.1 % (2 * position.2) = 0 then (position.1, 2 * position.2)
  else (position.1 + 1, 1)

/-- The lengths in order. -/
example : ((List.range 15).map fun count => (Nat.repeat advance count (1, 1)).2) =
    [1, 1, 2, 1, 1, 2, 4, 1, 1, 2, 1, 1, 2, 4, 8] := by decide +kernel

def restart (guidance : Guidance) : Guidance :=
  let position := advance guidance.schedule
  { guidance with schedule := position, remaining := stride * position.2 }

end Guidance

end ModelFinder
