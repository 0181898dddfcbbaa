import Std.Data.TreeMap
import Std.Data.TreeSet
import ModelFinder.Backend.Search.Propagation
/-!
Explanations of conflicts. A known clause whose literals are all false explains a conflict.
It stays such a clause if a literal is exchanged for the rest of the clause that forced its
negation, because this is a step of resolution. Going back along the trail, the exchange
comes to a clause with a single literal on the current level. On any earlier level where its
other literals are false, this clause forces that literal.
-/

namespace ModelFinder

/-- A clause whose literals are all false, the number of them on the current level, and the
variables that took part in finding it. -/
structure Explanation where
  literals : Std.TreeSet Literal
  recent : Nat
  seen : List Nat

namespace Explanation

variable (known : Knowledge) (trail : Trail)

def absorb (explanation : Explanation) (literal : Literal) : Explanation :=
  if known.refutes literal || explanation.literals.contains literal then explanation
  else
    let name := literal.natAbs
    { literals := explanation.literals.insert literal
      recent :=
        if trail.level name = trail.depth then explanation.recent + 1 else explanation.recent
      seen := name :: explanation.seen }

def ofClause (clause : Clause) : Explanation := clause.foldl (absorb known trail) ⟨∅, 0, []⟩

/-- Exchanges a literal on the current level for the rest of the clause that forced its
negation. -/
def exchange (explanation : Explanation) (literal : Literal) (reason : Clause) : Explanation :=
  let without : Explanation :=
    { explanation with
      literals := explanation.literals.erase literal
      recent := explanation.recent - 1 }
  reason.foldl (fun partly other =>
    if other == -literal then partly else partly.absorb known trail other) without

/-- Exchanges literals along a part of the trail, the last ones first, until a single one is
on the current level. Also gives that one. -/
def reduce : Nat → Explanation → Option Literal × Explanation
  | 0, explanation => (none, explanation)
  | length + 1, explanation =>
    let literal : Literal := -(trail.literals.getD length 0)
    if explanation.literals.contains literal then
      match trail.reason? literal.natAbs with
      | some index =>
        if explanation.recent ≤ 1 then (some literal, explanation)
        else reduce length (explanation.exchange known trail literal (known.clause index))
      | none => (some literal, explanation)
    else reduce length explanation

def isRedundant (literals : Std.TreeSet Literal) (literal : Literal) : Bool :=
  match trail.reason? literal.natAbs with
  | some index =>
    (known.clause index).all fun other =>
      other == -literal || literals.contains other || known.refutes other
  | none => false

/-- Leaves out redundant literals. Those that became false last come first, because their
redundancy may rest on the others. -/
def shorten (literals : Std.TreeSet Literal) : Std.TreeSet Literal :=
  let byPosition : Std.TreeMap Nat Literal := literals.foldl
    (fun sorted literal => sorted.insert (trail.position literal.natAbs) literal) ∅
  byPosition.foldr (fun _ literal kept =>
    if isRedundant known trail kept literal then kept.erase literal else kept) literals

/-- The clause to learn from a conflict: the literal that it forces and the others, with the
variables that took part. -/
def ofConflict (clause : Clause) : Option (Literal × List Literal × List Nat) :=
  let (literal, explanation) :=
    (ofClause known trail clause).reduce known trail trail.literals.size
  literal.map fun literal =>
    (literal, ((shorten known trail explanation.literals).erase literal).toList,
      explanation.seen)

end Explanation

end ModelFinder
