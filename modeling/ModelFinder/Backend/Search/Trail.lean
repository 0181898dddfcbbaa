import ModelFinder.Backend.Search.Knowledge
/-!
The trail of a search: the literals that hold at present, in the order in which they came to
hold. A literal was either decided, which begins a new level, or forced by a clause whose
other literals were false before. Literals on level zero depend on no decision.
-/

namespace ModelFinder

/-- Literals that hold, and the numbers of literals before each level but zero. By place,
`holding` tells whether a literal holds. By variable, there are the level and the position of
its literal and the clause that forced it. -/
structure Trail where
  literals : Array Literal
  starts : Array Nat
  holding : Array Bool
  levels : Array Nat
  positions : Array Nat
  reasons : Array (Option Nat)

namespace Trail

def empty : Trail := ⟨#[], #[], #[], #[], #[], #[]⟩

def cover (trail : Trail) (bound : Nat) : Trail :=
  { trail with
    holding := trail.holding.rightpad (2 * bound) false
    levels := trail.levels.rightpad bound 0
    positions := trail.positions.rightpad bound 0
    reasons := trail.reasons.rightpad bound none }

def depth (trail : Trail) : Nat := trail.starts.size

@[inline] def holds (trail : Trail) (literal : Literal) : Bool :=
  trail.holding.getD literal.place false

@[inline] def refutes (trail : Trail) (literal : Literal) : Bool := trail.holds (-literal)

def assigns (trail : Trail) (name : Nat) : Bool := trail.holds name || trail.refutes name

def assignment (trail : Trail) : Nat → Bool :=
  let holding := trail.holding
  fun name => holding.getD (Literal.place name) false

def level (trail : Trail) (name : Nat) : Nat := trail.levels.getD name 0

def position (trail : Trail) (name : Nat) : Nat := trail.positions.getD name 0

def reason? (trail : Trail) (name : Nat) : Option Nat := trail.reasons.getD name none

/-- Lets a literal hold, forced by a clause or by itself. -/
@[inline] def push (trail : Trail) (literal : Literal) (reason : Option Nat) : Trail :=
  let name := literal.natAbs
  let level := trail.starts.size
  let position := trail.literals.size
  { literals := trail.literals.push literal
    starts := trail.starts
    holding := trail.holding.setIfInBounds literal.place true
    levels := trail.levels.setIfInBounds name level
    positions := trail.positions.setIfInBounds name position
    reasons := trail.reasons.setIfInBounds name reason }

def decide (trail : Trail) (literal : Literal) : Trail :=
  let start := trail.literals.size
  { trail with starts := trail.starts.push start }.push literal none

def last? (trail : Trail) : Option Literal := trail.literals.back?

/-- Takes back the last literal, which is given. -/
def pop (trail : Trail) (literal : Literal) : Trail :=
  { trail with
    literals := trail.literals.pop
    holding := trail.holding.setIfInBounds literal.place false }

def lengthUpTo (trail : Trail) (level : Nat) : Nat :=
  trail.starts.getD level trail.literals.size

def withoutReasons (trail : Trail) : Trail :=
  { trail with reasons := Array.replicate trail.reasons.size none }

/-- A decision and a literal that it forces, and the first of the two taken back. -/
example :
    let trail := ((empty.cover 4).decide (-2)).push 3 (some 0)
    trail.level 3 = 1 ∧ trail.refutes 2 ∧ trail.lengthUpTo 0 = 0 ∧
      (trail.pop 3).last? = some (-2) := by
  decide +kernel

end Trail

end ModelFinder
