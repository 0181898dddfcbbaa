import Mathlib
import ModelFinder.Proofs.Circuit.Soundness
/-!
The operations on bits and their truth functions. On bits that a circuit knows, an operation gives a
bit that computes the operation's truth function.
-/

namespace ModelFinder

inductive Operation where
  | all (inputs : List Bit)
  | any (inputs : List Bit)
  | not (input : Bit)
  | ite (condition thenBit elseBit : Bit)
  | xor (left right : Bit)
  | iff (left right : Bit)
  | implies (left right : Bit)
  | sum (left right carryIn : Bit)
  | carry (left right carryIn : Bit)

namespace Operation

def build : Operation → Build Bit
  | .all inputs => Build.all inputs
  | .any inputs => Build.any inputs
  | .not input => Build.not input
  | .ite condition thenBit elseBit => Build.ite condition thenBit elseBit
  | .xor left right => Build.xor left right
  | .iff left right => Build.iff left right
  | .implies left right => Build.implies left right
  | .sum left right carryIn => Build.sum left right carryIn
  | .carry left right carryIn => Build.carry left right carryIn

def inputs : Operation → List Bit
  | .all inputs | .any inputs => inputs
  | .not input => [input]
  | .ite condition thenBit elseBit => [condition, thenBit, elseBit]
  | .xor left right | .iff left right | .implies left right => [left, right]
  | .sum left right carryIn | .carry left right carryIn => [left, right, carryIn]

/-- The truth function of an operation. The sum of three digits is odd if an odd number of
them is one; there is a carry if at least two are. -/
def value (assignment : Nat → Bool) : Operation → Bool
  | .all inputs => inputs.all fun input => input.eval assignment
  | .any inputs => inputs.any fun input => input.eval assignment
  | .not input => !input.eval assignment
  | .ite condition thenBit elseBit =>
    if condition.eval assignment then thenBit.eval assignment else elseBit.eval assignment
  | .xor left right => left.eval assignment != right.eval assignment
  | .iff left right => left.eval assignment == right.eval assignment
  | .implies left right => !left.eval assignment || right.eval assignment
  | .sum left right carryIn =>
    ((left.eval assignment).toNat + (right.eval assignment).toNat +
      (carryIn.eval assignment).toNat) % 2 == 1
  | .carry left right carryIn =>
    2 ≤ (left.eval assignment).toNat + (right.eval assignment).toNat +
      (carryIn.eval assignment).toNat

theorem build_computes {circuit : Circuit} (operation : Operation)
    (known : ∀ input ∈ operation.inputs, circuit.Knows input) :
    Build.Computes circuit operation.build fun assignment => operation.value assignment := by
  cases operation with
  | all inputs => exact Build.all_computes known
  | any inputs => exact Build.any_computes known
  | not input => exact Build.not_computes (known input (by simp [inputs]))
  | ite condition thenBit elseBit =>
      refine Build.computes_congr (Build.ite_computes (known condition (by simp [inputs]))
        (known thenBit (by simp [inputs])) (known elseBit (by simp [inputs])))
        fun assignment => ?_
      rw [value]
      cases condition.eval assignment <;> rfl
  | xor left right =>
      exact Build.xor_computes (known left (by simp [inputs])) (known right (by simp [inputs]))
  | iff left right =>
      exact Build.iff_computes (known left (by simp [inputs])) (known right (by simp [inputs]))
  | implies left right =>
      exact Build.implies_computes (known left (by simp [inputs]))
        (known right (by simp [inputs]))
  | sum left right carryIn =>
      refine Build.computes_congr (Build.sum_computes (known left (by simp [inputs]))
        (known right (by simp [inputs])) (known carryIn (by simp [inputs]))) fun assignment => ?_
      rw [value]
      cases left.eval assignment <;> cases right.eval assignment <;>
        cases carryIn.eval assignment <;> rfl
  | carry left right carryIn =>
      refine Build.computes_congr (Build.carry_computes (known left (by simp [inputs]))
        (known right (by simp [inputs])) (known carryIn (by simp [inputs]))) fun assignment => ?_
      rw [value]
      cases left.eval assignment <;> cases right.eval assignment <;>
        cases carryIn.eval assignment <;> rfl

end Operation

end ModelFinder
