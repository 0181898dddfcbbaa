/-!
Binary digits of integers in two's complement, least significant digit first. The digit at
position `k` has weight `2 ^ k`; in a sequence of digits the last one is the sign and its
weight counts negatively.
-/

namespace ModelFinder.Digits

def weight (position : Nat) : Nat := Nat.pow 2 position

@[simp] theorem weight_zero : weight 0 = 1 := rfl

theorem weight_succ (position : Nat) : weight (position + 1) = 2 * weight position := by
  simp [weight, Nat.pow_succ, Nat.mul_comm]

theorem weight_pos (position : Nat) : 0 < weight position := by
  induction position with
  | zero => decide
  | succ position hypothesis => rw [weight_succ]; omega

/-- The digit of an integer at a position. A negative integer has infinitely many digits
that are set. -/
def digit (value : Int) (position : Nat) : Bool := value / weight position % 2 == 1

def unsigned : List Bool → Nat
  | [] => 0
  | first :: rest => first.toNat + 2 * unsigned rest

/-- The integer with the given digits, of which the last one is the sign. -/
def signed (digits : List Bool) : Int :=
  unsigned digits - if digits.getLast?.getD false then weight digits.length else 0

theorem unsigned_lt (digits : List Bool) : unsigned digits < weight digits.length := by
  induction digits with
  | nil => decide
  | cons first rest hypothesis =>
    rw [List.length_cons, weight_succ]
    cases first <;> simp [unsigned] <;> omega

example : (List.range 4).map (digit (-3)) = [true, false, true, true]
    ∧ signed [true, false, true, true] = -3 := by decide

end ModelFinder.Digits
