import Mathlib
import ModelFinder.Cnf.Encoding
import ModelFinder.Proofs.Circuit.Growth
/-!
Gates of all kinds are encoded in one way: first the operands in their order, then the next free
variable and the clauses of the kind. What a root asserts are bits, too, each by a clause of its
own; a conjunction asserts its operands and needs no variable for itself.
-/

namespace ModelFinder

def GateKind.clauses (kind : GateKind) (output : Literal) (inputs : List Literal) : List Clause :=
  match kind, inputs with
  | .and, inputs => Encode.conjunctionClauses output inputs
  | .or, inputs => Encode.disjunctionClauses output inputs
  | .not, [input] => Encode.negationClauses output input
  | .ite, [condition, thenLiteral, elseLiteral] =>
    Encode.choiceClauses output condition thenLiteral elseLiteral
  | _, _ => []

namespace Bit

/-- The bits that a root asserts. -/
def asserted : Bit → List Bit
  | .const _ => []
  | .and _ operands => operands
  | root => [root]

/-- A bit uses itself, its operands and whatever these use. -/
def Uses : Bit → Bit → Prop := Relation.ReflTransGen fun bit operand => operand ∈ bit.operands

def usedBy (bits : List Bit) : Set Bit := {used | ∃ bit ∈ bits, bit.Uses used}

def gatesUsedBy (bits : List Bit) : Set Bit := {gate ∈ usedBy bits | gate.kind?.isSome = true}

variable {bit : Bit} {bits : List Bit} {kind : GateKind}

theorem mem_usedBy_of_mem (member : bit ∈ bits) : bit ∈ usedBy bits := ⟨bit, member, .refl⟩

theorem mem_usedBy_of_operand (member : bit ∈ usedBy bits) {operand : Bit}
    (operandMember : operand ∈ bit.operands) : operand ∈ usedBy bits := by
  rcases member with ⟨top, topMember, uses⟩
  exact ⟨top, topMember, uses.tail operandMember⟩

theorem usedBy_append (left right : List Bit) :
    usedBy (left ++ right) = usedBy left ∪ usedBy right := by
  ext used
  constructor
  · rintro ⟨bit, member, uses⟩
    exact (List.mem_append.mp member).imp (⟨bit, ·, uses⟩) (⟨bit, ·, uses⟩)
  · rintro (⟨bit, member, uses⟩ | ⟨bit, member, uses⟩)
    · exact ⟨bit, List.mem_append_left _ member, uses⟩
    · exact ⟨bit, List.mem_append_right _ member, uses⟩

/-- What holds some bits and the operands of whatever it holds, holds all that they use. -/
theorem usedBy_subset {closed : Set Bit} (start : ∀ bit ∈ bits, bit ∈ closed)
    (step : ∀ bit ∈ closed, ∀ operand ∈ bit.operands, operand ∈ closed) :
    usedBy bits ⊆ closed := by
  rintro used ⟨bit, member, uses⟩
  induction uses with
  | refl => exact start bit member
  | tail _ operand hypothesis => exact step _ hypothesis _ operand

theorem kind?_isSome_of_operand {operand : Bit} (member : operand ∈ bit.operands) :
    bit.kind?.isSome = true := by
  cases bit with
  | const value => cases member
  | var label => cases member
  | _ => rfl

/-- A conjunction asserts its operands, and any other gate itself. -/
theorem asserted_of_kind? (isKind : bit.kind? = some kind) :
    bit.asserted = if kind = .and then bit.operands else [bit] := by
  cases bit <;> cases isKind <;> rfl

theorem uses_of_asserted {root : Bit} (member : bit ∈ root.asserted) : root.Uses bit := by
  cases root with
  | const value => cases member
  | and label operands => exact .single member
  | _ =>
      rw [List.mem_singleton.mp member]
      exact .refl

end Bit

theorem Circuit.Knows.uses {circuit : Circuit} (valid : circuit.Valid) {bit used : Bit}
    (known : circuit.Knows bit) (uses : bit.Uses used) : circuit.Knows used := by
  induction uses with
  | refl => exact known
  | tail _ operand hypothesis => exact (hypothesis.operands valid _ operand).1

theorem Circuit.Knows.label_le_of_uses {circuit : Circuit} (valid : circuit.Valid)
    {bit used : Bit} (known : circuit.Knows bit) (uses : bit.Uses used) :
    used.label ≤ bit.label := by
  induction uses with
  | refl => exact le_rfl
  | tail before operand hypothesis =>
      have below := ((known.uses valid before).operands valid _ operand).2.2
      exact below.le.trans hypothesis

namespace Encode

theorem literal_gate {bit : Bit} {kind : GateKind} (isKind : bit.kind? = some kind) :
    literal bit = named bit.label (do
      let inputs ← literals bit.operands
      defined fun output => kind.clauses output inputs) := by
  cases bit with
  | const value => cases isKind
  | var label => cases isKind
  | and label operands =>
      cases isKind
      rfl
  | or label operands =>
      cases isKind
      rfl
  | not label operand =>
      cases isKind
      simp only [literal, Bit.label, Bit.operands, literals, bind_assoc, pure_bind,
        GateKind.clauses]
  | ite label condition thenBit elseBit =>
      cases isKind
      simp only [literal, Bit.label, Bit.operands, literals, bind_assoc, pure_bind,
        GateKind.clauses]

theorem assertRoot_eq {root : Bit} (possible : root ≠ .const false) :
    assertRoot root = assertAll root.asserted := by
  cases root with
  | const value =>
      cases value with
      | true => rfl
      | false => exact absurd rfl possible
  | _ => rfl

end Encode

end ModelFinder
