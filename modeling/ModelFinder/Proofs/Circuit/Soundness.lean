import Mathlib
import ModelFinder.Proofs.Circuit.Gates
/-!
Circuits as their users meet them. A circuit starts without gates, if there are labels left for
gates, and gives out its variables by their labels.
-/

namespace ModelFinder

theorem Bit.lastVariable_of_lt {count : Nat} (small : count < 2147483648) :
    Bit.lastVariable count = count := by
  have size : UInt32.size = 4294967296 := by decide
  exact Int.bmod_eq_of_le (by omega) (by omega)

namespace Circuit

theorem checkLabels?_empty {primary : Nat} (small : primary < 2147483647) (width : Nat) :
    (empty primary width).checkLabels? = .ok () := by
  have gates : (empty primary width).gateCount = 0 := by simp [empty, gateCount]
  have label : (empty primary width).nextLabel ≤ maxLabel := by
    have last : Bit.lastVariable (empty primary width).primary = primary :=
      Bit.lastVariable_of_lt (by change primary < _; omega)
    rw [nextLabel, gates, maxLabel, last]
    omega
  exact if_pos label

theorem empty?_of_lt {primary : Nat} (small : primary < 2147483647) (width : Nat) :
    empty? primary width = .ok (empty primary width) := by
  rw [empty?, checkLabels?_empty small width]
  rfl

theorem var?_of_le {circuit : Circuit} {label : Nat} (positive : 0 < label)
    (bounded : label ≤ circuit.primary) (small : circuit.primary < 2147483648) :
    circuit.var? label = .ok (.var label) := by
  have last := Bit.lastVariable_of_lt small
  rw [Circuit.var?, last, if_pos (by omega), Int.toNat_natCast]

theorem of_empty? {primary width : Nat} {circuit : Circuit}
    (opened : empty? primary width = .ok circuit) :
    (empty primary width).checkLabels? = .ok () ∧ circuit = empty primary width := by
  unfold empty? at opened
  generalize (empty primary width).checkLabels? = checked at opened ⊢
  cases checked with
  | error error => cases opened
  | ok value => exact ⟨rfl, (Except.ok.inj opened).symm⟩

theorem knows_of_var {circuit : Circuit} {label : Int} {bit : Bit}
    (made : circuit.var? label = .ok bit) : circuit.Knows bit := by
  rw [var?] at made
  split at made
  · rename_i bounds
    cases made
    exact .var (by omega) (by omega)
  · cases made

/-- What operations keep: the circuit is valid, still over the variables that it started with, and
knows all bits made with it. -/
structure Sound (primary : Nat) (circuit : Circuit) (made : List Bit) : Prop where
  valid : circuit.Valid
  primary : circuit.primary = primary
  known : ∀ bit ∈ made, circuit.Knows bit

theorem Sound.cons {primary : Nat} {circuit : Circuit} {made : List Bit}
    (sound : Sound primary circuit made) {bit : Bit} (known : circuit.Knows bit) :
    Sound primary circuit (bit :: made) :=
  ⟨sound.valid, sound.primary, List.forall_mem_cons.mpr ⟨known, sound.known⟩⟩

end Circuit

end ModelFinder
