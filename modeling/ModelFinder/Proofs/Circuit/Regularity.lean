import Mathlib
import ModelFinder.Proofs.Circuit.History
import ModelFinder.Proofs.Cnf.Roots
/-!
What the gates of a circuit look like from outside. Their labels are those after the variables,
each of them once; no two gates compute the same thing from the same operands; and every gate is
over older bits that no simplification applies to.
-/

namespace ModelFinder

namespace Circuit

def gateList (circuit : Circuit) : List Bit := circuit.gates.toList.map Prod.snd

/-- What every circuit keeps. Clauses are made from gates in the order of their labels, without
a literal for constants, and each gate once; they rely on all of this. -/
structure Regular (circuit : Circuit) : Prop where
  /-- The labels of the gates are those after the variables, and each is the label of one gate. -/
  labels : (circuit.gateList.map Bit.label).Perm
    ((List.range circuit.gateCount).map fun position : Nat =>
      (circuit.primary : Int) + 1 + position)
  /-- Gates of one kind differ in the labels of their operands. -/
  distinct : circuit.gateList.Pairwise fun left right =>
    left.kind? = right.kind? → left.operands.map Bit.label ≠ right.operands.map Bit.label
  isGate : ∀ gate ∈ circuit.gateList, gate.kind?.isSome
  older : ∀ gate ∈ circuit.gateList, ∀ operand ∈ gate.operands, operand.label < gate.label
  notConst : ∀ gate ∈ circuit.gateList, ∀ operand ∈ gate.operands, operand.isConst = false
  /-- Conjunctions and disjunctions are over two or more operands in ascending order, and none
  of these is a negation of another one. -/
  nary : ∀ gate ∈ circuit.gateList, gate.kind? = some .and ∨ gate.kind? = some .or →
    2 ≤ gate.operands.length ∧ (gate.operands.map Bit.label).Pairwise (· < ·) ∧
      ∀ label negated, .not label negated ∈ gate.operands →
        negated.label ∉ gate.operands.map Bit.label
  negation : ∀ gate ∈ circuit.gateList, ∀ label operand, gate = .not label operand →
    operand.kind? ≠ some .not
  choice : ∀ gate ∈ circuit.gateList, ∀ label condition thenBit elseBit,
    gate = .ite label condition thenBit elseBit →
      condition.label ≠ thenBit.label ∧ condition.label ≠ elseBit.label ∧
        thenBit.label ≠ elseBit.label

variable {circuit : Circuit}

theorem mem_gateList {bit : Bit} :
    bit ∈ circuit.gateList ↔ ∃ key : List Int, circuit.gates[key]? = some bit := by
  simp only [gateList, List.mem_map, Prod.exists, exists_eq_right,
    Std.ExtTreeMap.mem_toList_iff_getElem?_eq_some]

theorem length_gateList (circuit : Circuit) : circuit.gateList.length = circuit.gateCount := by
  rw [gateList, List.length_map, Std.ExtTreeMap.length_toList, gateCount]

theorem pairwise_gateList {related : Bit → Bit → Prop}
    (holds : ∀ {left right : List Int} {bit other : Bit}, circuit.gates[left]? = some bit →
      circuit.gates[right]? = some other → left ≠ right → related bit other) :
    circuit.gateList.Pairwise related := by
  rw [gateList, List.pairwise_map]
  refine (Std.ExtTreeMap.distinct_keys_toList (t := circuit.gates)).imp_of_mem ?_
  intro left right leftMember rightMember different
  refine holds (Std.ExtTreeMap.mem_toList_iff_getElem?_eq_some.mp leftMember)
    (Std.ExtTreeMap.mem_toList_iff_getElem?_eq_some.mp rightMember) ?_
  rintro same
  exact different (Std.LawfulEqCmp.compare_eq_iff_eq.mpr same)

namespace Valid

variable (valid : circuit.Valid)

include valid

theorem labels_perm (counted : circuit.primary < UInt32.size) :
    (circuit.gateList.map Bit.label).Perm
      ((List.range circuit.gateCount).map fun position : Nat =>
        (circuit.primary : Int) + 1 + position) := by
  have distinct : (circuit.gateList.map Bit.label).Nodup := by
    rw [List.Nodup, List.pairwise_map]
    exact pairwise_gateList fun stored stored' different same =>
      different (valid.distinct stored stored' same)
  refine (List.subperm_of_subset distinct fun label member => ?_).perm_of_length_le (by
    rw [List.length_map, List.length_map, List.length_range, length_gateList])
  rcases List.mem_map.mp member with ⟨gate, gateMember, rfl⟩
  rcases mem_gateList.mp gateMember with ⟨key, stored⟩
  have placed := valid.placed stored
  have known : circuit.Knows gate := by
    rcases placed.filed with ⟨kind, isKind, rfl⟩
    exact .gate isKind stored
  -- A circuit with a gate has a variable, so its variables are numbered by their count.
  have last := Bit.lastVariable_eq_of_pos counted (known.lastVariable_pos valid placed.label_pos)
  have above := placed.lastVariable_lt
  have below := placed.label_lt
  rw [nextLabel] at below
  rw [last] at above below
  refine List.mem_map.mpr ⟨(gate.label - circuit.primary - 1).toNat, ?_, ?_⟩
  · rw [List.mem_range]
    omega
  · omega

theorem distinct_gates : circuit.gateList.Pairwise fun left right =>
    left.kind? = right.kind? →
      left.operands.map Bit.label ≠ right.operands.map Bit.label := by
  refine pairwise_gateList fun {key key' bit other} stored stored' different sameKind same => ?_
  rcases (valid.placed stored).filed with ⟨kind, isKind, filed⟩
  rcases (valid.placed stored').filed with ⟨otherKind, isOtherKind, otherFiled⟩
  have kinds : kind = otherKind :=
    Option.some.inj (isKind.symm.trans (sameKind.trans isOtherKind))
  apply different
  rw [filed, otherFiled, GateKind.key, GateKind.key, kinds, same]

theorem regular (counted : circuit.primary < UInt32.size) : circuit.Regular where
  labels := valid.labels_perm counted
  distinct := valid.distinct_gates
  isGate gate member := by
    rcases mem_gateList.mp member with ⟨key, stored⟩
    rcases (valid.placed stored).filed with ⟨kind, isKind, -⟩
    rw [isKind]
    rfl
  older gate member operand operandMember := by
    rcases mem_gateList.mp member with ⟨key, stored⟩
    exact ((valid.placed stored).operands operand operandMember).2.2
  notConst gate member operand operandMember := by
    rcases mem_gateList.mp member with ⟨key, stored⟩
    have positive := ((valid.placed stored).operands operand operandMember).2.1
    cases operand with
    | const value =>
        have nonpositive := Bit.label_const_nonpos value
        omega
    | _ => rfl
  nary gate member isNary := by
    rcases mem_gateList.mp member with ⟨key, stored⟩
    have reduced := (valid.placed stored).reduced
    -- Both kinds of gates are reduced if their operands are.
    obtain ⟨several, sorted, free⟩ : 2 ≤ gate.operands.length ∧
        gate.operands.Pairwise (fun left right => left.label < right.label) ∧
          Bit.clash gate.operands = false := by
      cases gate with
      | and label operands => exact reduced
      | or label operands => exact reduced
      | _ => simp [Bit.kind?] at isNary
    refine ⟨several, List.pairwise_map.mpr sorted, fun label negated negatedMember clash => ?_⟩
    rcases List.mem_map.mp clash with ⟨other, otherMember, same⟩
    have found := List.any_eq_false.mp free _ negatedMember
    refine found (List.any_eq_true.mpr ⟨other, otherMember, ?_⟩)
    rw [Bit.same, beq_iff_eq, same]
  negation gate member label operand same := by
    rcases mem_gateList.mp member with ⟨key, stored⟩
    have reduced := (valid.placed stored).reduced
    rw [same] at reduced
    exact reduced
  choice gate member label condition thenBit elseBit same := by
    rcases mem_gateList.mp member with ⟨key, stored⟩
    have reduced := (valid.placed stored).reduced
    rw [same] at reduced
    exact reduced

end Valid

/-- After any tasks on the constants, the variables and the results of earlier tasks, the gates
of a circuit are regular. -/
theorem History.gates_regular {primary width : Nat} {made : List Bit}
    {performed : List (Task × Except Error Value)}
    (history : History primary width circuit made performed) (counted : primary < UInt32.size) :
    circuit.Regular ∧ circuit.primary = primary :=
  ⟨history.sound.valid.regular (history.sound.primary.symm ▸ counted), history.sound.primary⟩

/-- Adding two words of two variables makes ten gates. -/
theorem History.gates_regular_addition : ∃ circuit made performed,
    History 4 2 circuit made performed ∧ circuit.gateCount = 10 ∧ circuit.Regular := by
  have opened : History 4 2 (empty 4 2) [] [] := .start (empty?_of_lt (by decide) 2)
  have offered : ∀ label : Nat, 0 < label → label ≤ 4 →
      (empty 4 2).var? label = .ok (.var label) :=
    fun label positive bounded => var?_of_le positive bounded (by decide)
  have named := (((opened.var (offered 1 (by decide) (by decide))).var
    (offered 2 (by decide) (by decide))).var (offered 3 (by decide) (by decide))).var
    (offered 4 (by decide) (by decide))
  have added := named.perform (.word .plus (.ofBits [.var 1, .var 2]) (.ofBits [.var 3, .var 4]))
    (by simp [Task.inputs, HasBits.bits])
  exact ⟨_, _, _, added, by decide +kernel, (added.gates_regular (by decide)).1⟩

end Circuit

end ModelFinder
