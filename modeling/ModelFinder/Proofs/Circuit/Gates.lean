import Mathlib
import ModelFinder.Proofs.Circuit.Growth
/-!
What gates compute. Every operation on known bits yields a known bit whose value, under every
assignment of the primary variables, is the operation's truth function of the values of its
inputs. Simplification therefore never changes a meaning, whatever gate it saves.
-/

namespace ModelFinder

/-! Sorted operands -/

namespace Bit

theorem mem_of_mem_insertOrdered {bit other : Bit} :
    ∀ {bits : List Bit}, other ∈ insertOrdered bit bits → other = bit ∨ other ∈ bits
  | [], member => by simpa [insertOrdered] using member
  | first :: rest, member => by
      rw [insertOrdered] at member
      split at member
      · simpa using member
      · split at member
        · rcases List.mem_cons.mp member with equal | member
          · exact .inl equal
          · exact .inr (List.mem_cons_of_mem _ member)
        · rcases List.mem_cons.mp member with equal | member
          · exact .inr (by simp [equal])
          · rcases mem_of_mem_insertOrdered member with equal | member
            · exact .inl equal
            · exact .inr (List.mem_cons_of_mem _ member)

/-- No label is lost: of two bits with one label, one is kept. -/
theorem exists_label_insertOrdered (bit : Bit) :
    ∀ (bits : List Bit) {other : Bit}, other = bit ∨ other ∈ bits →
      ∃ kept ∈ insertOrdered bit bits, kept.label = other.label
  | [], other, member => by
      rcases member with rfl | member
      · exact ⟨other, by simp [insertOrdered], rfl⟩
      · cases member
  | first :: rest, other, member => by
      rw [insertOrdered]
      split
      · exact ⟨other, by simpa using member, rfl⟩
      · split
        · rename_i equal
          rcases member with rfl | member
          · exact ⟨other, by simp, rfl⟩
          · rcases List.mem_cons.mp member with rfl | member
            · exact ⟨bit, by simp, equal⟩
            · exact ⟨other, by simp [member], rfl⟩
        · rcases member with rfl | member
          · obtain ⟨kept, keptMember, label⟩ := exists_label_insertOrdered other rest (.inl rfl)
            exact ⟨kept, List.mem_cons_of_mem _ keptMember, label⟩
          · rcases List.mem_cons.mp member with rfl | member
            · exact ⟨other, by simp, rfl⟩
            · obtain ⟨kept, keptMember, label⟩ :=
                exists_label_insertOrdered bit rest (.inr member)
              exact ⟨kept, List.mem_cons_of_mem _ keptMember, label⟩

theorem pairwise_insertOrdered (bit : Bit) :
    ∀ {bits : List Bit}, bits.Pairwise (fun left right => left.label < right.label) →
      (insertOrdered bit bits).Pairwise fun left right => left.label < right.label
  | [], _ => by simp [insertOrdered]
  | first :: rest, sorted => by
      obtain ⟨below, restSorted⟩ := List.pairwise_cons.mp sorted
      rw [insertOrdered]
      split
      · rename_i less
        refine List.pairwise_cons.mpr ⟨?_, sorted⟩
        intro other member
        rcases List.mem_cons.mp member with rfl | member
        · exact less
        · exact less.trans (below other member)
      · split
        · rename_i equal
          exact List.pairwise_cons.mpr ⟨fun other member => equal ▸ below other member,
            restSorted⟩
        · refine List.pairwise_cons.mpr ⟨?_, pairwise_insertOrdered bit restSorted⟩
          intro other member
          rcases mem_of_mem_insertOrdered member with rfl | member
          · omega
          · exact below other member

theorem pairwise_ordered (bits : List Bit) :
    (ordered bits).Pairwise fun left right => left.label < right.label := by
  induction bits with
  | nil => exact .nil
  | cons bit rest hypothesis => exact pairwise_insertOrdered bit hypothesis

theorem mem_ordered {circuit : Circuit} (valid : circuit.Valid) {bits : List Bit}
    (known : ∀ bit ∈ bits, circuit.Knows bit) (bit : Bit) :
    bit ∈ ordered bits ↔ bit ∈ bits := by
  induction bits generalizing bit with
  | nil => simp [ordered]
  | cons first rest hypothesis =>
      simp only [List.forall_mem_cons] at known
      have restSame := hypothesis known.2
      constructor
      · intro member
        rcases mem_of_mem_insertOrdered member with equal | member
        · simp [equal]
        · exact List.mem_cons_of_mem _ ((restSame bit).mp member)
      · intro member
        have restMember : bit = first ∨ bit ∈ ordered rest :=
          (List.mem_cons.mp member).imp_right (restSame bit).mpr
        obtain ⟨kept, keptMember, label⟩ :=
          exists_label_insertOrdered first (ordered rest) restMember
        have keptKnown : circuit.Knows kept := by
          rcases mem_of_mem_insertOrdered keptMember with rfl | keptRest
          · exact known.1
          · exact known.2 kept ((restSame kept).mp keptRest)
        have bitKnown : circuit.Knows bit := by
          rcases List.mem_cons.mp member with rfl | member
          · exact known.1
          · exact known.2 bit member
        rw [← keptKnown.eq_of_label valid bitKnown label]
        exact keptMember

/-- Operands that clash contradict each other under every assignment. -/
theorem exists_of_clash {circuit : Circuit} (valid : circuit.Valid) {bits : List Bit}
    (known : ∀ bit ∈ bits, circuit.Knows bit) (clashes : clash bits = true) :
    ∃ bit ∈ bits, ∃ negated ∈ bits, ∀ assignment,
      negated.eval assignment = !bit.eval assignment := by
  obtain ⟨negated, negatedMember, found⟩ := List.any_eq_true.mp clashes
  cases negated with
  | not label operand =>
      obtain ⟨bit, member, same⟩ := List.any_eq_true.mp found
      have operandKnown := ((known _ negatedMember).operands valid operand
        (by simp [operands])).1
      obtain rfl := (operandKnown.same_iff valid (known bit member)).mp same
      exact ⟨operand, member, _, negatedMember, fun assignment => by simp [eval]⟩
  | _ => simp at found

end Bit

namespace Circuit

/-- What is left of known inputs of a conjunction or disjunction once a constant is dropped
and the rest is sorted. -/
theorem knows_ordered {circuit : Circuit} (valid : circuit.Valid) {inputs : List Bit}
    (known : ∀ bit ∈ inputs, circuit.Knows bit) (dropped : Bool)
    (free : ∀ bit ∈ inputs, bit ≠ .const !dropped) :
    let operands := Bit.ordered (inputs.filter fun input => !input.same (.const dropped))
    (∀ bit, bit ∈ operands ↔ bit ∈ inputs ∧ bit ≠ .const dropped) ∧
      ∀ operand ∈ operands, circuit.Knows operand ∧ 0 < operand.label := by
  intro operands
  have members : ∀ bit, bit ∈ operands ↔ bit ∈ inputs ∧ bit ≠ .const dropped := by
    intro bit
    rw [Bit.mem_ordered valid fun bit member => known bit (List.mem_of_mem_filter member),
      List.mem_filter]
    constructor
    · rintro ⟨member, kept⟩
      refine ⟨member, ?_⟩
      rintro rfl
      simp [Bit.same] at kept
    · rintro ⟨member, different⟩
      refine ⟨member, ?_⟩
      have distinct := mt ((known bit member).same_iff valid (.const dropped)).mp different
      simpa using distinct
  refine ⟨members, ?_⟩
  intro operand member
  obtain ⟨inputMember, different⟩ := (members operand).mp member
  refine ⟨known operand inputMember, ?_⟩
  rcases (known operand inputMember).label_bounds valid with ⟨value, rfl⟩ | ⟨positive, -⟩
  · have absorbing := free _ inputMember
    cases value <;> cases dropped <;> simp_all
  · exact positive

end Circuit

namespace Build

variable {circuit : Circuit}

theorem computes_pure {bit : Bit} {value : (Nat → Bool) → Bool} (known : circuit.Knows bit)
    (evaluates : ∀ assignment, bit.eval assignment = value assignment) :
    Computes circuit (pure bit) value :=
  Yields.pure ⟨known, evaluates⟩

theorem computes_congr {action : Build Bit} {value value' : (Nat → Bool) → Bool}
    (computes : Computes circuit action value)
    (equal : ∀ assignment, value assignment = value' assignment) :
    Computes circuit action value' := by
  obtain rfl : value = value' := funext equal
  exact computes

theorem all_computes {inputs : List Bit} (known : ∀ bit ∈ inputs, circuit.Knows bit) :
    Computes circuit (all inputs) fun assignment => inputs.all (Bit.eval assignment) := by
  refine Yields.of_valid fun valid => ?_
  have falsified : ∀ bit ∈ inputs, (∀ assignment : Nat → Bool, bit.eval assignment = false) →
      ∀ assignment, inputs.all (Bit.eval assignment) = false := by
    intro bit member fails assignment
    exact List.all_eq_false.mpr ⟨bit, member, by simp [fails assignment]⟩
  rw [all]
  split
  · rename_i absorbed
    obtain ⟨bit, member, isFalse⟩ := List.any_eq_true.mp absorbed
    obtain rfl := ((known bit member).isFalse_iff valid).mp isFalse
    refine computes_pure (.const false) fun assignment => ?_
    rw [falsified _ member (fun _ => by simp [Bit.eval]) assignment, Bit.eval]
  · rename_i notAbsorbed
    have free : ∀ bit ∈ inputs, bit ≠ .const !true := by
      rintro bit member rfl
      exact notAbsorbed (List.any_eq_true.mpr ⟨_, member, by decide⟩)
    obtain ⟨members, operandsKnown⟩ := Circuit.knows_ordered valid known true free
    change ∀ bit, bit ∈ Bit.ordered (inputs.filter fun input => !input.isTrue) ↔ _ at members
    change ∀ operand ∈ Bit.ordered (inputs.filter fun input => !input.isTrue), _ at operandsKnown
    have sorted := Bit.pairwise_ordered (inputs.filter fun input => !input.isTrue)
    have meaning : ∀ assignment, inputs.all (Bit.eval assignment) =
        (Bit.ordered (inputs.filter fun input => !input.isTrue)).all (Bit.eval assignment) := by
      intro assignment
      rw [Bool.eq_iff_iff, List.all_eq_true, List.all_eq_true]
      constructor
      · intro holds bit member
        exact holds bit ((members bit).mp member).1
      · intro holds bit member
        by_cases isTrue : bit = .const true
        · simp [isTrue, Bit.eval]
        · exact holds bit ((members bit).mpr ⟨member, isTrue⟩)
    generalize Bit.ordered (inputs.filter fun input => !input.isTrue) = operands
      at members operandsKnown sorted meaning ⊢
    dsimp only
    split
    · rename_i clashes
      obtain ⟨bit, member, negated, negatedMember, opposite⟩ :=
        Bit.exists_of_clash valid (fun bit member => (operandsKnown bit member).1) clashes
      refine computes_pure (.const false) fun assignment => ?_
      rw [meaning, Bit.eval, eq_comm, List.all_eq_false]
      cases value : bit.eval assignment with
      | false => exact ⟨bit, member, by simp [value]⟩
      | true => exact ⟨negated, negatedMember, by simp [opposite, value]⟩
    · rename_i noClash
      rcases operands with _ | ⟨operand, _ | ⟨second, rest⟩⟩
      · exact computes_pure (.const true) fun assignment => by simp [meaning, Bit.eval]
      · exact computes_pure (operandsKnown operand (by simp)).1 fun assignment => by
          simp [meaning]
      · refine intern_computes (.and · _) (fun _ => rfl) (fun _ => rfl)
          (fun _ => rfl) operandsKnown (by simp)
          (fun _ => ⟨by simp, sorted, by simpa using noClash⟩) fun label assignment => ?_
        rw [Bit.eval, Bit.evalAll_eq_all, meaning]

theorem any_computes {inputs : List Bit} (known : ∀ bit ∈ inputs, circuit.Knows bit) :
    Computes circuit (any inputs) fun assignment => inputs.any (Bit.eval assignment) := by
  refine Yields.of_valid fun valid => ?_
  have verified : ∀ bit ∈ inputs, (∀ assignment : Nat → Bool, bit.eval assignment = true) →
      ∀ assignment, inputs.any (Bit.eval assignment) = true := by
    intro bit member holds assignment
    exact List.any_eq_true.mpr ⟨bit, member, holds assignment⟩
  rw [any]
  split
  · rename_i absorbed
    obtain ⟨bit, member, isTrue⟩ := List.any_eq_true.mp absorbed
    obtain rfl := ((known bit member).isTrue_iff valid).mp isTrue
    refine computes_pure (.const true) fun assignment => ?_
    rw [verified _ member (fun _ => by simp [Bit.eval]) assignment, Bit.eval]
  · rename_i notAbsorbed
    have free : ∀ bit ∈ inputs, bit ≠ .const !false := by
      rintro bit member rfl
      exact notAbsorbed (List.any_eq_true.mpr ⟨_, member, by decide⟩)
    obtain ⟨members, operandsKnown⟩ := Circuit.knows_ordered valid known false free
    change ∀ bit, bit ∈ Bit.ordered (inputs.filter fun input => !input.isFalse) ↔ _ at members
    change ∀ operand ∈ Bit.ordered (inputs.filter fun input => !input.isFalse), _ at operandsKnown
    have sorted := Bit.pairwise_ordered (inputs.filter fun input => !input.isFalse)
    have meaning : ∀ assignment, inputs.any (Bit.eval assignment) =
        (Bit.ordered (inputs.filter fun input => !input.isFalse)).any (Bit.eval assignment) := by
      intro assignment
      rw [Bool.eq_iff_iff, List.any_eq_true, List.any_eq_true]
      constructor
      · rintro ⟨bit, member, holds⟩
        refine ⟨bit, (members bit).mpr ⟨member, ?_⟩, holds⟩
        rintro rfl
        simp [Bit.eval] at holds
      · rintro ⟨bit, member, holds⟩
        exact ⟨bit, ((members bit).mp member).1, holds⟩
    generalize Bit.ordered (inputs.filter fun input => !input.isFalse) = operands
      at members operandsKnown sorted meaning ⊢
    dsimp only
    split
    · rename_i clashes
      obtain ⟨bit, member, negated, negatedMember, opposite⟩ :=
        Bit.exists_of_clash valid (fun bit member => (operandsKnown bit member).1) clashes
      refine computes_pure (.const true) fun assignment => ?_
      rw [meaning, Bit.eval, eq_comm, List.any_eq_true]
      cases value : bit.eval assignment with
      | false => exact ⟨negated, negatedMember, by simp [opposite, value]⟩
      | true => exact ⟨bit, member, value⟩
    · rename_i noClash
      rcases operands with _ | ⟨operand, _ | ⟨second, rest⟩⟩
      · exact computes_pure (.const false) fun assignment => by simp [meaning, Bit.eval]
      · exact computes_pure (operandsKnown operand (by simp)).1 fun assignment => by
          simp [meaning]
      · refine intern_computes (.or · _) (fun _ => rfl) (fun _ => rfl)
          (fun _ => rfl) operandsKnown (by simp)
          (fun _ => ⟨by simp, sorted, by simpa using noClash⟩) fun label assignment => ?_
        rw [Bit.eval, Bit.evalAny_eq_any, meaning]

theorem and_computes {left right : Bit} (leftKnown : circuit.Knows left)
    (rightKnown : circuit.Knows right) :
    Computes circuit (Build.and left right) fun assignment =>
      left.eval assignment && right.eval assignment :=
  computes_congr (all_computes (by simp [leftKnown, rightKnown])) fun assignment => by simp

theorem or_computes {left right : Bit} (leftKnown : circuit.Knows left)
    (rightKnown : circuit.Knows right) :
    Computes circuit (Build.or left right) fun assignment =>
      left.eval assignment || right.eval assignment :=
  computes_congr (any_computes (by simp [leftKnown, rightKnown])) fun assignment => by simp

private theorem operand_of_nonconst {bit : Bit} (valid : circuit.Valid)
    (known : circuit.Knows bit) (nonconst : bit.const? = none) :
    circuit.Knows bit ∧ 0 < bit.label := by
  rcases known.label_bounds valid with ⟨value, rfl⟩ | ⟨positive, -⟩
  · simp [Bit.const?] at nonconst
  · exact ⟨known, positive⟩

theorem not_computes {input : Bit} (known : circuit.Knows input) :
    Computes circuit (Build.not input) fun assignment => !input.eval assignment := by
  refine Yields.of_valid fun valid => ?_
  have negated : ∀ bit : Bit, circuit.Knows bit → bit.const? = none → bit.kind? ≠ some .not →
      Computes circuit (intern .not [bit] (.not · bit)) fun assignment =>
        !bit.eval assignment := by
    intro bit bitKnown nonconst notNegation
    refine intern_computes (.not · bit) (fun _ => rfl) (fun _ => rfl) (fun _ => rfl) ?_
      (by simp) (fun _ => notNegation) fun label assignment => by rw [Bit.eval]
    simpa using operand_of_nonconst valid bitKnown nonconst
  cases input with
  | const value => exact computes_pure (.const _) fun assignment => by simp [Bit.eval]
  | not label operand =>
      have operandKnown := (known.operands valid operand (by simp [Bit.operands])).1
      exact computes_pure operandKnown fun assignment => by simp [Bit.eval]
  | var label => exact negated _ known rfl (by simp [Bit.kind?])
  | and label operands => exact negated _ known rfl (by simp [Bit.kind?])
  | or label operands => exact negated _ known rfl (by simp [Bit.kind?])
  | ite label condition thenBit elseBit => exact negated _ known rfl (by simp [Bit.kind?])

theorem ite_computes {condition thenBit elseBit : Bit} (conditionKnown : circuit.Knows condition)
    (thenKnown : circuit.Knows thenBit) (elseKnown : circuit.Knows elseBit) :
    Computes circuit (Build.ite condition thenBit elseBit) fun assignment =>
      bif condition.eval assignment then thenBit.eval assignment
      else elseBit.eval assignment := by
  refine Yields.of_valid fun valid => ?_
  rw [Build.ite]
  split
  · rename_i value isConst
    obtain rfl := Bit.eq_const_of_const? isConst
    cases value
    · exact computes_pure elseKnown fun assignment => by simp [Bit.eval]
    · exact computes_pure thenKnown fun assignment => by simp [Bit.eval]
  rename_i conditionNonconst
  split
  · rename_i same
    obtain rfl := (thenKnown.same_iff valid elseKnown).mp same
    exact computes_pure thenKnown fun assignment => by simp
  rename_i thenElse
  split
  · rename_i same
    obtain rfl := (conditionKnown.same_iff valid thenKnown).mp same
    refine computes_congr (or_computes conditionKnown elseKnown) fun assignment => ?_
    cases condition.eval assignment <;> rfl
  rename_i conditionThen
  split
  · rename_i same
    obtain rfl := (conditionKnown.same_iff valid elseKnown).mp same
    refine computes_congr (and_computes conditionKnown thenKnown) fun assignment => ?_
    cases condition.eval assignment <;> rfl
  rename_i conditionElse
  -- What is left are constant branches, each with a gate of its own, and the choice itself.
  split
  · rename_i isConst
    obtain rfl := Bit.eq_const_of_const? isConst
    refine computes_congr (or_computes conditionKnown elseKnown) fun assignment => ?_
    cases condition.eval assignment <;> simp [Bit.eval]
  · rename_i isConst
    obtain rfl := Bit.eq_const_of_const? isConst
    refine Yields.bind (not_computes conditionKnown) fun negated after grown made => ?_
    refine computes_congr (and_computes made.1 (elseKnown.mono grown)) fun assignment => ?_
    cases value : condition.eval assignment <;> simp [made.2, value, Bit.eval]
  · rename_i isConst _ _
    obtain rfl := Bit.eq_const_of_const? isConst
    refine Yields.bind (not_computes conditionKnown) fun negated after grown made => ?_
    refine computes_congr (or_computes made.1 (thenKnown.mono grown)) fun assignment => ?_
    cases value : condition.eval assignment <;> simp [made.2, value, Bit.eval]
  · rename_i isConst _ _
    obtain rfl := Bit.eq_const_of_const? isConst
    refine computes_congr (and_computes conditionKnown thenKnown) fun assignment => ?_
    cases condition.eval assignment <;> simp [Bit.eval]
  · rename_i thenNonconst elseNonconst
    refine intern_computes (.ite · condition thenBit elseBit) (fun _ => rfl) (fun _ => rfl)
      (fun _ => rfl) ?_ (by simp) (fun _ => ?_) fun label assignment => by rw [Bit.eval]
    · simp only [List.forall_mem_cons]
      exact ⟨operand_of_nonconst valid conditionKnown conditionNonconst,
        operand_of_nonconst valid thenKnown thenNonconst,
        operand_of_nonconst valid elseKnown elseNonconst, by simp⟩
    · simp only [Bit.same, beq_iff_eq] at thenElse conditionThen conditionElse
      exact ⟨conditionThen, conditionElse, thenElse⟩

theorem xor_computes {left right : Bit} (leftKnown : circuit.Knows left)
    (rightKnown : circuit.Knows right) :
    Computes circuit (Build.xor left right) fun assignment =>
      left.eval assignment ^^ right.eval assignment := by
  refine Yields.bind (not_computes rightKnown) fun negated after grown made => ?_
  refine computes_congr (ite_computes (leftKnown.mono grown) made.1 (rightKnown.mono grown))
    fun assignment => ?_
  simp only [made.2]
  cases left.eval assignment <;> cases right.eval assignment <;> rfl

theorem iff_computes {left right : Bit} (leftKnown : circuit.Knows left)
    (rightKnown : circuit.Knows right) :
    Computes circuit (Build.iff left right) fun assignment =>
      left.eval assignment == right.eval assignment := by
  refine Yields.bind (not_computes rightKnown) fun negated after grown made => ?_
  refine computes_congr (ite_computes (leftKnown.mono grown) (rightKnown.mono grown) made.1)
    fun assignment => ?_
  simp only [made.2]
  cases left.eval assignment <;> cases right.eval assignment <;> rfl

theorem implies_computes {left right : Bit} (leftKnown : circuit.Knows left)
    (rightKnown : circuit.Knows right) :
    Computes circuit (Build.implies left right) fun assignment =>
      !left.eval assignment || right.eval assignment := by
  refine Yields.bind (not_computes leftKnown) fun negated after grown made => ?_
  refine computes_congr (or_computes made.1 (rightKnown.mono grown)) fun assignment => ?_
  simp only [made.2]

theorem sum_computes {left right carry : Bit} (leftKnown : circuit.Knows left)
    (rightKnown : circuit.Knows right) (carryKnown : circuit.Knows carry) :
    Computes circuit (Build.sum left right carry) fun assignment =>
      (left.eval assignment ^^ right.eval assignment) ^^ carry.eval assignment := by
  refine Yields.bind (xor_computes leftKnown rightKnown) fun either after grown made => ?_
  refine computes_congr (xor_computes made.1 (carryKnown.mono grown)) fun assignment => ?_
  simp only [made.2]

theorem carry_computes {left right carry : Bit} (leftKnown : circuit.Knows left)
    (rightKnown : circuit.Knows right) (carryKnown : circuit.Knows carry) :
    Computes circuit (Build.carry left right carry) fun assignment =>
      (left.eval assignment && right.eval assignment) ||
        (carry.eval assignment && (left.eval assignment ^^ right.eval assignment)) := by
  refine Yields.bind (and_computes leftKnown rightKnown) fun both first grown madeBoth => ?_
  refine Yields.bind (xor_computes (leftKnown.mono grown) (rightKnown.mono grown))
    fun either second grown' madeEither => ?_
  refine Yields.bind (and_computes ((carryKnown.mono grown).mono grown') madeEither.1)
    fun passed third grown'' madePassed => ?_
  refine computes_congr (or_computes ((madeBoth.1.mono grown').mono grown'') madePassed.1)
    fun assignment => ?_
  simp only [madeBoth.2, madePassed.2, madeEither.2]

end Build

end ModelFinder
