import Mathlib
import ModelFinder.Proofs.Circuit.Gates
/-!
Families of bits that operations do not lead out of. Two families matter: the bits that a
circuit knows, which stay known while it grows, and the constants, on which no operation makes
a gate at all.

`BitFamily.Keeps` is the judgement of this theory: a computation whose inputs are in the
family gives a result whose bits are in the family. It is shown once for every operation and
holds for both families.
-/

namespace ModelFinder

class HasBits (α : Type) where
  bits : α → List Bit

instance : HasBits Bit := ⟨fun bit => [bit]⟩

instance {α : Type} [HasBits α] : HasBits (List α) := ⟨List.flatMap HasBits.bits⟩

instance {α β : Type} [HasBits α] [HasBits β] : HasBits (α × β) :=
  ⟨fun pair => HasBits.bits pair.1 ++ HasBits.bits pair.2⟩

instance {α : Type} [HasBits α] : HasBits (Option α) := ⟨fun found => HasBits.bits found.toList⟩

instance {α : Type} [HasBits α] : HasBits (Except Error α) :=
  ⟨fun outcome => HasBits.bits outcome.toOption⟩

instance : HasBits Unit := ⟨fun _ => []⟩

instance : HasBits Nat := ⟨fun _ => []⟩

/-- A family of bits, together with the circuits that it is meant for and with what may become
of a circuit while bits stay in the family. -/
structure BitFamily where
  Ready : Circuit → Prop
  Grows : Circuit → Circuit → Prop
  Holds : Circuit → Bit → Prop
  refl : ∀ circuit, Grows circuit circuit
  trans : ∀ {first second third}, Grows first second → Grows second third → Grows first third
  mono : ∀ {before after bit}, Holds before bit → Grows before after → Holds after bit
  const : ∀ circuit value, Holds circuit (.const value)

namespace BitFamily

def All (family : BitFamily) (circuit : Circuit) {α : Type} [HasBits α] (value : α) : Prop :=
  ∀ bit ∈ HasBits.bits value, family.Holds circuit bit

/-- A computation stays within the family. -/
def Keeps (family : BitFamily) (circuit : Circuit) {α : Type} [HasBits α] (action : Build α) :
    Prop :=
  family.Ready circuit → family.Ready (action circuit).2 ∧ family.Grows circuit (action circuit).2 ∧
    family.All (action circuit).2 (action circuit).1

/-- The four gates stay within the family. -/
structure Closed (family : BitFamily) : Prop where
  all : ∀ {circuit inputs}, family.All circuit inputs → family.Keeps circuit (Build.all inputs)
  any : ∀ {circuit inputs}, family.All circuit inputs → family.Keeps circuit (Build.any inputs)
  not : ∀ {circuit input}, family.All circuit input → family.Keeps circuit (Build.not input)
  ite : ∀ {circuit condition thenBit elseBit}, family.All circuit condition →
    family.All circuit thenBit → family.All circuit elseBit →
    family.Keeps circuit (Build.ite condition thenBit elseBit)

section

variable {family : BitFamily} {circuit : Circuit} {α β : Type} [HasBits α] [HasBits β]

@[simp] theorem all_bit {bit : Bit} : family.All circuit bit ↔ family.Holds circuit bit := by
  simp [All, HasBits.bits]

@[simp] theorem all_const (value : Bool) : family.All circuit (Bit.const value) :=
  all_bit.mpr (family.const circuit value)

@[simp] theorem all_nil : family.All circuit ([] : List α) := by
  simp [All, HasBits.bits]

@[simp] theorem all_cons {first : α} {rest : List α} :
    family.All circuit (first :: rest) ↔ family.All circuit first ∧ family.All circuit rest := by
  simp only [All, HasBits.bits, List.flatMap_cons, List.forall_mem_append]

theorem all_list {values : List α} :
    family.All circuit values ↔ ∀ value ∈ values, family.All circuit value := by
  induction values with
  | nil => simp
  | cons first rest hypothesis => rw [all_cons, List.forall_mem_cons, hypothesis]

@[simp] theorem all_append {left right : List α} :
    family.All circuit (left ++ right) ↔ family.All circuit left ∧ family.All circuit right := by
  simp only [all_list, List.forall_mem_append]

@[simp] theorem all_pair {pair : α × β} :
    family.All circuit pair ↔ family.All circuit pair.1 ∧ family.All circuit pair.2 := by
  simp only [All, HasBits.bits, List.forall_mem_append]

@[simp] theorem all_none : family.All circuit (none : Option α) :=
  all_nil

@[simp] theorem all_some {value : α} :
    family.All circuit (some value) ↔ family.All circuit value := by
  simp [All, HasBits.bits]

@[simp] theorem all_ok {value : α} :
    family.All circuit (.ok value : Except Error α) ↔ family.All circuit value :=
  all_some

@[simp] theorem all_error {error : Error} : family.All circuit (.error error : Except Error α) :=
  all_none

@[simp] theorem all_nat {number : Nat} : family.All circuit number := by
  simp [All, HasBits.bits]

@[simp] theorem all_unit {value : Unit} : family.All circuit value := by
  simp [All, HasBits.bits]

theorem All.mono {value : α} {after : Circuit} (held : family.All circuit value)
    (grown : family.Grows circuit after) : family.All after value :=
  fun bit member => family.mono (held bit member) grown

theorem All.filter {values : List α} (held : family.All circuit values) (chosen : α → Bool) :
    family.All circuit (values.filter chosen) :=
  all_list.mpr fun value member => all_list.mp held value (List.mem_of_mem_filter member)

theorem all_replicate {value : α} (held : family.All circuit value) (count : Nat) :
    family.All circuit (List.replicate count value) :=
  all_list.mpr fun _ member => List.eq_of_mem_replicate member ▸ held

theorem All.zip {left : List α} {right : List β} (leftHeld : family.All circuit left)
    (rightHeld : family.All circuit right) : family.All circuit (left.zip right) :=
  all_list.mpr fun _ member => all_pair.mpr
    ⟨all_list.mp leftHeld _ (List.of_mem_zip member).1,
      all_list.mp rightHeld _ (List.of_mem_zip member).2⟩

theorem All.of_sublist {left right : List α} (held : family.All circuit right)
    (sublist : left.Sublist right) : family.All circuit left :=
  all_list.mpr fun value member => all_list.mp held value (sublist.subset member)

theorem All.of_mem {values : List α} (held : family.All circuit values) {value : α}
    (member : value ∈ values) : family.All circuit value :=
  all_list.mp held value member

namespace Keeps

theorem pure {value : α} (held : family.All circuit value) :
    family.Keeps circuit (Pure.pure value) :=
  fun ready => ⟨ready, family.refl circuit, held⟩

theorem bind {action : Build α} {next : α → Build β} (first : family.Keeps circuit action)
    (second : ∀ value after, family.Grows circuit after → family.All after value →
      family.Keeps after (next value)) : family.Keeps circuit (action >>= next) := by
  intro ready
  obtain ⟨middleReady, grown, held⟩ := first ready
  obtain ⟨afterReady, grownAgain, heldAfter⟩ := second _ _ grown held middleReady
  exact ⟨afterReady, family.trans grown grownAgain, heldAfter⟩

theorem map {action : Build α} {transform : α → β} (first : family.Keeps circuit action)
    (parts : ∀ value after, family.Grows circuit after → family.All after value →
      family.All after (transform value)) :
    family.Keeps circuit (do return transform (← action)) :=
  bind first fun value after grown held => pure (parts value after grown held)

theorem mapM {γ : Type} {elements : List γ} {action : γ → Build α}
    (each : ∀ element ∈ elements, ∀ after, family.Grows circuit after →
      family.Keeps after (action element)) :
    family.Keeps circuit (elements.mapM action) := by
  induction elements generalizing circuit with
  | nil => exact pure all_nil
  | cons element rest hypothesis =>
      rw [List.mapM_cons]
      refine bind (each element List.mem_cons_self circuit (family.refl circuit))
        fun result middle grown held => ?_
      refine bind (hypothesis fun other member after grownAgain =>
        each other (List.mem_cons_of_mem _ member) after (family.trans grown grownAgain))
        fun results after grownAgain heldAll => ?_
      exact pure (all_cons.mpr ⟨held.mono grownAgain, heldAll⟩)

/-! Computations that may fail -/

theorem tryPure {value : α} (held : family.All circuit value) :
    family.Keeps circuit (Pure.pure value : TryBuild α).run :=
  pure (all_ok.mpr held)

theorem throw {error : Error} :
    family.Keeps circuit (MonadExcept.throw error : TryBuild α).run :=
  pure all_error

theorem lift {action : Build α} (keeps : family.Keeps circuit action) :
    family.Keeps circuit (liftM action : TryBuild α).run :=
  bind keeps fun _ _ _ held => pure (all_ok.mpr held)

theorem except {outcome : Except Error α} (held : family.All circuit outcome) :
    family.Keeps circuit (liftM outcome : TryBuild α).run :=
  pure held

theorem tryBind {action : TryBuild α} {next : α → TryBuild β}
    (first : family.Keeps circuit action.run)
    (second : ∀ value after, family.Grows circuit after → family.All after value →
      family.Keeps after (next value).run) : family.Keeps circuit (action >>= next).run := by
  change family.Keeps circuit (action.run >>= ExceptT.bindCont next)
  refine bind first fun outcome after grown held => ?_
  cases outcome with
  | error error => exact throw
  | ok value => exact second value after grown (all_ok.mp held)

theorem tryGet {next : Circuit → TryBuild β} (second : family.Keeps circuit (next circuit).run) :
    family.Keeps circuit (MonadState.get >>= next).run :=
  second

theorem tryMapM {γ : Type} {elements : List γ} {action : γ → TryBuild α}
    (each : ∀ element ∈ elements, ∀ after, family.Grows circuit after →
      family.Keeps after (action element).run) :
    family.Keeps circuit (elements.mapM action).run := by
  induction elements generalizing circuit with
  | nil => exact tryPure all_nil
  | cons element rest hypothesis =>
      rw [List.mapM_cons]
      refine tryBind (each element List.mem_cons_self circuit (family.refl circuit))
        fun result middle grown held => ?_
      refine tryBind (hypothesis fun other member after grownAgain =>
        each other (List.mem_cons_of_mem _ member) after (family.trans grown grownAgain))
        fun results after grownAgain heldAll => ?_
      exact tryPure (all_cons.mpr ⟨held.mono grownAgain, heldAll⟩)

end Keeps

end

/-! Gates made of gates -/

namespace Closed

variable {family : BitFamily} (closed : family.Closed) {circuit : Circuit}

include closed

theorem and {left right : Bit} (leftHeld : family.All circuit left)
    (rightHeld : family.All circuit right) : family.Keeps circuit (Build.and left right) :=
  closed.all (by simp_all)

theorem or {left right : Bit} (leftHeld : family.All circuit left)
    (rightHeld : family.All circuit right) : family.Keeps circuit (Build.or left right) :=
  closed.any (by simp_all)

theorem xor {left right : Bit} (leftHeld : family.All circuit left)
    (rightHeld : family.All circuit right) : family.Keeps circuit (Build.xor left right) :=
  .bind (closed.not rightHeld) fun _ _ grown held =>
    closed.ite (leftHeld.mono grown) held (rightHeld.mono grown)

theorem iff {left right : Bit} (leftHeld : family.All circuit left)
    (rightHeld : family.All circuit right) : family.Keeps circuit (Build.iff left right) :=
  .bind (closed.not rightHeld) fun _ _ grown held =>
    closed.ite (leftHeld.mono grown) (rightHeld.mono grown) held

theorem implies {left right : Bit} (leftHeld : family.All circuit left)
    (rightHeld : family.All circuit right) : family.Keeps circuit (Build.implies left right) :=
  .bind (closed.not leftHeld) fun _ _ grown held => closed.or held (rightHeld.mono grown)

theorem sum {left right carry : Bit} (leftHeld : family.All circuit left)
    (rightHeld : family.All circuit right) (carryHeld : family.All circuit carry) :
    family.Keeps circuit (Build.sum left right carry) :=
  .bind (closed.xor leftHeld rightHeld) fun _ _ grown held =>
    closed.xor held (carryHeld.mono grown)

theorem carry {left right carry : Bit} (leftHeld : family.All circuit left)
    (rightHeld : family.All circuit right) (carryHeld : family.All circuit carry) :
    family.Keeps circuit (Build.carry left right carry) := by
  refine .bind (closed.and leftHeld rightHeld) fun both first grown bothHeld => ?_
  refine .bind (closed.xor (leftHeld.mono grown) (rightHeld.mono grown))
    fun either second grown' eitherHeld => ?_
  refine .bind (closed.and ((carryHeld.mono grown).mono grown') eitherHeld)
    fun passed third grown'' passedHeld => ?_
  exact closed.or ((bothHeld.mono grown').mono grown'') passedHeld

end Closed

/-! The two families -/

def known : BitFamily where
  Ready := Circuit.Valid
  Grows := Circuit.Extends
  Holds := Circuit.Knows
  refl := .refl
  trans := .trans
  mono := .mono
  const _ := .const

theorem keeps_of_computes {circuit : Circuit} {action : Build Bit}
    {value : (Nat → Bool) → Bool} (computes : Build.Computes circuit action value) :
    known.Keeps circuit action := by
  intro valid
  rcases computes valid with ⟨afterValid, grown, isKnown, -⟩
  exact ⟨afterValid, grown, all_bit.mpr isKnown⟩

theorem all_known {circuit : Circuit} {bits : List Bit} (held : known.All circuit bits) :
    ∀ bit ∈ bits, circuit.Knows bit :=
  fun _ member => all_bit.mp (held.of_mem member)

theorem closed_known : known.Closed where
  all held := keeps_of_computes (Build.all_computes (all_known held))
  any held := keeps_of_computes (Build.any_computes (all_known held))
  not held := keeps_of_computes (Build.not_computes (all_bit.mp held))
  ite conditionHeld thenHeld elseHeld := keeps_of_computes (Build.ite_computes
    (all_bit.mp conditionHeld) (all_bit.mp thenHeld) (all_bit.mp elseHeld))

/-- The constants. A computation that stays among them leaves the circuit as it is. -/
def folded : BitFamily where
  Ready _ := True
  Grows before after := before = after
  Holds _ bit := ∃ value, bit = .const value
  refl _ := rfl
  trans left right := left.trans right
  mono held _ := held
  const _ value := ⟨value, rfl⟩

private theorem ordered_constants {circuit : Circuit} {inputs : List Bit}
    (held : folded.All circuit inputs) (dropped : Bool)
    (free : ¬inputs.any (·.same (.const !dropped)) = true) :
    Bit.ordered (inputs.filter fun input => !input.same (.const dropped)) = [] := by
  have none : (inputs.filter fun input => !input.same (.const dropped)) = [] := by
    rw [List.filter_eq_nil_iff]
    intro bit member kept
    rcases all_bit.mp (held.of_mem member) with ⟨value, rfl⟩
    refine free (List.any_eq_true.mpr ⟨_, member, ?_⟩)
    cases value <;> cases dropped <;> simp_all [Bit.same, Bit.label]
  rw [none]
  rfl

theorem closed_folded : folded.Closed where
  all {circuit inputs} held := by
    rw [Build.all]
    split
    · exact .pure (all_const false)
    · rename_i free
      have none : Bit.ordered (inputs.filter fun input => !input.isTrue) = [] :=
        ordered_constants held true free
      dsimp only
      rw [none]
      exact .pure (all_const true)
  any {circuit inputs} held := by
    rw [Build.any]
    split
    · exact .pure (all_const true)
    · rename_i free
      have none : Bit.ordered (inputs.filter fun input => !input.isFalse) = [] :=
        ordered_constants held false free
      dsimp only
      rw [none]
      exact .pure (all_const false)
  not held := by
    rcases all_bit.mp held with ⟨value, rfl⟩
    exact .pure (all_const !value)
  ite conditionHeld thenHeld elseHeld := by
    rcases all_bit.mp conditionHeld with ⟨value, rfl⟩
    cases value with
    | true => exact .pure thenHeld
    | false => exact .pure elseHeld

end BitFamily

end ModelFinder
