import Mathlib
import ModelFinder.Circuit.Gates
/-!
What a circuit keeps while it grows.

A circuit *knows* the constants, its variables and the gates that it holds. In a valid
circuit a label names at most one known bit, so operations may compare labels where they
mean bits. Operations only ever add gates: what a circuit knows, every later circuit knows.

`Build.Yields` is the judgement that everything below is stated with. It says that a
computation, run on a valid circuit, leads to a valid later circuit and to a result with a
given property.
-/

namespace ModelFinder

def GateKind.key (kind : GateKind) (operands : List Bit) : List Int :=
  kind.code :: operands.map Bit.label

theorem GateKind.code_injective {left right : GateKind} (equal : left.code = right.code) :
    left = right := by
  cases left <;> cases right <;> first | rfl | cases equal

@[simp] theorem Bit.label_var (label : Nat) : (Bit.var label).label = label := rfl

theorem Bit.label_const_nonpos (value : Bool) : (Bit.const value).label ≤ 0 := by
  cases value <;> decide

theorem Bit.eq_const_of_const? {bit : Bit} {value : Bool} (folded : bit.const? = some value) :
    bit = .const value := by
  cases bit with
  | const other => exact congrArg Bit.const (Option.some.inj folded)
  | var _ => cases folded
  | and _ _ => cases folded
  | or _ _ => cases folded
  | not _ _ => cases folded
  | ite _ _ _ _ => cases folded

theorem Bit.eq_of_kind {left right : Bit} {kind : GateKind} (isKind : left.kind? = some kind)
    (sameKind : right.kind? = some kind) (operands : left.operands = right.operands)
    (label : left.label = right.label) : left = right := by
  cases left <;> cases right <;> simp_all [Bit.kind?, Bit.operands, Bit.label] <;>
    cases isKind.trans sameKind.symm

/-- A gate that no simpler bit can replace: conjunctions and disjunctions are over at least
two operands in ascending order, none the negation of another, negations are not doubled and
the parts of a choice differ. -/
def Bit.Reduced : Bit → Prop
  | .const _ | .var _ => True
  | .and _ operands | .or _ operands =>
    2 ≤ operands.length ∧ operands.Pairwise (fun left right => left.label < right.label) ∧
      Bit.clash operands = false
  | .not _ operand => operand.kind? ≠ some .not
  | .ite _ condition thenBit elseBit =>
    condition.label ≠ thenBit.label ∧ condition.label ≠ elseBit.label ∧
      thenBit.label ≠ elseBit.label

namespace Circuit

/-- The bits that may be used with a circuit. -/
inductive Knows (circuit : Circuit) : Bit → Prop
  | const (value : Bool) : Knows circuit (.const value)
  | var {label : Nat} : 0 < label → (label : Int) ≤ Bit.lastVariable circuit.primary →
      Knows circuit (.var label)
  | gate {kind : GateKind} {bit : Bit} : bit.kind? = some kind →
      circuit.gates[kind.key bit.operands]? = some bit → Knows circuit bit

/-- Every gate of one circuit is a gate of the other one, over the same variables. -/
structure Extends (before after : Circuit) : Prop where
  primary : after.primary = before.primary
  width : after.width = before.width
  gates : ∀ {key : List Int} {bit : Bit},
    before.gates[key]? = some bit → after.gates[key]? = some bit

/-- What holds of a gate where a circuit keeps it: it is filed under what it is, its label is
one of those handed out after the variables, and its operands are older. -/
structure Placed (circuit : Circuit) (key : List Int) (bit : Bit) : Prop where
  filed : ∃ kind, bit.kind? = some kind ∧ key = kind.key bit.operands
  label_pos : 0 < bit.label
  lastVariable_lt : Bit.lastVariable circuit.primary < bit.label
  label_lt : bit.label < circuit.nextLabel
  operands : ∀ operand ∈ bit.operands,
    circuit.Knows operand ∧ 0 < operand.label ∧ operand.label < bit.label
  reduced : bit.Reduced

/-- Every gate is well placed, and no two gates share a label. -/
structure Valid (circuit : Circuit) : Prop where
  placed : ∀ {key : List Int} {bit : Bit}, circuit.gates[key]? = some bit → circuit.Placed key bit
  distinct : ∀ {key key' : List Int} {bit bit' : Bit}, circuit.gates[key]? = some bit →
    circuit.gates[key']? = some bit' → bit.label = bit'.label → key = key'

theorem valid_empty (primary width : Nat) : (empty primary width).Valid where
  placed stored := by simp [empty] at stored
  distinct stored := by simp [empty] at stored

namespace Extends

theorem refl (circuit : Circuit) : circuit.Extends circuit := ⟨rfl, rfl, id⟩

theorem trans {first second third : Circuit} (left : first.Extends second)
    (right : second.Extends third) : first.Extends third :=
  ⟨right.primary.trans left.primary, right.width.trans left.width,
    fun stored => right.gates (left.gates stored)⟩

end Extends

theorem Knows.mono {before after : Circuit} {bit : Bit} (known : before.Knows bit)
    (grown : before.Extends after) : after.Knows bit := by
  cases known with
  | const value => exact .const value
  | var positive bounded => exact .var positive (by rw [grown.primary]; exact bounded)
  | gate kind stored => exact .gate kind (grown.gates stored)

theorem Knows.label_bounds {circuit : Circuit} {bit : Bit} (known : circuit.Knows bit)
    (valid : circuit.Valid) :
    (∃ value, bit = .const value) ∨ (0 < bit.label ∧ bit.label < circuit.nextLabel) := by
  cases known with
  | const value => exact .inl ⟨value, rfl⟩
  | var positive bounded =>
      refine .inr ⟨by simpa using positive, ?_⟩
      simp only [Bit.label_var, nextLabel]
      omega
  | gate kind stored =>
      have placed := valid.placed stored
      exact .inr ⟨placed.label_pos, placed.label_lt⟩

theorem Knows.label_pos {circuit : Circuit} {bit : Bit} {kind : GateKind}
    (known : circuit.Knows bit) (valid : circuit.Valid) (isKind : bit.kind? = some kind) :
    0 < bit.label := by
  rcases known.label_bounds valid with ⟨value, rfl⟩ | ⟨positive, -⟩
  · cases isKind
  · exact positive

/-- In a valid circuit a label names at most one known bit. -/
theorem Knows.eq_of_label {circuit : Circuit} (valid : circuit.Valid) {left right : Bit}
    (leftKnown : circuit.Knows left) (rightKnown : circuit.Knows right)
    (equal : left.label = right.label) : left = right := by
  cases leftKnown with
  | const value =>
      rcases rightKnown.label_bounds valid with ⟨other, rfl⟩ | ⟨positive, -⟩
      · cases value <;> cases other <;> first | rfl | simp [Bit.label] at equal
      · have nonpositive := Bit.label_const_nonpos value
        omega
  | var positive bounded =>
      cases rightKnown with
      | const value =>
          have nonpositive := Bit.label_const_nonpos value
          rw [Bit.label_var] at equal
          omega
      | var _ _ => rw [Int.ofNat.inj equal]
      | gate kind stored =>
          have above := (valid.placed stored).lastVariable_lt
          rw [Bit.label_var] at equal
          omega
  | gate kind stored =>
      cases rightKnown with
      | const value =>
          have positive := (valid.placed stored).label_pos
          have nonpositive := Bit.label_const_nonpos value
          omega
      | var _ bounded =>
          have above := (valid.placed stored).lastVariable_lt
          rw [Bit.label_var] at equal
          omega
      | gate kind' stored' =>
          have sameKey := valid.distinct stored stored' equal
          rw [sameKey] at stored
          exact Option.some.inj (stored.symm.trans stored')

theorem eq_of_labels {circuit : Circuit} (valid : circuit.Valid) :
    ∀ {left right : List Bit}, (∀ bit ∈ left, circuit.Knows bit) →
      (∀ bit ∈ right, circuit.Knows bit) → left.map Bit.label = right.map Bit.label →
        left = right
  | [], [], _, _, _ => rfl
  | [], _ :: _, _, _, equal => by simp at equal
  | _ :: _, [], _, _, equal => by simp at equal
  | first :: rest, first' :: rest', leftKnown, rightKnown, equal => by
      simp only [List.map_cons, List.cons.injEq] at equal
      simp only [List.forall_mem_cons] at leftKnown rightKnown
      rw [leftKnown.1.eq_of_label valid rightKnown.1 equal.1,
        eq_of_labels valid leftKnown.2 rightKnown.2 equal.2]

theorem Knows.same_iff {circuit : Circuit} (valid : circuit.Valid) {left right : Bit}
    (leftKnown : circuit.Knows left) (rightKnown : circuit.Knows right) :
    left.same right = true ↔ left = right := by
  constructor
  · intro same
    exact leftKnown.eq_of_label valid rightKnown (by simpa [Bit.same] using same)
  · rintro rfl
    simp [Bit.same]

theorem Knows.isTrue_iff {circuit : Circuit} (valid : circuit.Valid) {bit : Bit}
    (known : circuit.Knows bit) : bit.isTrue = true ↔ bit = .const true :=
  known.same_iff valid (.const true)

theorem Knows.isFalse_iff {circuit : Circuit} (valid : circuit.Valid) {bit : Bit}
    (known : circuit.Knows bit) : bit.isFalse = true ↔ bit = .const false :=
  known.same_iff valid (.const false)

/-- A known gate is filed, so its operands are known. -/
theorem Knows.operands {circuit : Circuit} (valid : circuit.Valid) {bit : Bit}
    (known : circuit.Knows bit) : ∀ operand ∈ bit.operands,
      circuit.Knows operand ∧ 0 < operand.label ∧ operand.label < bit.label := by
  cases known with
  | const value => simp [Bit.operands]
  | var positive bounded => simp [Bit.operands]
  | gate kind stored => exact (valid.placed stored).operands

/-- What holds of constants and variables, and of every gate whose operands it holds of,
holds of all known bits. -/
@[elab_as_elim]
theorem Knows.induction {circuit : Circuit} {motive : Bit → Prop} (valid : circuit.Valid)
    (const : ∀ value, motive (.const value))
    (var : ∀ label : Nat, 0 < label → (label : Int) ≤ Bit.lastVariable circuit.primary →
      motive (.var label))
    (gate : ∀ {kind : GateKind} {bit : Bit}, bit.kind? = some kind →
      circuit.gates[kind.key bit.operands]? = some bit →
      (∀ operand ∈ bit.operands, motive operand) → motive bit)
    {bit : Bit} (known : circuit.Knows bit) : motive bit := by
  -- Operands have smaller labels than the gates above them.
  induction size : bit.label.toNat using Nat.strong_induction_on generalizing bit with
  | _ size hypothesis =>
      cases known with
      | const value => exact const value
      | var positive bounded => exact var _ positive bounded
      | gate isKind stored =>
          refine gate isKind stored fun operand member => ?_
          obtain ⟨operandKnown, positive, below⟩ :=
            (valid.placed stored).operands operand member
          exact hypothesis _ (by omega) operandKnown rfl

theorem eval_congr_operands {left right : Nat → Bool} {bit : Bit} {kind : GateKind}
    (isKind : bit.kind? = some kind)
    (same : ∀ operand ∈ bit.operands, operand.eval left = operand.eval right) :
    bit.eval left = bit.eval right := by
  cases bit with
  | const value => cases isKind
  | var label => cases isKind
  | and label operands =>
      rw [Bit.eval, Bit.eval, Bit.evalAll_eq_all, Bit.evalAll_eq_all, Bool.eq_iff_iff,
        List.all_eq_true, List.all_eq_true]
      exact forall₂_congr fun operand member => by rw [same operand member]
  | or label operands =>
      rw [Bit.eval, Bit.eval, Bit.evalAny_eq_any, Bit.evalAny_eq_any, Bool.eq_iff_iff,
        List.any_eq_true, List.any_eq_true]
      exact exists_congr fun operand => and_congr_right fun member => by
        rw [same operand member]
  | not label operand => simp only [Bit.eval, same operand (by simp [Bit.operands])]
  | ite label condition thenBit elseBit =>
      simp only [Bit.operands, List.forall_mem_cons] at same
      simp only [Bit.eval, same.1, same.2.1, same.2.2.1]

theorem Knows.eval_congr {circuit : Circuit} (valid : circuit.Valid) {left right : Nat → Bool}
    (agree : ∀ label : Nat, 0 < label → (label : Int) ≤ Bit.lastVariable circuit.primary →
      left label = right label) {bit : Bit} (known : circuit.Knows bit) :
    bit.eval left = bit.eval right := by
  refine Knows.induction valid ?_ ?_ ?_ known
  · intro value
    simp [Bit.eval]
  · intro label positive bounded
    simpa [Bit.eval] using agree label positive bounded
  · intro kind gate isKind _ hypothesis
    exact eval_congr_operands isKind hypothesis

theorem Knows.lastVariable_pos {circuit : Circuit} (valid : circuit.Valid) {bit : Bit}
    (known : circuit.Knows bit) (positive : 0 < bit.label) :
    0 < Bit.lastVariable circuit.primary := by
  revert positive
  refine Knows.induction valid ?_ ?_ ?_ known
  · intro value positive
    have nonpositive := Bit.label_const_nonpos value
    omega
  · intro label positive bounded _
    omega
  · intro kind gate isKind stored hypothesis _
    have placed := valid.placed stored
    obtain ⟨operand, member⟩ : ∃ operand, operand ∈ gate.operands := by
      refine List.exists_mem_of_ne_nil _ fun none => ?_
      have reduced := placed.reduced
      cases gate <;> simp_all [Bit.operands, Bit.Reduced, Bit.kind?]
    exact hypothesis operand member (placed.operands operand member).2.1

end Circuit

/-! Judgements -/

/-- A computation leads from a valid circuit to a valid later one, with a result and a
circuit of which `post` holds. -/
def Build.Yields {α : Type} (circuit : Circuit) (action : Build α)
    (post : α → Circuit → Prop) : Prop :=
  circuit.Valid → (action circuit).2.Valid ∧ circuit.Extends (action circuit).2 ∧
    post (action circuit).1 (action circuit).2

namespace Build.Yields

variable {α β : Type} {circuit : Circuit}

theorem pure {value : α} {post : α → Circuit → Prop} (holds : post value circuit) :
    Build.Yields circuit (Pure.pure value) post :=
  fun valid => ⟨valid, .refl circuit, holds⟩

theorem of_pure {value : α} {post : α → Circuit → Prop}
    (yields : Build.Yields circuit (Pure.pure value) post) (valid : circuit.Valid) :
    post value circuit :=
  (yields valid).2.2

theorem bind {action : Build α} {next : α → Build β} {middle : α → Circuit → Prop}
    {post : β → Circuit → Prop} (first : Build.Yields circuit action middle)
    (second : ∀ value after, circuit.Extends after → middle value after →
      Build.Yields after (next value) post) :
    Build.Yields circuit (action >>= next) post := by
  intro valid
  obtain ⟨middleValid, grown, holds⟩ := first valid
  obtain ⟨afterValid, grownAgain, holdsAfter⟩ := second _ _ grown holds middleValid
  exact ⟨afterValid, grown.trans grownAgain, holdsAfter⟩

theorem weaken {action : Build α} {strong weak : α → Circuit → Prop}
    (yields : Build.Yields circuit action strong)
    (implies : ∀ value after, circuit.Extends after → strong value after → weak value after) :
    Build.Yields circuit action weak := by
  intro valid
  obtain ⟨afterValid, grown, holds⟩ := yields valid
  exact ⟨afterValid, grown, implies _ _ grown holds⟩

theorem of_valid {action : Build α} {post : α → Circuit → Prop}
    (yields : circuit.Valid → Build.Yields circuit action post) :
    Build.Yields circuit action post :=
  fun valid => yields valid valid

end Build.Yields

/-- Computations for the elements of a list, one after the other. What is made of an element
must stay true while the circuit grows. -/
theorem Build.mapM_yields {β γ : Type} {circuit : Circuit} {elements : List β}
    {action : β → Build γ} {post : β → γ → Circuit → Prop}
    (stable : ∀ {element result before after}, post element result before →
      before.Extends after → post element result after)
    (each : ∀ element ∈ elements, ∀ after, circuit.Extends after →
      Build.Yields after (action element) (post element)) :
    Build.Yields circuit (elements.mapM action) fun results after =>
      List.Forall₂ (fun element result => post element result after) elements results := by
  induction elements generalizing circuit with
  | nil => exact Build.Yields.pure .nil
  | cons element rest hypothesis =>
      rw [List.mapM_cons]
      refine Build.Yields.bind (each element List.mem_cons_self circuit (.refl circuit))
        fun result middle grown made => ?_
      have others := hypothesis fun other member after grownAgain =>
        each other (List.mem_cons_of_mem _ member) after (grown.trans grownAgain)
      exact Build.Yields.bind others fun results after grownAgain madeAll =>
        Build.Yields.pure (.cons (stable made grownAgain) madeAll)

/-- A computation that may fail leads from a valid circuit to a valid later one; if it does
not fail, `post` holds of its result and the circuit. -/
def TryBuild.Yields {α : Type} (circuit : Circuit) (action : TryBuild α)
    (post : α → Circuit → Prop) : Prop :=
  Build.Yields circuit action.run fun outcome after =>
    ∀ value, outcome = .ok value → post value after

namespace TryBuild.Yields

variable {α β : Type} {circuit : Circuit}

theorem pure {value : α} {post : α → Circuit → Prop} (holds : post value circuit) :
    TryBuild.Yields circuit (Pure.pure value) post :=
  Build.Yields.pure fun _ same => Except.ok.inj same ▸ holds

theorem throw {error : Error} {post : α → Circuit → Prop} :
    TryBuild.Yields circuit (MonadExcept.throw error) post :=
  Build.Yields.pure fun _ impossible => by cases impossible

theorem lift {action : Build α} {post : α → Circuit → Prop}
    (yields : Build.Yields circuit action post) :
    TryBuild.Yields circuit (liftM action) post :=
  Build.Yields.bind yields fun _ _ _ holds =>
    Build.Yields.pure fun _ same => Except.ok.inj same ▸ holds

theorem except {outcome : Except Error α} {post : α → Circuit → Prop}
    (holds : ∀ value, outcome = .ok value → post value circuit) :
    TryBuild.Yields circuit (liftM outcome) post :=
  Build.Yields.pure holds

theorem get {post : Circuit → Circuit → Prop} (holds : post circuit circuit) :
    TryBuild.Yields circuit MonadState.get post :=
  fun valid => ⟨valid, .refl circuit, fun _ same => Except.ok.inj same ▸ holds⟩

theorem bind {action : TryBuild α} {next : α → TryBuild β} {middle : α → Circuit → Prop}
    {post : β → Circuit → Prop} (first : TryBuild.Yields circuit action middle)
    (second : ∀ value after, circuit.Extends after → middle value after →
      TryBuild.Yields after (next value) post) :
    TryBuild.Yields circuit (action >>= next) post := by
  change Build.Yields circuit (action.run >>= ExceptT.bindCont next) _
  refine Build.Yields.bind first fun outcome after grown holds => ?_
  cases outcome with
  | error error => exact throw
  | ok value => exact second value after grown (holds value rfl)

theorem weaken {action : TryBuild α} {strong weak : α → Circuit → Prop}
    (yields : TryBuild.Yields circuit action strong)
    (implies : ∀ value after, circuit.Extends after → strong value after → weak value after) :
    TryBuild.Yields circuit action weak :=
  Build.Yields.weaken yields fun _ after grown holds value same =>
    implies value after grown (holds value same)

theorem of_valid {action : TryBuild α} {post : α → Circuit → Prop}
    (yields : circuit.Valid → TryBuild.Yields circuit action post) :
    TryBuild.Yields circuit action post :=
  Build.Yields.of_valid yields

end TryBuild.Yields

theorem TryBuild.mapM_lift {β γ : Type} (action : β → Build γ) (elements : List β) :
    (elements.mapM fun element => (liftM (action element) : TryBuild γ)) =
      liftM (elements.mapM action) := by
  induction elements with
  | nil => rfl
  | cons element rest hypothesis =>
      rw [List.mapM_cons, List.mapM_cons, hypothesis]
      simp only [liftM_bind, liftM_pure]

theorem TryBuild.mapM_yields {β γ : Type} {circuit : Circuit} {elements : List β}
    {action : β → TryBuild γ} {post : β → γ → Circuit → Prop}
    (stable : ∀ {element result before after}, post element result before →
      before.Extends after → post element result after)
    (each : ∀ element ∈ elements, ∀ after, circuit.Extends after →
      TryBuild.Yields after (action element) (post element)) :
    TryBuild.Yields circuit (elements.mapM action) fun results after =>
      List.Forall₂ (fun element result => post element result after) elements results := by
  induction elements generalizing circuit with
  | nil => exact TryBuild.Yields.pure .nil
  | cons element rest hypothesis =>
      rw [List.mapM_cons]
      refine TryBuild.Yields.bind (each element List.mem_cons_self circuit (.refl circuit))
        fun result middle grown made => ?_
      have others := hypothesis fun other member after grownAgain =>
        each other (List.mem_cons_of_mem _ member) after (grown.trans grownAgain)
      exact TryBuild.Yields.bind others fun results after grownAgain madeAll =>
        TryBuild.Yields.pure (.cons (stable made grownAgain) madeAll)

def Build.Computes (circuit : Circuit) (action : Build Bit)
    (value : (Nat → Bool) → Bool) : Prop :=
  Build.Yields circuit action fun bit after =>
    after.Knows bit ∧ ∀ assignment, bit.eval assignment = value assignment

namespace Circuit

def addGate (circuit : Circuit) (key : List Int) (bit : Bit) : Circuit :=
  { circuit with gates := circuit.gates.insert key bit }

theorem extends_addGate {circuit : Circuit} {key : List Int}
    (new : circuit.gates[key]? = none) (bit : Bit) :
    circuit.Extends (circuit.addGate key bit) := by
  refine ⟨rfl, rfl, ?_⟩
  intro other stored present
  rw [addGate, Std.ExtTreeMap.getElem?_insert, if_neg]
  · exact present
  · intro equal
    rw [Std.LawfulEqCmp.compare_eq_iff_eq] at equal
    rw [← equal, new] at present
    cases present

theorem nextLabel_addGate {circuit : Circuit} {key : List Int}
    (new : circuit.gates[key]? = none) (bit : Bit) :
    (circuit.addGate key bit).nextLabel = circuit.nextLabel + 1 := by
  have absent : circuit.gates.contains key = false := by
    simp [Std.ExtTreeMap.contains_eq_isSome_getElem?, new]
  simp only [nextLabel, gateCount, addGate, Std.ExtTreeMap.size_insert, absent,
    Bool.false_eq_true, ↓reduceIte]
  omega

theorem valid_addGate {circuit : Circuit} (valid : circuit.Valid) {kind : GateKind} {bit : Bit}
    (isKind : bit.kind? = some kind)
    (new : circuit.gates[kind.key bit.operands]? = none)
    (label : bit.label = circuit.nextLabel)
    (operands : ∀ operand ∈ bit.operands, circuit.Knows operand ∧ 0 < operand.label)
    (nonempty : bit.operands ≠ []) (reduced : bit.Reduced) :
    (circuit.addGate (kind.key bit.operands) bit).Valid := by
  have grown := extends_addGate new bit
  have bounds : ∀ operand ∈ bit.operands, operand.label < circuit.nextLabel := by
    intro operand member
    rcases (operands operand member).1.label_bounds valid with ⟨value, rfl⟩ | ⟨-, below⟩
    · have positive := (operands _ member).2
      have nonpositive := Bit.label_const_nonpos value
      omega
    · exact below
  obtain ⟨operand, member⟩ := List.exists_mem_of_ne_nil _ nonempty
  have lookup : ∀ {key : List Int} {stored : Bit},
      (circuit.addGate (kind.key bit.operands) bit).gates[key]? = some stored →
        (key = kind.key bit.operands ∧ stored = bit) ∨
        circuit.gates[key]? = some stored := by
    intro key stored present
    rw [addGate, Std.ExtTreeMap.getElem?_insert] at present
    split at present
    · rename_i equal
      rw [Std.LawfulEqCmp.compare_eq_iff_eq] at equal
      exact .inl ⟨equal.symm, (Option.some.inj present).symm⟩
    · exact .inr present
  refine ⟨?_, ?_⟩
  · intro key stored present
    rcases lookup present with ⟨rfl, rfl⟩ | old
    · refine ⟨⟨kind, isKind, rfl⟩, ?_, ?_, ?_, ?_, reduced⟩
      · have := (operands operand member).2
        have := bounds operand member
        omega
      · rw [label]
        simp only [nextLabel, addGate]
        omega
      · rw [nextLabel_addGate new]
        omega
      · intro other otherMember
        obtain ⟨known, positive⟩ := operands other otherMember
        exact ⟨known.mono grown, positive, label ▸ bounds other otherMember⟩
    · have placed := valid.placed old
      refine ⟨placed.filed, placed.label_pos, placed.lastVariable_lt, ?_, ?_, placed.reduced⟩
      · rw [nextLabel_addGate new]
        have := placed.label_lt
        omega
      · intro other otherMember
        obtain ⟨known, positive, below⟩ := placed.operands other otherMember
        exact ⟨known.mono grown, positive, below⟩
  · intro key key' stored stored' present present' equal
    rcases lookup present with ⟨rfl, rfl⟩ | old <;>
      rcases lookup present' with ⟨rfl, rfl⟩ | old'
    · rfl
    · have := (valid.placed old').label_lt
      omega
    · have := (valid.placed old).label_lt
      omega
    · exact valid.distinct old old' equal

end Circuit

theorem Build.intern_run (circuit : Circuit) (kind : GateKind) (operands : List Bit)
    (make : Int → Bit) :
    Build.intern kind operands make circuit =
      match circuit.gates[kind.key operands]? with
      | some bit => (bit, circuit)
      | none => (make circuit.nextLabel,
          circuit.addGate (kind.key operands) (make circuit.nextLabel)) :=
  rfl

/-- Interning gives a gate over the given operands. A gate found in the circuit has operands
with the same labels, and these are the same operands. -/
theorem Build.intern_computes {circuit : Circuit} {kind : GateKind} {operands : List Bit}
    (make : Int → Bit) {value : (Nat → Bool) → Bool}
    (isKind : ∀ label, (make label).kind? = some kind)
    (hasOperands : ∀ label, (make label).operands = operands)
    (hasLabel : ∀ label, (make label).label = label)
    (known : ∀ operand ∈ operands, circuit.Knows operand ∧ 0 < operand.label)
    (nonempty : operands ≠ []) (reduced : ∀ label, (make label).Reduced)
    (evaluates : ∀ label assignment, (make label).eval assignment = value assignment) :
    Build.Computes circuit (Build.intern kind operands make) value := by
  intro valid
  rw [intern_run]
  cases found : circuit.gates[kind.key operands]? with
  | some bit =>
      have placed := valid.placed found
      obtain ⟨storedKind, isStoredKind, sameKey⟩ := placed.filed
      simp only [GateKind.key, List.cons.injEq] at sameKey
      obtain rfl := GateKind.code_injective sameKey.1
      have sameOperands : bit.operands = operands :=
        Circuit.eq_of_labels valid (fun operand member => (placed.operands operand member).1)
          (fun operand member => (known operand member).1) sameKey.2.symm
      have made : bit = make bit.label :=
        Bit.eq_of_kind isStoredKind (isKind _) (sameOperands.trans (hasOperands _).symm)
          (hasLabel _).symm
      refine ⟨valid, .refl circuit, .gate isStoredKind ?_, fun assignment => ?_⟩
      · rw [sameOperands]
        exact found
      · dsimp only
        rw [made]
        exact evaluates _ assignment
  | none =>
      have stored := hasOperands circuit.nextLabel
      refine ⟨?_, Circuit.extends_addGate found _, .gate (isKind _) ?_, evaluates _⟩
      · have new : circuit.gates[kind.key (make circuit.nextLabel).operands]? = none := by
          rw [stored]
          exact found
        have added := Circuit.valid_addGate valid (isKind _) new (hasLabel _)
          (by rw [stored]; exact known) (by rw [stored]; exact nonempty) (reduced _)
        rw [stored] at added
        exact added
      · rw [stored]
        simp [Circuit.addGate]

end ModelFinder
