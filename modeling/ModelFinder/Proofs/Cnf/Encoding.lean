import Mathlib
import ModelFinder.Proofs.Circuit.Soundness
import ModelFinder.Proofs.Cnf.Clauses
/-!
The clauses of a circuit say exactly what its roots say.

`Encoding.Exact` is the invariant of an encoding in progress. Every gate met so far has a
variable of its own, these are all variables after the primary ones, and an assignment
satisfies the clauses so far if and only if it gives each of these gates its value and meets
what has been asserted. A satisfying assignment of the primary variables thus has one
extension that satisfies the clauses, and no other assignment has any.
-/

namespace ModelFinder

namespace Encoding

/-- The variable that stands for a bit. Variables stand for themselves. -/
inductive Names (encoding : Encoding) : Bit → Int → Prop
  | var (label : Nat) : Names encoding (.var label) label
  | gate {kind : GateKind} {bit : Bit} {literal : Int} : bit.kind? = some kind →
      encoding.gateVariables[bit.label]? = some literal → Names encoding bit literal

/-- An assignment gives every bit that has a variable its value. -/
def Respected (circuit : Circuit) (encoding : Encoding) (assignment : Nat → Bool) : Prop :=
  ∀ (bit : Bit) (literal : Int), circuit.Knows bit → encoding.Names bit literal →
    assignment literal.natAbs = bit.eval assignment

/-- The variables after the primary ones are those of the gates met so far, and the clauses
hold where these gates have their values and what has been asserted is true. -/
structure Exact (circuit : Circuit) (required : (Nat → Bool) → Prop) (encoding : Encoding) :
    Prop where
  started : Bit.lastVariable circuit.primary < encoding.next
  numbered : ∀ {label literal : Int}, encoding.gateVariables[label]? = some literal →
    Bit.lastVariable circuit.primary < literal ∧ literal < encoding.next ∧
      ∃ bit kind, circuit.Knows bit ∧ bit.kind? = some kind ∧ bit.label = label
  distinct : ∀ {label label' literal : Int}, encoding.gateVariables[label]? = some literal →
    encoding.gateVariables[label']? = some literal → label = label'
  covered : ∀ {literal : Int}, Bit.lastVariable circuit.primary < literal →
    literal < encoding.next → ∃ label : Int, encoding.gateVariables[label]? = some literal
  bounded : ∀ bound : Nat, circuit.primary ≤ bound → encoding.next ≤ (bound + 1 : Int) →
    encoding.cnf.variableCount ≤ bound
  holds_iff : ∀ assignment, encoding.cnf.holds assignment = true ↔
    encoding.Respected circuit assignment ∧ required assignment

/-- Variables are only ever given to further gates, up to a limit on their labels. -/
structure Grows (limit : Int) (before after : Encoding) : Prop where
  kept : ∀ {label literal : Int}, before.gateVariables[label]? = some literal →
    after.gateVariables[label]? = some literal
  below : ∀ {label literal : Int}, after.gateVariables[label]? = some literal →
    before.gateVariables[label]? = some literal ∨ label ≤ limit

variable {circuit : Circuit} {required : (Nat → Bool) → Prop} {encoding : Encoding}

theorem Grows.refl (limit : Int) (encoding : Encoding) : encoding.Grows limit encoding :=
  ⟨id, .inl⟩

theorem Grows.trans {limit : Int} {first second third : Encoding}
    (left : first.Grows limit second) (right : second.Grows limit third) :
    first.Grows limit third := by
  refine ⟨fun stored => right.kept (left.kept stored), fun stored => ?_⟩
  rcases right.below stored with old | small
  · exact left.below old
  · exact .inr small

theorem Grows.weaken {limit limit' : Int} {before after : Encoding}
    (grown : before.Grows limit after) (le : limit ≤ limit') : before.Grows limit' after :=
  ⟨grown.kept, fun stored => (grown.below stored).imp_right (le_trans · le)⟩

theorem Names.mono {limit : Int} {before after : Encoding} {bit : Bit} {literal : Int}
    (names : before.Names bit literal) (grown : before.Grows limit after) :
    after.Names bit literal := by
  cases names with
  | var label => exact .var label
  | gate isKind stored => exact .gate isKind (grown.kept stored)

theorem Exact.literal_bounds (exact : encoding.Exact circuit required) (valid : circuit.Valid)
    {bit : Bit} {literal : Int} (known : circuit.Knows bit)
    (names : encoding.Names bit literal) : 0 < literal ∧ literal < encoding.next := by
  cases names with
  | var label =>
      cases known with
      | var positive bounded => exact ⟨by omega, lt_of_le_of_lt bounded exact.started⟩
      | gate isKind stored => cases isKind
  | gate isKind stored =>
      rcases exact.numbered stored with ⟨above, below, -⟩
      have positive := known.label_pos valid isKind
      exact ⟨(known.lastVariable_pos valid positive).trans above, below⟩

theorem Exact.next_pos (exact : encoding.Exact circuit required) (valid : circuit.Valid)
    {bit : Bit} (known : circuit.Knows bit) (positive : 0 < bit.label) :
    (0 : Int) < encoding.next :=
  (known.lastVariable_pos valid positive).trans exact.started

def addGate (encoding : Encoding) (label : Int) (clauses : List Clause) : Encoding :=
  { encoding with
    cnf := encoding.cnf.addAll clauses
    next := encoding.next + 1
    gateVariables := encoding.gateVariables.insert label encoding.next }

theorem getElem?_addGate (label other : Int) (clauses : List Clause) :
    (encoding.addGate label clauses).gateVariables[other]? =
      if label = other then some encoding.next else encoding.gateVariables[other]? := by
  simp [addGate, Std.ExtTreeMap.getElem?_insert]

theorem grows_addGate {label : Int} (new : encoding.gateVariables[label]? = none)
    (clauses : List Clause) : encoding.Grows label (encoding.addGate label clauses) := by
  refine ⟨fun {other literal} stored => ?_, fun {other literal} stored => ?_⟩
  · rw [getElem?_addGate, if_neg]
    · exact stored
    · rintro rfl
      rw [new] at stored
      cases stored
  · rw [getElem?_addGate] at stored
    split at stored
    · rename_i equal
      exact .inr equal.ge
    · exact .inl stored

theorem respected_addGate (valid : circuit.Valid) {bit : Bit} {kind : GateKind}
    (known : circuit.Knows bit) (isKind : bit.kind? = some kind)
    (new : encoding.gateVariables[bit.label]? = none) (clauses : List Clause)
    (assignment : Nat → Bool) :
    (encoding.addGate bit.label clauses).Respected circuit assignment ↔
      encoding.Respected circuit assignment ∧
        assignment encoding.next.natAbs = bit.eval assignment := by
  have grown := grows_addGate new clauses
  constructor
  · intro respected
    refine ⟨fun other literal otherKnown names =>
      respected other literal otherKnown (names.mono grown), ?_⟩
    refine respected bit encoding.next known (.gate isKind ?_)
    rw [getElem?_addGate, if_pos rfl]
  · rintro ⟨respected, value⟩ other literal otherKnown names
    cases names with
    | var label => exact respected _ _ otherKnown (.var label)
    | gate isOtherKind stored =>
        rw [getElem?_addGate] at stored
        split at stored
        · rename_i equal
          obtain rfl := known.eq_of_label valid otherKnown equal
          obtain rfl := Option.some.inj stored
          exact value
        · exact respected _ _ otherKnown (.gate isOtherKind stored)

theorem Exact.addGate (exact : encoding.Exact circuit required) (valid : circuit.Valid)
    {bit : Bit} {kind : GateKind} (known : circuit.Knows bit) (isKind : bit.kind? = some kind)
    (new : encoding.gateVariables[bit.label]? = none) {clauses : List Clause}
    {value : (Nat → Bool) → Bool} (define : Encode.Define clauses encoding.next value)
    (evaluates : ∀ assignment, encoding.Respected circuit assignment →
      value assignment = bit.eval assignment) :
    (encoding.addGate bit.label clauses).Exact circuit required := by
  have nextPositive := exact.next_pos valid known (known.label_pos valid isKind)
  have next : (encoding.addGate bit.label clauses).next = encoding.next + 1 := rfl
  have started := exact.started
  refine ⟨by lia, ?_, ?_, ?_, ?_, ?_⟩
  · intro label literal stored
    rw [getElem?_addGate] at stored
    split at stored
    · rename_i equal
      obtain rfl := Option.some.inj stored
      exact ⟨exact.started, by lia, bit, kind, known, isKind, equal⟩
    · obtain ⟨above, below, named⟩ := exact.numbered stored
      exact ⟨above, by lia, named⟩
  · intro label label' literal stored stored'
    rw [getElem?_addGate] at stored stored'
    split at stored <;> split at stored'
    · rename_i equal equal'
      exact equal.symm.trans equal'
    · have := Option.some.inj stored
      have := (exact.numbered stored').2.1
      lia
    · have := Option.some.inj stored'
      have := (exact.numbered stored).2.1
      lia
    · exact exact.distinct stored stored'
  · intro literal above below
    by_cases last : literal = encoding.next
    · exact ⟨bit.label, by rw [getElem?_addGate, if_pos rfl, last]⟩
    · obtain ⟨label, stored⟩ := exact.covered above (by lia)
      exact ⟨label, (grows_addGate new clauses).kept stored⟩
  · intro bound primary le
    refine Cnf.variableCount_addAll_le.mpr ⟨exact.bounded bound primary (by lia), ?_⟩
    intro clause member literal literalMember
    have := define.bounded clause member literal literalMember
    lia
  · intro assignment
    rw [respected_addGate valid known isKind new]
    have holds : (encoding.addGate bit.label clauses).cnf.holds assignment =
        (encoding.cnf.holds assignment && clauses.all (Clause.holds assignment)) :=
      Cnf.holds_addAll assignment encoding.cnf clauses
    rw [holds, Bool.and_eq_true, exact.holds_iff, define.holds_iff]
    constructor
    · rintro ⟨⟨respected, met⟩, value⟩
      exact ⟨⟨respected, value.trans (evaluates assignment respected)⟩, met⟩
    · rintro ⟨⟨respected, value⟩, met⟩
      exact ⟨⟨respected, met⟩, value.trans (evaluates assignment respected).symm⟩

end Encoding

namespace Encode

variable {circuit : Circuit} {required : (Nat → Bool) → Prop} {limit : Int}
  {encoding : Encoding}

/-- A computation keeps an encoding exact, gives variables to gates with small labels only
and has a result and an encoding of which `post` holds. -/
def Keeps {α : Type} (circuit : Circuit) (required : (Nat → Bool) → Prop) (limit : Int)
    (encoding : Encoding) (action : Encode α) (post : α → Encoding → Prop) : Prop :=
  encoding.Exact circuit required →
    (action encoding).2.Exact circuit required ∧ encoding.Grows limit (action encoding).2 ∧
      post (action encoding).1 (action encoding).2

theorem Keeps.pure {α : Type} {value : α} {post : α → Encoding → Prop}
    (holds : post value encoding) :
    Keeps circuit required limit encoding (Pure.pure value) post :=
  fun exact => ⟨exact, .refl limit encoding, holds⟩

theorem Keeps.bind {α β : Type} {action : Encode α} {next : α → Encode β}
    {middle : α → Encoding → Prop} {post : β → Encoding → Prop}
    (first : Keeps circuit required limit encoding action middle)
    (second : ∀ value after, encoding.Grows limit after → middle value after →
      Keeps circuit required limit after (next value) post) :
    Keeps circuit required limit encoding (action >>= next) post := by
  intro exact
  obtain ⟨middleExact, grown, holds⟩ := first exact
  obtain ⟨afterExact, grownAgain, holdsAfter⟩ := second _ _ grown holds middleExact
  exact ⟨afterExact, grown.trans grownAgain, holdsAfter⟩

theorem Keeps.weaken {α : Type} {limit' : Int} {action : Encode α}
    {post : α → Encoding → Prop} (keeps : Keeps circuit required limit encoding action post)
    (le : limit ≤ limit') : Keeps circuit required limit' encoding action post := by
  intro exact
  rcases keeps exact with ⟨afterExact, grown, holds⟩
  exact ⟨afterExact, grown.weaken le, holds⟩

def Defines (circuit : Circuit) (required : (Nat → Bool) → Prop) (limit : Int)
    (encoding : Encoding) (action : Encode Literal) (bit : Bit) : Prop :=
  encoding.Exact circuit required → ∃ middle clauses value,
    middle.Exact circuit required ∧ encoding.Grows limit middle ∧
      action encoding = (middle.next,
        { middle with cnf := middle.cnf.addAll clauses, next := middle.next + 1 }) ∧
      Define clauses middle.next value ∧
      ∀ assignment, middle.Respected circuit assignment →
        value assignment = bit.eval assignment

theorem Defines.bind {α : Type} {action : Encode α} {next : α → Encode Literal}
    {middle : α → Encoding → Prop} {bit : Bit}
    (first : Keeps circuit required limit encoding action middle)
    (second : ∀ value after, encoding.Grows limit after → middle value after →
      Defines circuit required limit after (next value) bit) :
    Defines circuit required limit encoding (action >>= next) bit := by
  intro exact
  obtain ⟨middleExact, grown, holds⟩ := first exact
  obtain ⟨last, clauses, value, lastExact, grownAgain, result, define, evaluates⟩ :=
    second _ _ grown holds middleExact
  exact ⟨last, clauses, value, lastExact, grown.trans grownAgain, result, define, evaluates⟩

theorem emitAll_run (clauses : List Clause) (encoding : Encoding) :
    emitAll clauses encoding = ((), { encoding with cnf := encoding.cnf.addAll clauses }) := by
  induction clauses generalizing encoding with
  | nil => rfl
  | cons clause rest hypothesis =>
      exact hypothesis { encoding with cnf := encoding.cnf.add clause }

theorem defined_run (clauses : Literal → List Clause) (encoding : Encoding) :
    defined clauses encoding = (encoding.next, { encoding with
      cnf := encoding.cnf.addAll (clauses encoding.next), next := encoding.next + 1 }) := by
  have run := emitAll_run (clauses encoding.next) { encoding with next := encoding.next + 1 }
  change ((encoding.next, (emitAll (clauses encoding.next)
    { encoding with next := encoding.next + 1 }).2) : Literal × Encoding) = _
  rw [run]

theorem defines_defined {clauses : Literal → List Clause} {bit : Bit}
    (value : (Nat → Bool) → Bool)
    (define : encoding.Exact circuit required → Define (clauses encoding.next) encoding.next value)
    (evaluates : ∀ assignment, encoding.Respected circuit assignment →
      value assignment = bit.eval assignment) :
    Defines circuit required limit encoding (defined clauses) bit := by
  intro exact
  refine ⟨encoding, clauses encoding.next, value, exact, .refl limit encoding, ?_,
    define exact, evaluates⟩
  exact defined_run clauses encoding

theorem named_run (label : Int) (define : Encode Literal) (encoding : Encoding) :
    named label define encoding =
      match encoding.gateVariables[label]? with
      | some output => (output, encoding)
      | none => ((define encoding).1, { (define encoding).2 with
          gateVariables :=
            (define encoding).2.gateVariables.insert label (define encoding).1 }) := by
  simp only [named, bind, StateT.bind, get, getThe, MonadStateOf.get, StateT.get, pure,
    modify, modifyGet, MonadStateOf.modifyGet]
  cases encoding.gateVariables[label]? <;> rfl

/-- A gate that has no variable yet is given the one that its definition ends with. The
definition names operands only, and these have smaller labels than the gate. -/
theorem keeps_named (valid : circuit.Valid) {bit : Bit} {kind : GateKind}
    (known : circuit.Knows bit) (isKind : bit.kind? = some kind) {define : Encode Literal}
    (defines : Defines circuit required (bit.label - 1) encoding define bit) :
    Keeps circuit required bit.label encoding (named bit.label define)
      fun literal after => after.Names bit literal := by
  intro exact
  rw [named_run]
  cases found : encoding.gateVariables[bit.label]? with
  | some output => exact ⟨exact, .refl _ _, .gate isKind found⟩
  | none =>
      obtain ⟨middle, clauses, value, middleExact, grown, result, define, evaluates⟩ :=
        defines exact
      have new : middle.gateVariables[bit.label]? = none := by
        rw [Option.eq_none_iff_forall_not_mem]
        intro literal stored
        rcases grown.below stored with old | small
        · rw [found] at old
          cases old
        · omega
      simp only [result]
      refine ⟨middleExact.addGate valid known isKind new define evaluates,
        (grown.weaken (by omega)).trans (Encoding.grows_addGate new clauses),
        .gate isKind (?_ : (middle.addGate bit.label clauses).gateVariables[bit.label]? = _)⟩
      rw [Encoding.getElem?_addGate, if_pos rfl]

/-! Literals of bits -/

theorem values_of_names {assignment : Nat → Bool}
    (respected : encoding.Respected circuit assignment) {bits : List Bit}
    {literals : List Int} (known : ∀ bit ∈ bits, circuit.Knows bit)
    (names : List.Forall₂ encoding.Names bits literals) :
    literals.map (fun literal => assignment literal.natAbs) = bits.map (Bit.eval assignment) := by
  induction names with
  | nil => rfl
  | cons named _ hypothesis =>
      simp only [List.forall_mem_cons] at known
      rw [List.map_cons, List.map_cons, respected _ _ known.1 named, hypothesis known.2]

theorem bounds_of_names (exact : encoding.Exact circuit required) (valid : circuit.Valid)
    {bits : List Bit} {literals : List Int} (known : ∀ bit ∈ bits, circuit.Knows bit)
    (names : List.Forall₂ encoding.Names bits literals) :
    ∀ literal ∈ literals, 0 < literal ∧ literal < encoding.next := by
  induction names with
  | nil => simp
  | cons named _ hypothesis =>
      simp only [List.forall_mem_cons] at known ⊢
      exact ⟨exact.literal_bounds valid known.1 named, hypothesis known.2⟩

mutual

theorem literal_keeps (valid : circuit.Valid) (bit : Bit) (known : circuit.Knows bit)
    (positive : 0 < bit.label) (encoding : Encoding) :
    Keeps circuit required bit.label encoding (literal bit)
      fun output after => after.Names bit output := by
  match bit with
  | .const value =>
      have nonpositive := Bit.label_const_nonpos value
      omega
  | .var label => exact .pure (.var label)
  | .and label operands =>
      have operandsKnown := known.operands valid
      have each := fun operand member => (operandsKnown operand member).1
      refine keeps_named valid known rfl (Defines.bind (literals_keeps valid operands label
        operandsKnown encoding) fun inputs after _ names => ?_)
      refine defines_defined (fun assignment => inputs.all fun input => assignment input.natAbs)
        (fun exact => conjunctionClauses_define (exact.next_pos valid known positive)
          (bounds_of_names exact valid each names)) fun assignment respected => ?_
      have values := values_of_names respected each names
      simpa [List.all_map, Function.comp_def, Bit.operands, Bit.eval, Bit.evalAll_eq_all] using
        congrArg (List.all · id) values
  | .or label operands =>
      have operandsKnown := known.operands valid
      have each := fun operand member => (operandsKnown operand member).1
      refine keeps_named valid known rfl (Defines.bind (literals_keeps valid operands label
        operandsKnown encoding) fun inputs after _ names => ?_)
      refine defines_defined (fun assignment => inputs.any fun input => assignment input.natAbs)
        (fun exact => disjunctionClauses_define (exact.next_pos valid known positive)
          (bounds_of_names exact valid each names)) fun assignment respected => ?_
      have values := values_of_names respected each names
      simpa [List.any_map, Function.comp_def, Bit.operands, Bit.eval, Bit.evalAny_eq_any] using
        congrArg (List.any · id) values
  | .not label operand =>
      rcases known.operands valid operand (by simp [Bit.operands]) with
        ⟨operandKnown, operandPositive, below⟩
      refine keeps_named valid known rfl (Defines.bind
        ((literal_keeps valid operand operandKnown operandPositive encoding).weaken ?_)
        fun input after _ names => ?_)
      · omega
      refine defines_defined (fun assignment => !assignment input.natAbs)
        (fun exact => ?_) fun assignment respected => ?_
      · have bounds := exact.literal_bounds valid operandKnown names
        exact negationClauses_define bounds.1 bounds.2
      · rw [respected _ _ operandKnown names, Bit.eval]
  | .ite label condition thenBit elseBit =>
      have operandsKnown := known.operands valid
      simp only [Bit.operands, List.forall_mem_cons] at operandsKnown
      rcases operandsKnown with ⟨⟨conditionKnown, conditionPositive, conditionBelow⟩,
        ⟨thenKnown, thenPositive, thenBelow⟩, ⟨elseKnown, elsePositive, elseBelow⟩, -⟩
      refine keeps_named valid known rfl (Defines.bind
        ((literal_keeps valid condition conditionKnown conditionPositive encoding).weaken ?_)
        fun conditionLiteral first _ conditionNames => Defines.bind
          ((literal_keeps valid thenBit thenKnown thenPositive first).weaken ?_)
          fun thenLiteral second grown thenNames => Defines.bind
            ((literal_keeps valid elseBit elseKnown elsePositive second).weaken ?_)
            fun elseLiteral third grownAgain elseNames => ?_)
      · omega
      · omega
      · omega
      replace conditionNames := (conditionNames.mono grown).mono grownAgain
      replace thenNames := thenNames.mono grownAgain
      refine defines_defined (fun assignment =>
          bif assignment conditionLiteral.natAbs then assignment thenLiteral.natAbs
          else assignment elseLiteral.natAbs)
        (fun exact => choiceClauses_define
          (exact.literal_bounds valid conditionKnown conditionNames)
          (exact.literal_bounds valid thenKnown thenNames)
          (exact.literal_bounds valid elseKnown elseNames)) fun assignment respected => ?_
      rw [respected _ _ conditionKnown conditionNames, respected _ _ thenKnown thenNames,
        respected _ _ elseKnown elseNames, Bit.eval]

theorem literals_keeps (valid : circuit.Valid) (bits : List Bit) (limit : Int)
    (known : ∀ bit ∈ bits, circuit.Knows bit ∧ 0 < bit.label ∧ bit.label < limit)
    (encoding : Encoding) :
    Keeps circuit required (limit - 1) encoding (literals bits)
      fun outputs after => List.Forall₂ after.Names bits outputs := by
  match bits with
  | [] => exact .pure .nil
  | bit :: rest =>
      simp only [List.forall_mem_cons] at known
      rcases known with ⟨⟨bitKnown, positive, below⟩, restKnown⟩
      refine Keeps.bind ((literal_keeps valid bit bitKnown positive encoding).weaken (by omega))
        fun output middle _ names => ?_
      refine Keeps.bind (literals_keeps valid rest limit restKnown middle)
        fun outputs after grown restNames => .pure ?_
      exact .cons (names.mono grown) restNames

end

end Encode

end ModelFinder
