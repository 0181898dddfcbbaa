import Mathlib
import ModelFinder.Proofs.Circuit.History
import ModelFinder.Proofs.Cnf.Encoding
/-!
The clauses of some roots. Asserting the roots one after the other leads to clauses that
hold where all roots do and every gate below them has its value, so the models of the
clauses are the extensions, one each, of the assignments that make all roots true.
-/

namespace ModelFinder

namespace Bit

private theorem bmod_le (count size : Nat) : Int.bmod count size ≤ count := by
  have le := Nat.mod_le count size
  rw [Int.bmod_def, ← Int.natCast_mod]
  split <;> omega

private theorem bmod_eq_of_pos {count size : Nat} (small : count < size)
    (positive : 0 < Int.bmod count size) : Int.bmod count size = count := by
  rw [Int.bmod_def, ← Int.natCast_mod, Nat.mod_eq_of_lt small] at positive ⊢
  split at positive
  · rename_i below
    rw [if_pos below]
  · omega

theorem lastVariable_le (count : Nat) : lastVariable count ≤ count := bmod_le count _

theorem lastVariable_eq_of_pos {count : Nat} (small : count < UInt32.size)
    (positive : 0 < lastVariable count) : lastVariable count = count :=
  bmod_eq_of_pos small positive

end Bit

namespace Encoding

variable {circuit : Circuit} {required required' : (Nat → Bool) → Prop} {encoding : Encoding}

theorem exact_start (circuit : Circuit) :
    Encoding.Exact circuit (fun _ => True)
      ⟨⟨circuit.primary, #[]⟩, Bit.lastVariable circuit.primary + 1, ∅, none⟩ where
  started := by
    have := lt_add_one (Bit.lastVariable circuit.primary)
    exact this
  numbered stored := by simp at stored
  distinct stored := by simp at stored
  covered above below := by
    have : ¬ (Bit.lastVariable circuit.primary + 1 ≤ _) := not_le.mpr below
    exact absurd (Int.add_one_le_of_lt above) this
  bounded bound primary _ := primary
  holds_iff assignment := by
    simp only [Cnf.holds, Array.all_empty, and_true, true_iff]
    intro bit literal _ names
    cases names with
    | var label => simp [Bit.eval]
    | gate isKind stored => simp at stored

theorem Exact.congr (exact : encoding.Exact circuit required)
    (same : ∀ assignment, required assignment ↔ required' assignment) :
    encoding.Exact circuit required' :=
  { exact with holds_iff := fun assignment => by rw [exact.holds_iff, same] }

/-- Clauses have no part in which bits have variables. -/
theorem respected_congr (circuit : Circuit) (assignment : Nat → Bool) {left right : Encoding}
    (same : left.gateVariables = right.gateVariables) :
    left.Respected circuit assignment ↔ right.Respected circuit assignment := by
  have toRight : left.Grows 0 right := ⟨(same ▸ ·), fun stored => .inl (same ▸ stored)⟩
  have toLeft : right.Grows 0 left := ⟨(same ▸ ·), fun stored => .inl (same ▸ stored)⟩
  exact ⟨fun respected bit literal known names => respected bit literal known (names.mono toLeft),
    fun respected bit literal known names => respected bit literal known (names.mono toRight)⟩

theorem Exact.emit (exact : encoding.Exact circuit required) (clause : Clause)
    (required' : (Nat → Bool) → Prop)
    (bounded : ∀ literal ∈ clause, 0 ≤ literal ∧ literal < encoding.next)
    (meaning : ∀ assignment, encoding.Respected circuit assignment →
      (clause.holds assignment = true ↔ required' assignment)) :
    Encoding.Exact circuit (fun assignment => required assignment ∧ required' assignment)
      { encoding with cnf := encoding.cnf.add clause } where
  started := exact.started
  numbered := exact.numbered
  distinct := exact.distinct
  covered := exact.covered
  bounded := by
    intro bound primary le
    refine Cnf.variableCount_add_le.mpr ⟨exact.bounded bound primary le, ?_⟩
    intro literal member
    have := bounded literal member
    lia
  holds_iff := by
    intro assignment
    have same : encoding.Respected circuit assignment ↔
        Respected circuit { encoding with cnf := encoding.cnf.add clause } assignment :=
      respected_congr circuit assignment rfl
    rw [← same, Cnf.holds_add, Bool.and_eq_true, exact.holds_iff, and_assoc]
    exact and_congr_right fun respected => and_congr_right fun _ =>
      meaning assignment respected

end Encoding

namespace Encode

variable {circuit : Circuit} {required : (Nat → Bool) → Prop} {encoding : Encoding}

theorem assertAll_exact (valid : circuit.Valid) {bits : List Bit}
    (known : ∀ bit ∈ bits, circuit.Knows bit ∧ 0 < bit.label)
    (exact : encoding.Exact circuit required) :
    (assertAll bits encoding).2.Exact circuit fun assignment =>
      required assignment ∧ ∀ bit ∈ bits, bit.eval assignment = true := by
  induction bits generalizing encoding required with
  | nil => exact exact.congr (by simp)
  | cons bit rest hypothesis =>
      simp only [List.forall_mem_cons] at known
      rcases known with ⟨⟨bitKnown, positive⟩, restKnown⟩
      rcases literal_keeps valid bit bitKnown positive encoding exact with
        ⟨named, -, names⟩
      have bounds := named.literal_bounds valid bitKnown names
      have asserted := named.emit [(literal bit encoding).1]
        (fun assignment => bit.eval assignment = true)
        (by simpa using ⟨bounds.1.le, bounds.2⟩) fun assignment respected => by
          rw [← respected _ _ bitKnown names]
          simp [Clause.holds, Literal.holds_of_pos bounds.1]
      exact (hypothesis restKnown asserted).congr (by simp [and_assoc])

theorem assertRoot_exact (valid : circuit.Valid) {root : Bit} (known : circuit.Knows root)
    (exact : encoding.Exact circuit required) :
    (assertRoot root encoding).2.Exact circuit fun assignment =>
      required assignment ∧ root.eval assignment = true := by
  have single : ∀ bit : Bit, circuit.Knows bit → 0 < bit.label →
      (assertAll [bit] encoding).2.Exact circuit fun assignment =>
        required assignment ∧ bit.eval assignment = true := fun bit bitKnown positive =>
    (assertAll_exact valid (by simpa using ⟨bitKnown, positive⟩) exact).congr (by simp)
  cases root with
  | const value =>
      cases value with
      | true => exact exact.congr (by simp [Bit.eval])
      | false =>
          exact exact.emit [] _ (by simp) fun assignment _ => by simp [Clause.holds, Bit.eval]
  | and label operands =>
      refine (assertAll_exact valid (fun operand member => ?_) exact).congr fun assignment => ?_
      · rcases known.operands valid operand member with ⟨operandKnown, positive, -⟩
        exact ⟨operandKnown, positive⟩
      · rw [Bit.eval, Bit.evalAll_eq_all, List.all_eq_true]
  | var label => exact single _ known (by cases known <;> simp_all [Bit.kind?])
  | or label operands => exact single _ known (known.label_pos valid rfl)
  | not label operand => exact single _ known (known.label_pos valid rfl)
  | ite label condition thenBit elseBit => exact single _ known (known.label_pos valid rfl)

theorem assertRoots_exact (valid : circuit.Valid) {roots : List Bit}
    (known : ∀ root ∈ roots, circuit.Knows root) (exact : encoding.Exact circuit required) :
    (roots.forM assertRoot encoding).2.Exact circuit fun assignment =>
      required assignment ∧ ∀ root ∈ roots, root.eval assignment = true := by
  induction roots generalizing encoding required with
  | nil => exact exact.congr (by simp)
  | cons root rest hypothesis =>
      simp only [List.forall_mem_cons] at known
      exact (hypothesis known.2 (assertRoot_exact valid known.1 exact)).congr (by simp [and_assoc])

end Encode

/-! Empty clauses -/

def Cnf.Nonempty (cnf : Cnf) : Prop := ∀ clause ∈ cnf.clauses.toList, clause ≠ []

theorem Cnf.nonempty_add {cnf : Cnf} (nonempty : cnf.Nonempty) {clause : Clause}
    (some : clause ≠ []) : (cnf.add clause).Nonempty := by
  intro other member
  rw [Cnf.add, Array.toList_push, List.mem_append, List.mem_singleton] at member
  rcases member with old | rfl
  · exact nonempty other old
  · exact some

theorem Cnf.nonempty_addAll {cnf : Cnf} (nonempty : cnf.Nonempty) {clauses : List Clause}
    (each : ∀ clause ∈ clauses, clause ≠ []) : (cnf.addAll clauses).Nonempty := by
  induction clauses generalizing cnf with
  | nil => exact nonempty
  | cons clause rest hypothesis =>
      rw [List.forall_mem_cons] at each
      exact hypothesis (nonempty_add nonempty each.1) each.2

namespace Encode

/-- A computation adds no empty clause. -/
def Asserts {α : Type} (action : Encode α) : Prop :=
  ∀ encoding : Encoding, encoding.cnf.Nonempty → (action encoding).2.cnf.Nonempty

theorem Asserts.pure {α : Type} (value : α) : Asserts (Pure.pure value : Encode α) :=
  fun _ nonempty => nonempty

theorem Asserts.bind {α β : Type} {action : Encode α} {next : α → Encode β}
    (first : action.Asserts) (second : ∀ value, (next value).Asserts) :
    (action >>= next).Asserts :=
  fun encoding nonempty => second _ _ (first encoding nonempty)

theorem truth_run (encoding : Encoding) :
    truth encoding = match encoding.truth with
      | some output => (output, encoding)
      | none => (encoding.next, { encoding with
          next := encoding.next + 1
          cnf := encoding.cnf.add [encoding.next]
          truth := some encoding.next }) := by
  simp only [truth, bind, StateT.bind, get, getThe, MonadStateOf.get, StateT.get, pure]
  cases encoding.truth <;> rfl

theorem truth_asserts : truth.Asserts := by
  intro encoding nonempty
  rw [truth_run]
  cases encoding.truth with
  | some output => exact nonempty
  | none => exact Cnf.nonempty_add nonempty (List.cons_ne_nil _ _)

theorem defined_asserts {clauses : Literal → List Clause}
    (each : ∀ output, ∀ clause ∈ clauses output, clause ≠ []) : (defined clauses).Asserts := by
  intro encoding nonempty
  rw [defined_run]
  exact Cnf.nonempty_addAll nonempty (each _)

theorem named_asserts (label : Int) {define : Encode Literal} (asserts : define.Asserts) :
    (named label define).Asserts := by
  intro encoding nonempty
  rw [named_run]
  cases encoding.gateVariables[label]? with
  | some output => exact nonempty
  | none => exact asserts encoding nonempty

mutual

theorem literal_asserts : ∀ bit : Bit, (literal bit).Asserts
  | .const _ => truth_asserts.bind fun _ => .pure _
  | .var _ => .pure _
  | .and label operands => named_asserts label <| (literals_asserts operands).bind fun _ =>
      defined_asserts fun _ => by simp [conjunctionClauses]
  | .or label operands => named_asserts label <| (literals_asserts operands).bind fun _ =>
      defined_asserts fun _ => by simp [disjunctionClauses]
  | .not label operand => named_asserts label <| (literal_asserts operand).bind fun _ =>
      defined_asserts fun _ => by simp [negationClauses]
  | .ite label condition thenBit elseBit => named_asserts label <|
      (literal_asserts condition).bind fun _ => (literal_asserts thenBit).bind fun _ =>
        (literal_asserts elseBit).bind fun _ => defined_asserts fun _ => by simp [choiceClauses]

theorem literals_asserts : ∀ bits : List Bit, (literals bits).Asserts
  | [] => .pure _
  | bit :: rest => (literal_asserts bit).bind fun _ => (literals_asserts rest).bind fun _ => .pure _

end

theorem assertAll_asserts (bits : List Bit) : (assertAll bits).Asserts := by
  induction bits with
  | nil => exact .pure _
  | cons bit rest hypothesis =>
      refine (literal_asserts bit).bind fun output => Asserts.bind ?_ fun _ => hypothesis
      exact fun encoding nonempty => Cnf.nonempty_add nonempty (List.cons_ne_nil _ _)

theorem assertRoot_asserts {root : Bit} (possible : root ≠ .const false) :
    (assertRoot root).Asserts := by
  cases root with
  | const value =>
      cases value with
      | true => exact .pure _
      | false => exact absurd rfl possible
  | and label operands => exact assertAll_asserts operands
  | var label => exact assertAll_asserts _
  | or label operands => exact assertAll_asserts _
  | not label operand => exact assertAll_asserts _
  | ite label condition thenBit elseBit => exact assertAll_asserts _

end Encode

theorem Cnf.nonempty_ofRoots (primary : Nat) {roots : List Bit}
    (possible : ∀ root ∈ roots, root ≠ .const false) : (Cnf.ofRoots primary roots).Nonempty := by
  have asserts : (roots.forM Encode.assertRoot).Asserts := by
    clear primary
    induction roots with
    | nil => exact .pure _
    | cons root rest hypothesis =>
        rw [List.forall_mem_cons] at possible
        exact (Encode.assertRoot_asserts possible.1).bind fun _ => hypothesis possible.2
  exact asserts _ (by intro clause member; cases member)

/-! Models of the clauses -/

/-- Two assignments agree on the variables up to a given one. -/
def AgreeUpTo (last : Nat) (left right : Nat → Bool) : Prop :=
  ∀ number : Nat, 0 < number → number ≤ last → left number = right number

namespace Encoding

variable {circuit : Circuit} {required : (Nat → Bool) → Prop} {encoding : Encoding}

theorem Exact.primary_lt (exact : encoding.Exact circuit required) (valid : circuit.Valid)
    (small : circuit.primary < UInt32.size) {label literal : Int}
    (stored : encoding.gateVariables[label]? = some literal) : circuit.primary < literal := by
  rcases exact.numbered stored with ⟨above, -, bit, kind, known, isKind, -⟩
  have positive := known.lastVariable_pos valid (known.label_pos valid isKind)
  rw [Bit.lastVariable_eq_of_pos small positive] at above
  exact above

theorem eval_of_agree {left right : Nat → Bool} (valid : circuit.Valid)
    (agree : AgreeUpTo circuit.primary left right) {bit : Bit} (known : circuit.Knows bit) :
    bit.eval left = bit.eval right := by
  refine known.eval_congr valid fun label positive bounded => agree label positive ?_
  have := Bit.lastVariable_le circuit.primary
  omega

/-- Every assignment of the primary variables gives all gates their values. -/
theorem Exact.exists_respected (exact : encoding.Exact circuit required)
    (valid : circuit.Valid) (small : circuit.primary < UInt32.size)
    (assignment : Nat → Bool) : ∃ extension, AgreeUpTo circuit.primary assignment extension ∧
      encoding.Respected circuit extension := by
  have choice : ∀ number : Nat, ∃ value : Bool,
      (∀ bit kind, circuit.Knows bit → bit.kind? = some kind →
        encoding.gateVariables[bit.label]? = some (number : Int) →
          value = bit.eval assignment) ∧
      (number ≤ circuit.primary → value = assignment number) := by
    intro number
    by_cases named : ∃ bit kind, circuit.Knows bit ∧ bit.kind? = some kind ∧
        encoding.gateVariables[bit.label]? = some (number : Int)
    · rcases named with ⟨bit, kind, known, isKind, stored⟩
      have above := exact.primary_lt valid small stored
      refine ⟨bit.eval assignment, ?_, fun below => by omega⟩
      intro other otherKind otherKnown isOtherKind otherStored
      rw [known.eq_of_label valid otherKnown (exact.distinct stored otherStored)]
    · refine ⟨assignment number, ?_, fun _ => rfl⟩
      intro bit kind known isKind stored
      exact absurd ⟨bit, kind, known, isKind, stored⟩ named
  choose extension gates primary using choice
  have agree : AgreeUpTo circuit.primary assignment extension :=
    fun number _ bounded => (primary number bounded).symm
  refine ⟨extension, agree, ?_⟩
  intro bit literal known names
  cases names with
  | var label => simp [Bit.eval]
  | gate isKind stored =>
      have above := exact.primary_lt valid small stored
      rw [← eval_of_agree valid agree known]
      refine gates literal.natAbs bit _ known isKind ?_
      rw [stored, Int.natAbs_of_nonneg (by omega)]

private theorem toNat_emod_lt {next : Int} {primary number size : Nat} (small : primary < size)
    (above : primary < number) (beyond : next ≤ number)
    (unsigned : next ≤ 0 → next = Int.bmod primary size + 1) :
    ((next - 1) % size).toNat < number := by
  by_cases positive : 0 < next
  · rcases Int.eq_ofNat_of_zero_le (by omega : 0 ≤ next - 1) with ⟨last, isLast⟩
    rw [isLast, ← Int.natCast_mod, Int.toNat_natCast]
    have := Nat.mod_le last size
    omega
  · rw [unsigned (by omega), add_sub_cancel_right, Int.bmod_emod, ← Int.natCast_mod,
      Int.toNat_natCast, Nat.mod_eq_of_lt small]
    exact above

theorem Exact.next_of_nonpos (exact : encoding.Exact circuit required) (valid : circuit.Valid)
    (small : circuit.primary < UInt32.size) (nonpositive : (encoding.next : Int) ≤ 0) :
    encoding.next = Bit.lastVariable circuit.primary + 1 := by
  have started := exact.started
  by_contra handedOut
  rcases exact.covered (lt_add_one _) (by lia) with ⟨label, stored⟩
  have := exact.primary_lt valid small stored
  lia

theorem Exact.covers (exact : encoding.Exact circuit required) (valid : circuit.Valid)
    (small : circuit.primary < UInt32.size) {number : Nat}
    (above : circuit.primary < number)
    (bounded : number ≤ Nat.max encoding.cnf.variableCount
      (((encoding.next : Int) - 1) % UInt32.size).toNat) :
    ∃ label : Int, encoding.gateVariables[label]? = some (number : Int) := by
  have primaryLe := Bit.lastVariable_le circuit.primary
  apply exact.covered (by omega)
  by_contra notBelow
  have beyond : encoding.next ≤ (number : Int) := not_lt.mp notBelow
  have covered := exact.bounded (number - 1) (by omega) (by lia)
  have last := toNat_emod_lt small above beyond (exact.next_of_nonpos valid small)
  have counted : encoding.cnf.variableCount < number := by omega
  exact absurd bounded (not_le.mpr (Nat.max_lt.mpr ⟨counted, last⟩))

end Encoding

namespace Cnf

variable {primary : Nat} {roots : List Bit}

theorem exists_exact_ofRoots {circuit : Circuit} (valid : circuit.Valid)
    (known : ∀ root ∈ roots, circuit.Knows root) :
    ∃ encoding : Encoding,
      encoding.Exact circuit (fun assignment => ∀ root ∈ roots, root.eval assignment = true) ∧
      (ofRoots circuit.primary roots).clauses = encoding.cnf.clauses ∧
      (ofRoots circuit.primary roots).variableCount = Nat.max encoding.cnf.variableCount
        (((encoding.next : Int) - 1) % UInt32.size).toNat :=
  ⟨_, (Encode.assertRoots_exact valid known (Encoding.exact_start circuit)).congr (by simp),
    rfl, rfl⟩

theorem holds_congr {left right : Cnf} (same : left.clauses = right.clauses)
    (assignment : Nat → Bool) : left.holds assignment = right.holds assignment := by
  rw [holds, holds, same]

theorem holds_ofRoots {circuit : Circuit} (valid : circuit.Valid)
    (small : circuit.primary < UInt32.size) (known : ∀ root ∈ roots, circuit.Knows root)
    (assignment : Nat → Bool) :
    (∃ extension, AgreeUpTo circuit.primary assignment extension ∧
      (ofRoots circuit.primary roots).holds extension = true) ↔
        ∀ root ∈ roots, root.eval assignment = true := by
  rcases exists_exact_ofRoots valid known with ⟨encoding, exact, clauses, -⟩
  constructor
  · rintro ⟨extension, agree, holds⟩ root member
    rw [holds_congr clauses, exact.holds_iff] at holds
    rw [Encoding.eval_of_agree valid agree (known root member)]
    exact holds.2 root member
  · intro rootsHold
    rcases exact.exists_respected valid small assignment with ⟨extension, agree, respected⟩
    refine ⟨extension, agree, ?_⟩
    rw [holds_congr clauses, exact.holds_iff]
    refine ⟨respected, fun root member => ?_⟩
    rw [← Encoding.eval_of_agree valid agree (known root member)]
    exact rootsHold root member

theorem models_agree {circuit : Circuit} (valid : circuit.Valid)
    (small : circuit.primary < UInt32.size) (known : ∀ root ∈ roots, circuit.Knows root)
    {left right : Nat → Bool} (agree : AgreeUpTo circuit.primary left right)
    (leftHolds : (ofRoots circuit.primary roots).holds left = true)
    (rightHolds : (ofRoots circuit.primary roots).holds right = true) :
    AgreeUpTo (ofRoots circuit.primary roots).variableCount left right := by
  rcases exists_exact_ofRoots valid known with ⟨encoding, exact, clauses, count⟩
  rw [holds_congr clauses, exact.holds_iff] at leftHolds rightHolds
  intro number positive bounded
  by_cases below : number ≤ circuit.primary
  · exact agree number positive below
  rw [count] at bounded
  rcases exact.covers valid small (by omega) bounded with ⟨label, stored⟩
  rcases exact.numbered stored with ⟨-, -, bit, kind, bitKnown, isKind, rfl⟩
  have leftValue := leftHolds.1 bit _ bitKnown (.gate isKind stored)
  have rightValue := rightHolds.1 bit _ bitKnown (.gate isKind stored)
  rw [Int.natAbs_natCast] at leftValue rightValue
  rw [leftValue, rightValue, Encoding.eval_of_agree valid agree bitKnown]

/-- An assignment of the primary variables can be extended to a model of the clauses if and
only if it makes all roots true, and then to one model only. -/
theorem ofRoots_models {primary width : Nat} {circuit : Circuit} {made roots : List Bit}
    {performed : List (Task × Except Error Value)} (small : primary < UInt32.size)
    (history : Circuit.History primary width circuit made performed)
    (chosen : ∀ root ∈ roots, root ∈ made) (assignment : Nat → Bool) :
    ((∃ extension, AgreeUpTo primary assignment extension ∧
        (ofRoots primary roots).holds extension = true) ↔
      ∀ root ∈ roots, root.eval assignment = true) ∧
    ∀ left right, AgreeUpTo primary assignment left → AgreeUpTo primary assignment right →
      (ofRoots primary roots).holds left = true → (ofRoots primary roots).holds right = true →
        AgreeUpTo (ofRoots primary roots).variableCount left right := by
  rcases history.sound with ⟨valid, rfl, known⟩
  have rootsKnown := fun root member => known root (chosen root member)
  refine ⟨holds_ofRoots valid small rootsKnown assignment, ?_⟩
  intro left right leftAgrees rightAgrees
  apply models_agree valid small rootsKnown
  intro number positive bounded
  exact (leftAgrees number positive bounded).symm.trans (rightAgrees number positive bounded)

theorem ofRoots_models_not_both :
    2 < UInt32.size ∧ ∃ extension, AgreeUpTo 2 (fun number => number == 1) extension ∧
      (ofRoots 2 [.not 4 (.and 3 [.var 1, .var 2])]).holds extension = true := by
  have last : Bit.lastVariable 2 = 2 := Bit.lastVariable_of_lt (by decide)
  have next : (Circuit.empty 2 1).nextLabel = 3 := by
    simp [Circuit.nextLabel, Circuit.gateCount, Circuit.empty, last]
  obtain ⟨circuit, _, _, history, member, -, -⟩ :=
    Circuit.History.two_variables.not_both (by simp) (by simp [Circuit.empty])
      (by simp [Circuit.empty])
  rw [next] at member
  refine ⟨by decide, (ofRoots_models (by decide) history
    (List.forall_mem_singleton.mpr member) _).1.mpr ?_⟩
  simp [Bit.eval, Bit.evalAll]

end Cnf

end ModelFinder
