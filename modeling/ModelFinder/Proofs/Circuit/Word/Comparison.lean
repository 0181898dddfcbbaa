import Mathlib
import ModelFinder.Circuit.Word.Comparison
import ModelFinder.Proofs.Circuit.Word.Addition
/-!
Words that are compared. Every comparison holds exactly where it holds between the numbers
that the words stand for.
-/

namespace ModelFinder

namespace Word

variable (assignment : Nat → Bool)

theorem all_pairs_eq (left right : Word) :
    (left.pairs right).all (fun pair =>
        pair.1.eval assignment == pair.2.eval assignment) =
      (left.eval assignment == right.eval assignment) := by
  have leftValue := signed_extendedBits_of_le assignment left (le_max_left left.width right.width)
  have rightValue := signed_extendedBits_of_le assignment right
    (le_max_right left.width right.width)
  rw [Bool.eq_iff_iff, List.all_eq_true, beq_iff_eq]
  simp only [beq_iff_eq]
  rw [← @List.map_inj_left _ _ _ (fun pair : Bit × Bit => pair.1.eval assignment)
    (fun pair => pair.2.eval assignment), map_fst_pairs, map_snd_pairs]
  constructor
  · intro digits
    rw [← leftValue, ← rightValue, digits]
  · intro equal
    exact Digits.signed_inj (by simp) (leftValue.trans (equal.trans rightValue.symm))

end Word

namespace Build

variable {circuit : Circuit} {left right : Word}

theorem agreements_yields {pairs : List (Bit × Bit)}
    (known : ∀ pair ∈ pairs, circuit.Knows pair.1 ∧ circuit.Knows pair.2) :
    Yields circuit (Word.agreements pairs) fun result after =>
      (∀ bits, result = some bits → after.KnowsAll bits) ∧
      ∀ assignment, (match result with
        | some bits => bits.all (Bit.eval assignment)
        | none => false) =
          pairs.all fun pair => pair.1.eval assignment == pair.2.eval assignment := by
  induction pairs generalizing circuit with
  | nil =>
      refine Yields.pure ⟨fun bits isSome => ?_, fun assignment => rfl⟩
      cases isSome
      exact Circuit.knowsAll_nil
  | cons pair rest hypothesis =>
      simp only [List.forall_mem_cons] at known
      rw [Word.agreements]
      refine Yields.of_valid fun valid => Yields.bind (iff_computes known.1.1 known.1.2)
        fun agree middle grown made => Yields.of_valid fun middleValid => ?_
      split
      · rename_i differs
        refine Yields.pure ⟨fun bits isSome => (by cases isSome), fun assignment => ?_⟩
        have value := made.2 assignment
        dsimp only at value
        rw [(made.1.isFalse_iff middleValid).mp differs, Bit.eval] at value
        rw [List.all_cons, ← value, Bool.false_and]
      · have restKnown : ∀ pair ∈ rest, middle.Knows pair.1 ∧ middle.Knows pair.2 :=
          fun pair member =>
            ⟨(known.2 pair member).1.mono grown, (known.2 pair member).2.mono grown⟩
        refine Yields.bind (hypothesis restKnown) fun result after grownAgain madeRest =>
          Yields.pure ⟨fun bits isSome => ?_, fun assignment => ?_⟩
        · cases result with
          | none => cases isSome
          | some others =>
              cases isSome
              exact Circuit.knowsAll_cons.mpr
                ⟨made.1.mono grownAgain, madeRest.1 others rfl⟩
        · have value := made.2 assignment
          have values := madeRest.2 assignment
          dsimp only at value
          rw [List.all_cons, ← value, ← values]
          cases result <;> simp

theorem eq_computes (leftKnown : circuit.KnowsWord left) (rightKnown : circuit.KnowsWord right) :
    Computes circuit (left.eq right) fun assignment =>
      left.eval assignment == right.eval assignment := by
  refine Yields.bind (agreements_yields (Word.mem_pairs leftKnown rightKnown))
    fun result after grown made => ?_
  rcases made with ⟨known, values⟩
  cases result with
  | none =>
      refine computes_pure (.const false) fun assignment => ?_
      rw [← Word.all_pairs_eq, ← values assignment, Bit.eval]
  | some bits =>
      exact computes_congr (all_computes (known bits rfl)) fun assignment => by
        rw [← Word.all_pairs_eq, ← values assignment]

/-- The conditions hold together where the first digit sequence is at most the second one,
unless a digit above them differs already. -/
theorem descents_yields {agreeAbove : Bit} (agreeKnown : circuit.Knows agreeAbove)
    {pairs : List (Bit × Bit)}
    (known : ∀ pair ∈ pairs, circuit.Knows pair.1 ∧ circuit.Knows pair.2) :
    Yields circuit (Word.descents agreeAbove pairs) fun conditions after =>
      after.KnowsAll conditions ∧
      ∀ assignment, conditions.all (Bit.eval assignment) = true ↔
        (agreeAbove.eval assignment = true →
          Digits.unsigned (pairs.reverse.map fun pair => pair.1.eval assignment) ≤
            Digits.unsigned (pairs.reverse.map fun pair => pair.2.eval assignment)) := by
  induction pairs generalizing circuit agreeAbove with
  | nil => exact Yields.pure ⟨Circuit.knowsAll_nil, fun assignment => by simp⟩
  | cons pair rest hypothesis =>
      simp only [List.forall_mem_cons] at known
      rcases known with ⟨⟨leftKnown, rightKnown⟩, restKnown⟩
      rw [Word.descents]
      refine Yields.bind (implies_computes leftKnown rightKnown)
        fun notAbove first grown madeNotAbove => ?_
      refine Yields.bind (implies_computes (agreeKnown.mono grown) madeNotAbove.1)
        fun condition second grown' madeCondition => ?_
      refine Yields.bind (iff_computes ((leftKnown.mono grown).mono grown')
        ((rightKnown.mono grown).mono grown')) fun agree third grown'' madeAgree => ?_
      refine Yields.bind (and_computes (((agreeKnown.mono grown).mono grown').mono grown'')
        madeAgree.1) fun agreeBelow fourth grown''' madeBelow => ?_
      have restAfter : ∀ pair ∈ rest, fourth.Knows pair.1 ∧ fourth.Knows pair.2 :=
        fun pair member =>
          ⟨((((restKnown pair member).1.mono grown).mono grown').mono grown'').mono grown''',
            ((((restKnown pair member).2.mono grown).mono grown').mono grown'').mono grown'''⟩
      refine Yields.bind (hypothesis madeBelow.1 restAfter)
        fun conditions after grownLast made => Yields.pure ⟨?_, fun assignment => ?_⟩
      · exact Circuit.knowsAll_cons.mpr
          ⟨((madeCondition.1.mono grown'').mono grown''').mono grownLast, made.1⟩
      · have leftBound := Digits.unsigned_lt (rest.reverse.map fun pair => pair.1.eval assignment)
        have rightBound := Digits.unsigned_lt (rest.reverse.map fun pair => pair.2.eval assignment)
        rw [List.length_map, List.length_reverse] at leftBound rightBound
        rw [List.all_cons, Bool.and_eq_true, made.2, madeBelow.2, madeCondition.2]
        dsimp only
        rw [madeNotAbove.2, madeAgree.2]
        simp only [List.reverse_cons, List.map_append, List.map_cons, List.map_nil,
          Digits.unsigned_append, List.length_map, List.length_reverse, Digits.unsigned_cons,
          Digits.unsigned_nil]
        cases agreeAbove.eval assignment <;> cases pair.1.eval assignment <;>
          cases pair.2.eval assignment <;> simp [-List.map_reverse] <;> omega

/-- Two words compare by their signs, and by the digits below where the signs agree. -/
private theorem signed_le_iff {left right : List Bool} {leftSign rightSign : Bool}
    (length : left.length = right.length) :
    Digits.signed (left ++ [leftSign]) ≤ Digits.signed (right ++ [rightSign]) ↔
      (rightSign = true → leftSign = true) ∧
        ((leftSign == rightSign) = true → Digits.unsigned left ≤ Digits.unsigned right) := by
  have leftBound := Digits.unsigned_lt left
  have rightBound := Digits.unsigned_lt right
  rw [length] at leftBound
  rw [Digits.signed_append_sign, Digits.signed_append_sign, length]
  cases leftSign <;> cases rightSign <;> simp <;> omega

theorem lte_computes (leftKnown : circuit.KnowsWord left) (rightKnown : circuit.KnowsWord right) :
    Computes circuit (left.lte right) fun assignment =>
      decide (left.eval assignment ≤ right.eval assignment) := by
  have known := Word.mem_pairs leftKnown rightKnown
  have length := Word.length_pairs left right
  have fst := Word.map_fst_pairs left right
  have snd := Word.map_snd_pairs left right
  have leftValue := fun assignment =>
    Word.signed_extendedBits_of_le assignment left (le_max_left left.width right.width)
  have rightValue := fun assignment =>
    Word.signed_extendedBits_of_le assignment right (le_max_right left.width right.width)
  have positive := left.width_pos
  rw [Word.lte]
  generalize left.pairs right = pairs at known length fst snd ⊢
  rcases List.eq_nil_or_concat pairs with rfl | ⟨below, ⟨leftSign, rightSign⟩, rfl⟩
  · simp only [List.length_nil] at length
    have := le_max_left left.width right.width
    omega
  rw [List.concat_eq_append] at known fst snd ⊢
  rw [List.reverse_append, List.reverse_singleton, List.singleton_append]
  have signsKnown := known (leftSign, rightSign) (by simp)
  refine Yields.bind (implies_computes signsKnown.2 signsKnown.1)
    fun signs first grown madeSigns => ?_
  refine Yields.bind (iff_computes (signsKnown.1.mono grown) (signsKnown.2.mono grown))
    fun agree second grown' madeAgree => ?_
  have belowKnown : ∀ pair ∈ below.reverse, second.Knows pair.1 ∧ second.Knows pair.2 := by
    intro pair member
    have pairKnown := known pair (List.mem_append_left _ (List.mem_reverse.mp member))
    exact ⟨(pairKnown.1.mono grown).mono grown', (pairKnown.2.mono grown).mono grown'⟩
  refine Yields.bind (descents_yields madeAgree.1 belowKnown)
    fun conditions third grown'' madeConditions => ?_
  refine computes_congr (all_computes (Circuit.knowsAll_cons.mpr
    ⟨(madeSigns.1.mono grown').mono grown'', madeConditions.1⟩)) fun assignment => ?_
  rw [← leftValue assignment, ← rightValue assignment, ← fst, ← snd, Bool.eq_iff_iff,
    decide_eq_true_iff]
  simp only [List.map_append, List.map_cons, List.map_nil]
  rw [signed_le_iff (by simp), List.all_cons, Bool.and_eq_true, madeConditions.2, madeAgree.2,
    madeSigns.2, List.reverse_reverse]
  dsimp only
  cases leftSign.eval assignment <;> cases rightSign.eval assignment <;> simp

theorem lt_computes (leftKnown : circuit.KnowsWord left) (rightKnown : circuit.KnowsWord right) :
    Computes circuit (left.lt right) fun assignment =>
      decide (left.eval assignment < right.eval assignment) := by
  refine Yields.bind (lte_computes leftKnown rightKnown) fun atMost first grown madeAtMost => ?_
  refine Yields.bind (eq_computes (leftKnown.mono grown) (rightKnown.mono grown))
    fun equal second grown' madeEqual => ?_
  refine Yields.bind (not_computes madeEqual.1) fun different third grown'' madeDifferent => ?_
  refine computes_congr (and_computes ((madeAtMost.1.mono grown').mono grown'') madeDifferent.1)
    fun assignment => ?_
  simp only [madeAtMost.2, madeDifferent.2, madeEqual.2]
  rw [Bool.eq_iff_iff]
  simp only [Bool.and_eq_true, decide_eq_true_eq, Bool.not_eq_true', beq_eq_false_iff_ne]
  omega

theorem gt_computes (leftKnown : circuit.KnowsWord left) (rightKnown : circuit.KnowsWord right) :
    Computes circuit (left.gt right) fun assignment =>
      decide (left.eval assignment > right.eval assignment) :=
  lt_computes rightKnown leftKnown

theorem gte_computes (leftKnown : circuit.KnowsWord left) (rightKnown : circuit.KnowsWord right) :
    Computes circuit (left.gte right) fun assignment =>
      decide (left.eval assignment ≥ right.eval assignment) :=
  lte_computes rightKnown leftKnown

end Build

end ModelFinder
