import Mathlib
import ModelFinder.Proofs.Circuit.Word.Basic
/-!
Words that are added, negated and chosen from. Every result stands for the number that
integer arithmetic gives, wrapped to the width of the result.
-/

namespace ModelFinder

namespace Digits

theorem signed_not {digits : List Bool} (nonempty : digits ≠ []) :
    signed (digits.map not) = -signed digits - 1 := by
  have complement := unsigned_not digits
  have bounds := signed_bounds nonempty
  have notNonempty : digits.map not ≠ [] := by simpa using nonempty
  have positive := List.length_pos_iff.mpr nonempty
  rw [← @bmod_of_bounds (-signed digits - 1) _ positive (by omega) (by omega),
    signed_eq_bmod notNonempty, List.length_map]
  have opposite : (unsigned (digits.map not) : Int) =
      -(unsigned digits : Int) - 1 + weight digits.length := by omega
  rw [opposite, Int.add_bmod_right, signed_eq_bmod nonempty, ← Int.bmod_sub_bmod,
    ← @Int.bmod_sub_bmod (-Int.bmod _ _), Int.bmod_neg_bmod]

theorem all_not_eq {digits : List Bool} (nonempty : digits ≠ []) :
    digits.all not = decide (signed digits = 0) := by
  have zero : signed (List.replicate digits.length false) = 0 := by
    rw [signed_eq_bmod (by simpa using nonempty), unsigned_replicate_false]
    exact Int.zero_bmod
  rw [Bool.eq_iff_iff, List.all_eq_true, decide_eq_true_iff]
  constructor
  · intro clear
    rw [← zero]
    congr 1
    exact List.eq_replicate_iff.mpr ⟨rfl, fun digit member => by simpa using clear digit member⟩
  · intro equal digit member
    rw [signed_inj (by simp) (equal.trans zero.symm)] at member
    simp [List.eq_of_mem_replicate member]

theorem signed_sign (value : Int) {width : Nat} (lower : -(weight width : Int) ≤ value)
    (upper : value < weight width) :
    signed ((!decide (value = 0)) :: List.replicate width (decide (value < 0))) =
      value.sign := by
  have positive := weight_pos width
  rw [signed_eq_bmod (List.cons_ne_nil _ _), List.length_cons, List.length_replicate]
  rcases lt_trichotomy value 0 with negative | rfl | greater
  · have ones := unsigned_replicate_true width
    have number : ((unsigned (true :: List.replicate width true) : Nat) : Int) =
        -1 + (weight (width + 1) : Int) := by
      rw [weight_succ, unsigned_cons, ← ones, Bool.toNat_true]
      push_cast
      ring
    rw [decide_eq_false negative.ne, decide_eq_true negative, Bool.not_false, number,
      Int.add_bmod_right, Int.sign_eq_neg_one_of_neg negative]
    exact bmod_of_bounds (Nat.succ_pos width) (by simpa using by omega) (by simpa using by omega)
  · simp
  · rw [decide_eq_false greater.ne', decide_eq_false greater.not_gt,
      Int.sign_eq_one_of_pos greater]
    simp only [Bool.not_false, unsigned_cons, unsigned_replicate_false, Bool.toNat_true]
    exact bmod_of_bounds (Nat.succ_pos width) (by simp) (by simpa using by omega)

end Digits

namespace Build

variable {circuit : Circuit}

private theorem full_adder (left right carry : Bool) :
    ((left ^^ right) ^^ carry).toNat + 2 * ((left && right) || (carry && (left ^^ right))).toNat =
      left.toNat + right.toNat + carry.toNat := by
  cases left <;> cases right <;> cases carry <;> rfl

theorem ripple_yields {carry : Bit} (carryKnown : circuit.Knows carry)
    {pairs : List (Bit × Bit)}
    (known : ∀ pair ∈ pairs, circuit.Knows pair.1 ∧ circuit.Knows pair.2) :
    Yields circuit (Word.ripple carry pairs) fun result after =>
      after.KnowsAll result.1 ∧ after.Knows result.2 ∧ result.1.length = pairs.length ∧
      ∀ assignment, Digits.unsigned (result.1.map (Bit.eval assignment)) +
          Digits.weight pairs.length * (result.2.eval assignment).toNat =
        Digits.unsigned (pairs.map fun pair => pair.1.eval assignment) +
          Digits.unsigned (pairs.map fun pair => pair.2.eval assignment) +
          (carry.eval assignment).toNat := by
  induction pairs generalizing circuit carry with
  | nil =>
      exact Yields.pure ⟨Circuit.knowsAll_nil, carryKnown, rfl, fun assignment => by simp⟩
  | cons pair rest hypothesis =>
      rcases pair with ⟨left, right⟩
      simp only [List.forall_mem_cons] at known
      rcases known with ⟨⟨leftKnown, rightKnown⟩, restKnown⟩
      rw [Word.ripple]
      refine Yields.bind (sum_computes leftKnown rightKnown carryKnown)
        fun sum first grown madeSum => ?_
      refine Yields.bind (carry_computes (leftKnown.mono grown) (rightKnown.mono grown)
        (carryKnown.mono grown)) fun next second grownAgain madeNext => ?_
      have restAfter : ∀ pair ∈ rest, second.Knows pair.1 ∧ second.Knows pair.2 :=
        fun pair member => ⟨((restKnown pair member).1.mono grown).mono grownAgain,
          ((restKnown pair member).2.mono grown).mono grownAgain⟩
      refine Yields.bind (hypothesis madeNext.1 restAfter)
        fun result after grownLast made => Yields.pure ?_
      rcases made with ⟨sumsKnown, outKnown, length, adds⟩
      refine ⟨Circuit.knowsAll_cons.mpr
        ⟨(madeSum.1.mono grownAgain).mono grownLast, sumsKnown⟩, outKnown, by simp [length], ?_⟩
      intro assignment
      have step := full_adder (left.eval assignment) (right.eval assignment)
        (carry.eval assignment)
      have remaining := adds assignment
      rw [madeNext.2] at remaining
      simp only [List.map_cons, Digits.unsigned_cons, List.length_cons, Digits.weight_succ,
        madeSum.2]
      linarith

end Build

namespace Word

variable {circuit : Circuit} {left right : Word}

theorem mem_pairs (leftKnown : circuit.KnowsWord left) (rightKnown : circuit.KnowsWord right) :
    ∀ pair ∈ left.pairs right, circuit.Knows pair.1 ∧ circuit.Knows pair.2 := by
  rintro ⟨first, second⟩ member
  have members := List.of_mem_zip member
  exact ⟨leftKnown.extendedBits _ _ members.1, rightKnown.extendedBits _ _ members.2⟩

theorem pairs_eq (left right : Word) : left.pairs right =
    (left.extendedBits (max left.width right.width)).zip
      (right.extendedBits (max left.width right.width)) := rfl

@[simp] theorem length_pairs (left right : Word) :
    (left.pairs right).length = max left.width right.width := by
  simp [pairs_eq]

theorem map_fst_pairs (left right : Word) (digit : Bit → Bool) :
    (left.pairs right).map (fun pair => digit pair.1) =
      (left.extendedBits (max left.width right.width)).map digit := by
  rw [← List.map_fst_zip (by simp : (left.extendedBits (max left.width right.width)).length ≤
    (right.extendedBits (max left.width right.width)).length), List.map_map]
  rfl

theorem map_snd_pairs (left right : Word) (digit : Bit → Bool) :
    (left.pairs right).map (fun pair => digit pair.2) =
      (right.extendedBits (max left.width right.width)).map digit := by
  rw [← List.map_snd_zip (by simp : (right.extendedBits (max left.width right.width)).length ≤
    (left.extendedBits (max left.width right.width)).length), List.map_map]
  rfl

end Word

namespace Build

open Word (pairs)

variable {left right : Word}

/-- The sum with its outgoing carry, as a sum of digits without sign. -/
theorem addWithCarry_yields {carry : Bit} (leftKnown : circuit.KnowsWord left)
    (rightKnown : circuit.KnowsWord right) (carryKnown : circuit.Knows carry) :
    Yields circuit (left.addWithCarry right carry) fun result after =>
      after.KnowsWord result.1 ∧ after.Knows result.2 ∧
      result.1.width = max left.width right.width ∧
      ∀ assignment, Digits.unsigned (result.1.bits.map (Bit.eval assignment)) +
          Digits.weight result.1.width * (result.2.eval assignment).toNat =
        Digits.unsigned ((left.extendedBits result.1.width).map (Bit.eval assignment)) +
          Digits.unsigned ((right.extendedBits result.1.width).map (Bit.eval assignment)) +
          (carry.eval assignment).toNat := by
  have positive : 0 < max left.width right.width := left.width_pos.trans_le (le_max_left ..)
  rw [Word.addWithCarry]
  refine Yields.bind (ripple_yields carryKnown (Word.mem_pairs leftKnown rightKnown))
    fun result after grown made => Yields.pure ?_
  rcases made with ⟨sumsKnown, outKnown, length, adds⟩
  rw [Word.length_pairs] at length adds
  have nonempty : result.1 ≠ [] := List.length_pos_iff.mp (by omega)
  dsimp only
  rw [Word.ofBits_eq nonempty]
  refine ⟨sumsKnown, outKnown, length, fun assignment => ?_⟩
  have sums := adds assignment
  rw [Word.map_fst_pairs, Word.map_snd_pairs] at sums
  simpa only [Word.width_mk, length] using sums

/-- The sum as a wrapped number. -/
theorem addWithCarry_computes {carry : Bit} (leftKnown : circuit.KnowsWord left)
    (rightKnown : circuit.KnowsWord right) (carryKnown : circuit.Knows carry) :
    ComputesWord circuit (do return (← left.addWithCarry right carry).1)
      (max left.width right.width) fun assignment =>
        Int.bmod (left.eval assignment + right.eval assignment + (carry.eval assignment).toNat)
          (Digits.weight (max left.width right.width)) := by
  refine Yields.bind (addWithCarry_yields leftKnown rightKnown carryKnown)
    fun result after grown made => Yields.pure ?_
  rcases made with ⟨known, -, width, adds⟩
  refine ⟨known, width, fun assignment => ?_⟩
  have sums := adds assignment
  have leftLe : left.width ≤ max left.width right.width := le_max_left ..
  have rightLe : right.width ≤ max left.width right.width := le_max_right ..
  have leftValue := Word.bmod_unsigned_extendedBits assignment left leftLe
  have rightValue := Word.bmod_unsigned_extendedBits assignment right rightLe
  rw [Word.eval_eq_bmod]
  rw [width] at sums ⊢
  generalize Digits.weight (max left.width right.width) = size at *
  generalize Digits.unsigned ((left.extendedBits _).map _) = leftDigits at *
  generalize Digits.unsigned ((right.extendedBits _).map _) = rightDigits at *
  have total : (Digits.unsigned (result.1.bits.map (Bit.eval assignment)) : Int) =
      leftDigits + (rightDigits + (carry.eval assignment).toNat) -
        size * (result.2.eval assignment).toNat := by
    zify at sums
    omega
  rw [total, Int.sub_mul_bmod_self_left]
  dsimp only
  rw [← leftValue, ← rightValue, add_assoc, Int.bmod_add_bmod, Int.add_left_comm,
    ← Int.bmod_add_bmod, Int.add_left_comm]

theorem plus_computes (leftKnown : circuit.KnowsWord left) (rightKnown : circuit.KnowsWord right) :
    ComputesWord circuit (left.plus right) (max left.width right.width) fun assignment =>
      Int.bmod (left.eval assignment + right.eval assignment)
        (Digits.weight (max left.width right.width)) :=
  computesWord_congr (addWithCarry_computes leftKnown rightKnown (.const false))
    fun assignment => by simp [Bit.eval]

theorem wordNot_yields {word : Word} (known : circuit.KnowsWord word) :
    Yields circuit word.not fun complement after =>
      after.KnowsWord complement ∧ complement.width = word.width ∧ ∀ assignment,
        complement.bits.map (Bit.eval assignment) =
          (word.bits.map (Bit.eval assignment)).map Bool.not := by
  refine Yields.weaken
    (ofBits_yields word.width_pos (by simp [Word.width]) (mapNot_computes known))
    fun complement after _ made => ⟨made.1, made.2.1, fun assignment => ?_⟩
  rw [made.2.2, List.map_map]
  rfl

theorem wordNot_computes {word : Word} (known : circuit.KnowsWord word) :
    ComputesWord circuit word.not word.width fun assignment => -word.eval assignment - 1 := by
  refine Yields.weaken (wordNot_yields known) fun complement after _ made =>
    ⟨made.1, made.2.1, fun assignment => ?_⟩
  have digits := congrArg Digits.signed (made.2.2 assignment)
  exact digits.trans (Digits.signed_not (word.map_eval_ne_nil assignment))

theorem minus_computes (leftKnown : circuit.KnowsWord left) (rightKnown : circuit.KnowsWord right) :
    ComputesWord circuit (left.minus right) (max left.width right.width) fun assignment =>
      Int.bmod (left.eval assignment - right.eval assignment)
        (Digits.weight (max left.width right.width)) := by
  refine Yields.bind (wordNot_computes rightKnown) fun complement after grown made => ?_
  rcases made with ⟨known, width, value⟩
  rw [← width]
  refine computesWord_congr (addWithCarry_computes (leftKnown.mono grown) known (.const true))
    fun assignment => ?_
  rw [value]
  congr 1
  simp only [Bit.eval, Bool.toNat_true]
  ring

/-! Words changed bit by bit -/

theorem bitwise_computes (gate : Bit → Bit → Build Bit)
    (operation : (Nat → Bool) → Bool → Bool → Bool) (leftKnown : circuit.KnowsWord left)
    (rightKnown : circuit.KnowsWord right)
    (computes : ∀ {first second : Bit} {after : Circuit}, circuit.Extends after →
      after.Knows first → after.Knows second → Computes after (gate first second)
        fun assignment => operation assignment (first.eval assignment) (second.eval assignment)) :
    ComputesWord circuit (Word.bitwise gate left right) (max left.width right.width)
      fun assignment => Digits.signed ((left.pairs right).map fun pair =>
        operation assignment (pair.1.eval assignment) (pair.2.eval assignment)) := by
  have positive : 0 < max left.width right.width :=
    left.width_pos.trans_le (le_max_left ..)
  have bits : ComputesBits circuit ((left.pairs right).mapM fun pair => gate pair.1 pair.2)
      fun assignment => (left.pairs right).map fun pair =>
        operation assignment (pair.1.eval assignment) (pair.2.eval assignment) := by
    refine mapM_computes fun pair member after grown => ?_
    have known := Word.mem_pairs leftKnown rightKnown pair member
    exact computes grown (known.1.mono grown) (known.2.mono grown)
  exact ofBits_computes positive (by simp) bits

theorem choice_computes {condition : Bit} {thenWord elseWord : Word}
    (conditionKnown : circuit.Knows condition) (thenKnown : circuit.KnowsWord thenWord)
    (elseKnown : circuit.KnowsWord elseWord) (same : thenWord.width = elseWord.width) :
    ComputesWord circuit (Word.choice condition thenWord elseWord) elseWord.width
      fun assignment => bif condition.eval assignment then thenWord.eval assignment
        else elseWord.eval assignment := by
  rw [Word.choice]
  split
  · rename_i value isConst
    obtain rfl := Bit.eq_const_of_const? isConst
    cases value
    · exact computesWord_pure elseKnown rfl fun assignment => by simp [Bit.eval]
    · exact computesWord_pure thenKnown same fun assignment => by simp [Bit.eval]
  · have bits := bitwise_computes (Build.ite condition)
      (fun assignment first second => bif condition.eval assignment then first else second)
      thenKnown elseKnown fun grown firstKnown secondKnown =>
        ite_computes (conditionKnown.mono grown) firstKnown secondKnown
    have width : max thenWord.width elseWord.width = elseWord.width := by rw [same, max_self]
    rw [width] at bits
    refine computesWord_congr bits fun assignment => ?_
    cases condition.eval assignment with
    | false =>
        simp only [cond_false]
        rw [Word.map_snd_pairs, Word.signed_extendedBits_of_le assignment _ (le_max_right ..)]
    | true =>
        simp only [cond_true]
        rw [Word.map_fst_pairs, Word.signed_extendedBits_of_le assignment _ (le_max_left ..)]

theorem negate_computes {word : Word} (known : circuit.KnowsWord word) :
    ComputesWord circuit word.negate word.width fun assignment =>
      Int.bmod (-word.eval assignment) (Digits.weight word.width) := by
  have positive := word.width_pos
  refine Yields.bind (wordNot_computes known) fun complement after grown made => ?_
  rcases made with ⟨complementKnown, width, value⟩
  have oneKnown : after.KnowsWord word.oneLike :=
    Circuit.knowsAll_cons.mpr ⟨.const true, Circuit.knowsAll_replicate (.const false) _⟩
  have oneWidth : word.oneLike.width = word.width := by
    simp only [Word.oneLike, Word.width_mk, List.length_cons, List.length_replicate]
    omega
  have sum := plus_computes complementKnown oneKnown
  rw [width, oneWidth, max_self] at sum
  refine computesWord_congr sum fun assignment => ?_
  have one : word.oneLike.eval assignment = Int.bmod 1 (Digits.weight word.width) := by
    rw [Word.eval_eq_bmod, oneWidth]
    simp [Word.oneLike, Bit.eval]
  rw [value, one, Int.add_bmod_bmod, sub_add_cancel]

theorem negateIf_computes {condition : Bit} {word : Word}
    (conditionKnown : circuit.Knows condition) (known : circuit.KnowsWord word) :
    ComputesWord circuit (word.negateIf condition) word.width fun assignment =>
      Int.bmod (bif condition.eval assignment then -word.eval assignment
        else word.eval assignment) (Digits.weight word.width) := by
  refine Yields.bind (negate_computes known) fun negated after grown made => ?_
  rcases made with ⟨negatedKnown, width, value⟩
  refine computesWord_congr (choice_computes (conditionKnown.mono grown) negatedKnown
    (known.mono grown) width) fun assignment => ?_
  rw [value]
  cases condition.eval assignment with
  | false => exact (word.bmod_eval assignment).symm
  | true => rfl

theorem abs_computes {word : Word} (known : circuit.KnowsWord word) :
    ComputesWord circuit word.abs word.width fun assignment =>
      Int.bmod (word.eval assignment).natAbs (Digits.weight word.width) := by
  refine computesWord_congr (negateIf_computes known.sign known) fun assignment => ?_
  rw [Word.eval_sign]
  by_cases negative : word.eval assignment < 0
  · rw [decide_eq_true negative, cond_true, ← Int.ofNat_natAbs_of_nonpos negative.le]
  · rw [decide_eq_false negative, cond_false, Int.natAbs_of_nonneg (by omega)]

theorem sgn_computes {word : Word} (known : circuit.KnowsWord word) :
    ComputesWord circuit word.sgn word.width fun assignment => (word.eval assignment).sign := by
  refine Yields.bind (mapNot_computes known) fun negated first grown madeNegated => ?_
  refine Yields.bind (all_computes madeNegated.1) fun isZero second grownZero madeZero => ?_
  refine Yields.bind (not_computes madeZero.1) fun lowest after grownLowest madeLowest =>
    Yields.pure ⟨?_, ?_, fun assignment => ?_⟩
  · have wordKnown := ((known.mono grown).mono grownZero).mono grownLowest
    exact Circuit.knowsAll_cons.mpr
      ⟨madeLowest.1, Circuit.knowsAll_replicate wordKnown.sign _⟩
  · simp only [Word.width_mk, List.length_cons, List.length_replicate]
    have positive := word.width_pos
    omega
  · have clearIff : isZero.eval assignment = decide (word.eval assignment = 0) := by
      have digits := congrArg (List.all · id) (madeNegated.2 assignment)
      have clear := Digits.all_not_eq (word.map_eval_ne_nil assignment)
      rw [List.all_map] at clear
      rw [madeZero.2]
      simp only [List.all_map, Function.id_comp] at digits
      exact digits.trans clear
    have bounds := word.eval_bounds assignment
    rw [Word.eval_mk, List.map_cons, List.map_replicate, madeLowest.2, Word.eval_sign]
    dsimp only
    rw [clearIff]
    exact Digits.signed_sign _ bounds.1 bounds.2

end Build

end ModelFinder
