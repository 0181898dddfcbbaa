import Mathlib
import ModelFinder.Proofs.Circuit.Word.Addition
import ModelFinder.Proofs.Circuit.Word.Restoring
/-!
Words that are divided. The circuit does what restoring division does with the magnitudes of the
numbers; signs are taken off before and put back after.
-/

namespace ModelFinder

namespace Word

theorem extendedBits_of_le {word : Word} {width : Nat} (le : width ≤ word.width) :
    word.extendedBits width = word.bits.take width := by
  rw [extendedBits, Nat.sub_eq_zero_of_le le, List.replicate_zero, List.append_nil]

theorem extendedBits_self (word : Word) : word.extendedBits word.width = word.bits := by
  rw [extendedBits_of_le le_rfl]
  exact List.take_length

theorem unsigned_extendedBits (assignment : Nat → Bool) (word : Word) {wide : Nat}
    (le : word.width ≤ wide) :
    Digits.unsigned ((word.extendedBits wide).map (Bit.eval assignment)) =
      Digits.extended word.width wide (Digits.unsigned (word.bits.map (Bit.eval assignment))) := by
  have bounds := word.eval_bounds assignment
  have negative := word.eval_sign assignment
  have highest : word.eval assignment = Digits.unsigned (word.bits.map (Bit.eval assignment)) -
      (if word.sign.eval assignment then Digits.weight word.width else 0 : Nat) := by
    rw [eval, Digits.signed, List.getLast?_eq_some_getLast (word.map_eval_ne_nil assignment),
      ← sign_eval_eq_getLast, List.length_map]
    rfl
  have double := Digits.weight_eq_double word.width_pos
  have all : (word.bits.map (Bit.eval assignment)).length ≤ wide := by
    rw [List.length_map]
    exact le
  rw [extendedBits, List.map_append, List.map_take, List.take_of_length_le all,
    List.map_replicate, Digits.unsigned_append, List.length_map, Digits.extended]
  cases sign : word.sign.eval assignment with
  | false =>
      rw [sign] at highest
      simp only [Bool.false_eq_true, ↓reduceIte] at highest
      rw [Digits.unsigned_replicate_false, mul_zero, add_zero, if_pos (by omega)]
  | true =>
      rw [sign] at highest
      simp only [↓reduceIte] at highest
      have ones := Digits.unsigned_replicate_true (wide - word.width)
      have split : Digits.weight wide =
          Digits.weight word.width * Digits.weight (wide - word.width) := by
        rw [← Digits.weight_add, Nat.add_sub_cancel' le]
      rw [if_neg (by omega), split, ← Nat.mul_sub_one, ← ones, Nat.add_sub_cancel]
      rfl

end Word

namespace Build

variable {circuit : Circuit}

/-- One step of a division: whether the divisor fits into the remainder that the digit has
entered, and what is left. -/
def divisionStep (complement : Word) (remainder : List Bit) (incoming : Bit) :
    Build (Bit × List Bit) := do
  let shifted := Word.ofBits (incoming :: remainder.dropLast)
  let (difference, fits) ← shifted.addWithCarry complement (.const true)
  let remainder ← (shifted.bits.zip (difference.extendedBits shifted.width)).mapM
    fun pair => Build.ite fits pair.2 pair.1
  return (fits, remainder)

theorem restoringDivision_cons (complement : Word) (remainder : List Bit) (incoming : Bit)
    (rest : List Bit) :
    Word.restoringDivision complement remainder (incoming :: rest) = (do
      let (fits, remainder) ← divisionStep complement remainder incoming
      let (quotient, remainder) ← Word.restoringDivision complement remainder rest
      return (fits :: quotient, remainder)) := by
  rw [Word.restoringDivision]
  simp only [divisionStep, bind_assoc, pure_bind]

/-- What an adder with an incoming carry makes of a number and the complement of another one. -/
private theorem subtract_carry {sum seen complement divisor size : Nat} {carry : Bool}
    (adds : sum + size * carry.toNat = seen + complement + 1)
    (opposite : complement + divisor + 1 = size) (sumBound : sum < size) :
    carry = decide (divisor ≤ seen) ∧ (divisor ≤ seen → sum = seen - divisor) := by
  cases carry with
  | false =>
      rw [Bool.toNat_false, mul_zero] at adds
      rw [eq_comm, decide_eq_false_iff_not]
      omega
  | true =>
      rw [Bool.toNat_true, mul_one] at adds
      rw [eq_comm, decide_eq_true_iff]
      omega

private theorem length_enter {remainder : List Bit} (nonempty : remainder ≠ []) (incoming : Bit) :
    (incoming :: remainder.dropLast).length = remainder.length := by
  have positive := List.length_pos_iff.mpr nonempty
  rw [List.length_cons, List.length_dropLast]
  omega

private theorem unsigned_map_enter {remainder : List Bit} (nonempty : remainder ≠ [])
    (incoming : Bit) (assignment : Nat → Bool) :
    Digits.unsigned ((incoming :: remainder.dropLast).map (Bit.eval assignment)) =
      ((incoming.eval assignment).toNat +
        2 * Digits.unsigned (remainder.map (Bit.eval assignment))) %
        Digits.weight remainder.length := by
  rw [List.map_cons, List.map_dropLast, Digits.unsigned_enter _ (by simpa using nonempty),
    List.length_map]

private theorem mapIte_computes {condition : Bit} {thenBits elseBits : List Bit}
    (conditionKnown : circuit.Knows condition) (thenKnown : circuit.KnowsAll thenBits)
    (elseKnown : circuit.KnowsAll elseBits) (lengths : elseBits.length = thenBits.length) :
    ComputesBits circuit
      ((elseBits.zip thenBits).mapM fun pair => Build.ite condition pair.2 pair.1)
      fun assignment => bif condition.eval assignment then thenBits.map (Bit.eval assignment)
        else elseBits.map (Bit.eval assignment) := by
  simp only [← map_zip_choose lengths]
  refine mapM_computes fun pair member after grown => ?_
  have members := List.of_mem_zip member
  exact ite_computes (conditionKnown.mono grown) ((thenKnown _ members.2).mono grown)
    ((elseKnown _ members.1).mono grown)

/-- A step of a division does what a step on numbers does, where the divisor is the number that
the extended complement is the complement of. -/
theorem divisionStep_yields {complement : Word} {remainder : List Bit} {incoming : Bit}
    {wide : Nat} {divisor : (Nat → Bool) → Nat} (complementKnown : circuit.KnowsWord complement)
    (remainderKnown : circuit.KnowsAll remainder) (incomingKnown : circuit.Knows incoming)
    (nonempty : remainder ≠ []) (isWide : max remainder.length complement.width = wide)
    (opposite : ∀ assignment,
      Digits.unsigned ((complement.extendedBits wide).map (Bit.eval assignment)) +
        divisor assignment + 1 = Digits.weight wide) :
    Yields circuit (divisionStep complement remainder incoming) fun result after =>
      after.Knows result.1 ∧ after.KnowsAll result.2 ∧ result.2.length = remainder.length ∧
      ∀ assignment,
        (result.1.eval assignment, Digits.unsigned (result.2.map (Bit.eval assignment))) =
          Digits.restoringStep remainder.length wide (divisor assignment)
            (Digits.unsigned (remainder.map (Bit.eval assignment))) (incoming.eval assignment) := by
  have shiftedNonempty : incoming :: remainder.dropLast ≠ [] := List.cons_ne_nil _ _
  have shiftedKnown : circuit.KnowsWord ⟨_, shiftedNonempty⟩ := Circuit.knowsAll_cons.mpr
    ⟨incomingKnown, fun bit member => remainderKnown bit (List.dropLast_subset _ member)⟩
  have shiftedWidth : Word.width ⟨_, shiftedNonempty⟩ = remainder.length :=
    length_enter nonempty incoming
  have entered := unsigned_map_enter nonempty incoming
  rw [divisionStep, Word.ofBits_eq shiftedNonempty]
  generalize isShifted : Word.mk _ shiftedNonempty = shifted at shiftedKnown shiftedWidth ⊢
  have shiftedBits : shifted.bits = incoming :: remainder.dropLast := by rw [← isShifted]
  rw [← shiftedBits] at entered
  refine Yields.bind (addWithCarry_yields shiftedKnown complementKnown (.const true))
    fun ⟨difference, fits⟩ middle grown made => ?_
  rcases made with ⟨differenceKnown, fitsKnown, width, adds⟩
  dsimp only at differenceKnown fitsKnown width adds ⊢
  rw [shiftedWidth, isWide] at width
  have narrower : shifted.width ≤ wide := by rw [shiftedWidth, ← isWide]; exact le_max_left ..
  rw [Word.extendedBits_of_le (narrower.trans width.ge)]
  have lengths : shifted.bits.length = (difference.bits.take shifted.width).length := by
    rw [List.length_take]
    change shifted.width = min shifted.width difference.width
    omega
  have takenKnown : middle.KnowsAll (difference.bits.take shifted.width) :=
    fun bit member => differenceKnown bit (List.mem_of_mem_take member)
  refine Yields.bind (mapIte_computes fitsKnown takenKnown (shiftedKnown.mono grown) lengths)
    fun next after grown' madeNext => Yields.pure ?_
  rcases madeNext with ⟨nextKnown, chosen⟩
  dsimp only at chosen
  refine ⟨fitsKnown.mono grown', nextKnown, ?_, fun assignment => ?_⟩
  · have length := congrArg List.length (chosen fun _ => true)
    rw [List.length_map, ← map_zip_choose lengths, List.length_map, List.length_zip, ← lengths,
      min_self] at length
    exact length.trans shiftedWidth
  · have sums := adds assignment
    have sumBound := Digits.unsigned_lt (difference.bits.map (Bit.eval assignment))
    rw [List.length_map] at sumBound
    change _ < Digits.weight difference.width at sumBound
    rw [width] at sums sumBound
    have taken := subtract_carry sums (opposite assignment) sumBound
    rw [Word.unsigned_extendedBits assignment shifted narrower, shiftedWidth,
      entered assignment] at taken
    rw [chosen, Digits.restoringStep, taken.1]
    split
    · rename_i fitting
      rw [decide_eq_true fitting, cond_true, List.map_take, Digits.unsigned_take, shiftedWidth,
        taken.2 fitting]
    · rename_i larger
      rw [decide_eq_false larger, cond_false, entered assignment]

theorem restoringDivision_yields {complement : Word} {remainder incoming : List Bit}
    {wide : Nat} {divisor : (Nat → Bool) → Nat} (complementKnown : circuit.KnowsWord complement)
    (remainderKnown : circuit.KnowsAll remainder) (incomingKnown : circuit.KnowsAll incoming)
    (nonempty : remainder ≠ []) (isWide : max remainder.length complement.width = wide)
    (opposite : ∀ assignment,
      Digits.unsigned ((complement.extendedBits wide).map (Bit.eval assignment)) +
        divisor assignment + 1 = Digits.weight wide) :
    Yields circuit (Word.restoringDivision complement remainder incoming) fun result after =>
      after.KnowsAll result.1 ∧ after.KnowsAll result.2 ∧
      result.1.length = incoming.length ∧ result.2.length = remainder.length ∧
      ∀ assignment,
        (result.1.map (Bit.eval assignment),
          Digits.unsigned (result.2.map (Bit.eval assignment))) =
          Digits.restoring remainder.length wide (divisor assignment)
            (Digits.unsigned (remainder.map (Bit.eval assignment)))
            (incoming.map (Bit.eval assignment)) := by
  induction incoming generalizing circuit remainder with
  | nil => exact Yields.pure ⟨Circuit.knowsAll_nil, remainderKnown, rfl, rfl, fun _ => rfl⟩
  | cons first rest hypothesis =>
      rw [Circuit.knowsAll_cons] at incomingKnown
      rw [restoringDivision_cons]
      refine Yields.bind (divisionStep_yields complementKnown remainderKnown incomingKnown.1
        nonempty isWide opposite) fun result middle grown made => ?_
      rcases result with ⟨fits, next⟩
      rcases made with ⟨fitsKnown, nextKnown, nextLength, step⟩
      dsimp only at fitsKnown nextKnown nextLength step ⊢
      have nextNonempty : next ≠ [] :=
        List.length_pos_iff.mp (nextLength ▸ List.length_pos_iff.mpr nonempty)
      refine Yields.bind (hypothesis (complementKnown.mono grown) nextKnown
        (incomingKnown.2.mono grown) nextNonempty (nextLength ▸ isWide))
        fun result after grown' madeRest => Yields.pure ?_
      rcases result with ⟨quotient, last⟩
      rcases madeRest with ⟨quotientKnown, lastKnown, quotientLength, lastLength, rests⟩
      refine ⟨Circuit.knowsAll_cons.mpr ⟨fitsKnown.mono grown', quotientKnown⟩, lastKnown,
        by simp [quotientLength], lastLength.trans nextLength, fun assignment => ?_⟩
      have digit := step assignment
      have digits := rests assignment
      rw [nextLength] at digits
      rw [List.map_cons, List.map_cons, Digits.restoring, ← digit, ← digits]

/-! Division of signed numbers -/

theorem unsigned_natAbs {word source : Word} {assignment : Nat → Bool}
    (same : word.width = source.width)
    (value : word.eval assignment =
      Int.bmod (source.eval assignment).natAbs (Digits.weight source.width)) :
    Digits.unsigned (word.bits.map (Bit.eval assignment)) = (source.eval assignment).natAbs := by
  have positive := source.width_pos
  have bounds := source.eval_bounds assignment
  have double := Digits.weight_eq_double positive
  have below := Digits.unsigned_lt (word.bits.map (Bit.eval assignment))
  rw [List.length_map] at below
  change _ < Digits.weight word.width at below
  have size := Digits.weight_pos (source.width - 1)
  rw [Word.eval_eq_bmod] at value
  rw [same] at value below
  have remainders := congrArg (fun number => number % (Digits.weight source.width : Int)) value
  simp only [Int.bmod_emod] at remainders
  rw [Int.emod_eq_of_lt (by omega) (by omega), Int.emod_eq_of_lt (by omega) (by omega)]
    at remainders
  omega

private theorem signed_quotient (dividend divisor : Int) :
    (bif decide (dividend < 0) ^^ decide (divisor < 0)
      then -((dividend.natAbs / divisor.natAbs : Nat) : Int)
      else ((dividend.natAbs / divisor.natAbs : Nat) : Int)) = dividend.tdiv divisor := by
  have natural (value : Nat) : decide ((value : Int) < 0) = false := by simp
  have negative (value : Nat) : decide (Int.negSucc value < 0) = true := by simp
  cases dividend <;> cases divisor <;>
    simp only [Int.ofNat_eq_natCast, natural, negative, Int.tdiv, Bool.xor_false, Bool.xor_self,
      cond_true, cond_false, Int.natAbs_natCast, Int.natAbs_negSucc, Bool.xor_true,
      Bool.not_false, Int.natCast_ediv, Nat.succ_eq_add_one]

private theorem quotient_signs (width other : Nat) (dividend : Int) {divisor : Int}
    (nonzero : divisor ≠ 0) :
    (bif decide (dividend < 0) ^^ decide (divisor < 0)
      then -((Digits.quotient width other dividend divisor).natAbs : Int)
      else ((Digits.quotient width other dividend divisor).natAbs : Int)) =
        Digits.quotient width other dividend divisor := by
  rw [Digits.natAbs_quotient width other dividend nonzero, Digits.quotient]
  split
  · rename_i missed
    split
    · rw [Nat.cast_zero, neg_zero, Bool.cond_self]
    · have half := Digits.weight_pos (width - 1)
      have negative : dividend < 0 := by
        rcases missed with narrower | smallest
        · omega
        · omega
      rw [decide_eq_true negative]
      rcases lt_or_gt_of_ne nonzero with below | above
      · simp [below, Int.sign_eq_neg_one_of_neg below]
      · simp [not_lt.mpr above.le, Int.sign_eq_one_of_pos above]
  · exact signed_quotient dividend divisor

private theorem remainder_signs (dividend divisor quotient : Int)
    (signs : (bif decide (dividend < 0) ^^ decide (divisor < 0)
      then -(quotient.natAbs : Int) else (quotient.natAbs : Int)) = quotient) :
    (bif decide (dividend < 0)
      then -((dividend.natAbs : Int) - divisor.natAbs * quotient.natAbs)
      else (dividend.natAbs : Int) - divisor.natAbs * quotient.natAbs) =
        dividend - divisor * quotient := by
  conv_rhs => rw [← signs]
  generalize (quotient.natAbs : Int) = taken
  rw [Int.natCast_natAbs, Int.natCast_natAbs]
  rcases lt_or_ge dividend 0 with below | above <;>
    rcases lt_or_ge divisor 0 with below' | above' <;>
    simp only [*, decide_true, decide_false, not_lt.mpr, Bool.xor_self, Bool.xor_false,
      Bool.xor_true, Bool.not_false, cond_true, cond_false, abs_of_neg, abs_of_nonneg] <;>
    ring

private theorem bmod_negateIf (negated : Bool) (value : Int) (size : Nat) :
    Int.bmod (bif negated then -Int.bmod value size else Int.bmod value size) size =
      Int.bmod (bif negated then -value else value) size := by
  cases negated with
  | false => exact Int.bmod_bmod
  | true => exact Int.bmod_neg_bmod

def divideMagnitudes (left right : Word) : Build (List Bit × List Bit) := do
  let dividend ← left.abs
  let divisor ← right.abs
  let complement ← divisor.not
  Word.restoringDivision complement (List.replicate left.width (.const false))
    dividend.bits.reverse

theorem divideWithRemainder_eq (left right : Word) :
    left.divideWithRemainder right = (do
      let (quotient, remainder) ← divideMagnitudes left right
      let signsDiffer ← Build.xor left.sign right.sign
      let quotient ← (Word.ofBits quotient.reverse).negateIf signsDiffer
      let remainder ← (Word.ofBits remainder).negateIf left.sign
      return (quotient, remainder)) := by
  rw [Word.divideWithRemainder]
  simp only [divideMagnitudes, bind_assoc]

theorem divideMagnitudes_yields {left right : Word} (leftKnown : circuit.KnowsWord left)
    (rightKnown : circuit.KnowsWord right) :
    Yields circuit (divideMagnitudes left right) fun result after =>
      after.KnowsAll result.1 ∧ after.KnowsAll result.2 ∧
      result.1.length = left.width ∧ result.2.length = left.width ∧
      ∀ assignment, right.eval assignment ≠ 0 →
        let taken := (Digits.quotient left.width right.width (left.eval assignment)
          (right.eval assignment)).natAbs
        Digits.unsigned (result.1.reverse.map (Bit.eval assignment)) = taken ∧
        Int.bmod (Digits.unsigned (result.2.map (Bit.eval assignment)))
            (Digits.weight left.width) =
          Int.bmod ((left.eval assignment).natAbs - (right.eval assignment).natAbs * taken)
            (Digits.weight left.width) := by
  rw [divideMagnitudes]
  refine Yields.bind (abs_computes leftKnown) fun dividend first grownFirst madeDividend => ?_
  refine Yields.bind (abs_computes (rightKnown.mono grownFirst))
    fun divisor second grownSecond madeDivisor => ?_
  rcases madeDividend with ⟨dividendKnown, dividendWidth, dividendValue⟩
  rcases madeDivisor with ⟨divisorKnown, divisorWidth, divisorValue⟩
  refine Yields.bind (wordNot_yields divisorKnown) fun complement third grownThird madeNot => ?_
  rcases madeNot with ⟨complementKnown, complementWidth, complementDigits⟩
  have width : complement.width = right.width := complementWidth.trans divisorWidth
  have opposite : ∀ assignment,
      Digits.unsigned ((complement.extendedBits (max left.width right.width)).map
          (Bit.eval assignment)) +
        Digits.seenDivisor left.width right.width (right.eval assignment) + 1 =
          Digits.weight (max left.width right.width) := by
    intro assignment
    have bounds := right.eval_bounds assignment
    have sum := Digits.unsigned_not (divisor.bits.map (Bit.eval assignment))
    rw [← complementDigits, unsigned_natAbs divisorWidth (divisorValue assignment),
      List.length_map] at sum
    change _ = Digits.weight divisor.width at sum
    rw [divisorWidth] at sum
    rw [Word.unsigned_extendedBits assignment complement (width.trans_le (le_max_right ..)), width]
    exact Digits.extended_complement right.width_pos bounds.1 bounds.2 sum
  have dividendAfter : third.KnowsAll dividend.bits :=
    (dividendKnown.mono grownSecond).mono grownThird
  refine Yields.weaken (restoringDivision_yields complementKnown
    (Circuit.knowsAll_replicate (.const false) left.width)
    (fun bit member => dividendAfter bit (List.mem_reverse.mp member))
    (List.length_pos_iff.mp (by simpa using left.width_pos)) (by simp [width]) opposite)
    fun result after _ madeDivision => ?_
  rcases madeDivision with ⟨quotientKnown, remainderKnown, quotientLength, remainderLength,
    divides⟩
  rw [List.length_reverse] at quotientLength
  rw [List.length_replicate] at remainderLength divides
  refine ⟨quotientKnown, remainderKnown, quotientLength.trans dividendWidth, remainderLength,
    fun assignment nonzero => ?_⟩
  have dividendBounds := left.eval_bounds assignment
  have divisorBounds := right.eval_bounds assignment
  have magnitudes : Digits.Magnitudes left.width right.width (left.eval assignment)
      (right.eval assignment) (dividend.bits.reverse.map (Bit.eval assignment)) :=
    { positive := left.width_pos
      positive' := right.width_pos
      dividendLower := dividendBounds.1
      dividendUpper := dividendBounds.2
      divisorLower := divisorBounds.1
      divisorUpper := divisorBounds.2
      nonzero := nonzero
      length := by
        rw [List.length_map, List.length_reverse]
        exact dividendWidth
      isDividend := by
        rw [List.map_reverse, List.reverse_reverse]
        exact unsigned_natAbs dividendWidth (dividendValue assignment) }
  have digits := divides assignment
  rw [List.map_replicate, Bit.eval, Digits.unsigned_replicate_false] at digits
  rcases Prod.ext_iff.mp digits with ⟨quotientDigits, remainderDigits⟩
  dsimp only at quotientDigits remainderDigits
  rw [List.map_reverse, quotientDigits, remainderDigits]
  exact magnitudes.divided

/-- Magnitudes are divided and the signs put back. -/
theorem divideWithRemainder_yields {left right : Word} (leftKnown : circuit.KnowsWord left)
    (rightKnown : circuit.KnowsWord right) :
    Yields circuit (left.divideWithRemainder right) fun result after =>
      after.KnowsWord result.1 ∧ after.KnowsWord result.2 ∧
      result.1.width = left.width ∧ result.2.width = left.width ∧
      ∀ assignment, right.eval assignment ≠ 0 →
        let quotient := Digits.quotient left.width right.width (left.eval assignment)
          (right.eval assignment)
        result.1.eval assignment = Int.bmod quotient (Digits.weight left.width) ∧
        result.2.eval assignment =
          Int.bmod (left.eval assignment - right.eval assignment * quotient)
            (Digits.weight left.width) := by
  rw [divideWithRemainder_eq]
  refine Yields.bind (divideMagnitudes_yields leftKnown rightKnown)
    fun ⟨quotient, remainder⟩ first grownFirst madeDivision => ?_
  rcases madeDivision with ⟨quotientKnown, remainderKnown, quotientLength, remainderLength,
    divides⟩
  dsimp only at quotientKnown remainderKnown quotientLength remainderLength divides ⊢
  refine Yields.bind (xor_computes (leftKnown.mono grownFirst).sign
    (rightKnown.mono grownFirst).sign) fun signsDiffer second grownSecond madeSigns => ?_
  have positive := left.width_pos
  have quotientNonempty : quotient.reverse ≠ [] := by
    apply List.length_pos_iff.mp
    rw [List.length_reverse]
    omega
  have remainderNonempty : remainder ≠ [] := List.length_pos_iff.mp (by omega)
  rw [Word.ofBits_eq quotientNonempty, Word.ofBits_eq remainderNonempty]
  have quotientWord : second.KnowsWord ⟨_, quotientNonempty⟩ :=
    fun bit member => (quotientKnown bit (List.mem_reverse.mp member)).mono grownSecond
  refine Yields.bind (negateIf_computes madeSigns.1 quotientWord)
    fun signedQuotient third grownThird madeQuotient => ?_
  have remainderWord : third.KnowsWord ⟨_, remainderNonempty⟩ :=
    fun bit member => ((remainderKnown bit member).mono grownSecond).mono grownThird
  have leftSign := (((leftKnown.mono grownFirst).mono grownSecond).mono grownThird).sign
  refine Yields.bind (negateIf_computes leftSign remainderWord)
    fun signedRemainder last grownLast madeRemainder => Yields.pure ?_
  rcases madeQuotient with ⟨signedQuotientKnown, signedQuotientWidth, quotientValue⟩
  rcases madeRemainder with ⟨signedRemainderKnown, signedRemainderWidth, remainderValue⟩
  have quotientWidth : Word.width ⟨_, quotientNonempty⟩ = left.width := by
    rw [Word.width_mk, List.length_reverse, quotientLength]
  have remainderWidth : Word.width ⟨_, remainderNonempty⟩ = left.width := by
    rw [Word.width_mk, remainderLength]
  rw [quotientWidth] at signedQuotientWidth quotientValue
  rw [remainderWidth] at signedRemainderWidth remainderValue
  refine ⟨signedQuotientKnown.mono grownLast, signedRemainderKnown, signedQuotientWidth,
    signedRemainderWidth, fun assignment nonzero => ?_⟩
  rcases divides assignment nonzero with ⟨quotientDigits, remainderDigits⟩
  have signs := madeSigns.2 assignment
  dsimp only at signs
  rw [quotientValue, remainderValue]
  dsimp only
  rw [signs, Word.eval_sign, Word.eval_sign, Word.eval_eq_bmod assignment ⟨_, quotientNonempty⟩,
    Word.eval_eq_bmod assignment ⟨_, remainderNonempty⟩, quotientWidth, remainderWidth]
  have quotientSigns := quotient_signs left.width right.width (left.eval assignment) nonzero
  dsimp only
  rw [quotientDigits, remainderDigits, bmod_negateIf, bmod_negateIf, quotientSigns,
    remainder_signs _ _ _ quotientSigns]
  exact ⟨rfl, rfl⟩

theorem divide_quotient_yields {left right : Word} (leftKnown : circuit.KnowsWord left)
    (rightKnown : circuit.KnowsWord right) :
    Yields circuit (left.divide right) fun word after =>
      after.KnowsWord word ∧ word.width = left.width ∧
      ∀ assignment, right.eval assignment ≠ 0 → word.eval assignment =
        Int.bmod (Digits.quotient left.width right.width (left.eval assignment)
          (right.eval assignment)) (Digits.weight left.width) :=
  Yields.bind (divideWithRemainder_yields leftKnown rightKnown) fun _ _ _ made =>
    Yields.pure ⟨made.1, made.2.2.1, fun assignment nonzero =>
      (made.2.2.2.2 assignment nonzero).1⟩

theorem modulo_quotient_yields {left right : Word} (leftKnown : circuit.KnowsWord left)
    (rightKnown : circuit.KnowsWord right) :
    Yields circuit (left.modulo right) fun word after =>
      after.KnowsWord word ∧ word.width = left.width ∧
      ∀ assignment, right.eval assignment ≠ 0 → word.eval assignment =
        Int.bmod (left.eval assignment - right.eval assignment *
          Digits.quotient left.width right.width (left.eval assignment) (right.eval assignment))
          (Digits.weight left.width) :=
  Yields.bind (divideWithRemainder_yields leftKnown rightKnown) fun _ _ _ made =>
    Yields.pure ⟨made.2.1, made.2.2.2.1, fun assignment nonzero =>
      (made.2.2.2.2 assignment nonzero).2⟩

theorem divide_yields {left right : Word} (leftKnown : circuit.KnowsWord left)
    (rightKnown : circuit.KnowsWord right) (same : left.width = right.width) :
    Yields circuit (left.divide right) fun word after =>
      after.KnowsWord word ∧ word.width = left.width ∧
      ∀ assignment, right.eval assignment ≠ 0 → word.eval assignment =
        Int.bmod ((left.eval assignment).tdiv (right.eval assignment))
          (Digits.weight left.width) := by
  have yields := divide_quotient_yields leftKnown rightKnown
  simp only [← same, Digits.quotient_self] at yields
  exact yields

theorem modulo_yields {left right : Word} (leftKnown : circuit.KnowsWord left)
    (rightKnown : circuit.KnowsWord right) (same : left.width = right.width) :
    Yields circuit (left.modulo right) fun word after =>
      after.KnowsWord word ∧ word.width = left.width ∧
      ∀ assignment, right.eval assignment ≠ 0 → word.eval assignment =
        Int.bmod ((left.eval assignment).tmod (right.eval assignment))
          (Digits.weight left.width) := by
  have yields := modulo_quotient_yields leftKnown rightKnown
  simp only [← same, Digits.quotient_self, ← Int.tmod_def] at yields
  exact yields

end Build

end ModelFinder
