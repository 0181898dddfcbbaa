import Mathlib
import ModelFinder.Proofs.Digits
/-!
Restoring division of numbers. The digits of a dividend enter a remainder one by one, and the
divisor is taken away wherever it fits; the digits that come out are those of the quotient.

The remainder has the digits of the dividend's width. Where the divisor has a width of its own, it
is taken away in the wider one, for which the narrower number is extended by its highest digit.
Magnitudes have no sign, so the smallest number of the narrower width, whose magnitude has that
digit, is read as another number there.
-/

namespace ModelFinder

namespace Digits

theorem unsigned_enter (digit : Bool) {digits : List Bool} (nonempty : digits ≠ []) :
    unsigned (digit :: digits.dropLast) =
      (digit.toNat + 2 * unsigned digits) % weight digits.length := by
  rcases Nat.exists_eq_succ_of_ne_zero (List.length_pos_iff.mpr nonempty).ne' with ⟨rest, isLength⟩
  have bound := Bool.toNat_le digit
  rw [unsigned_cons, List.dropLast_eq_take, unsigned_take, isLength, Nat.succ_eq_add_one,
    Nat.add_sub_cancel, weight_succ]
  have split := Nat.div_add_mod (unsigned digits) (weight rest)
  have below := Nat.mod_lt (unsigned digits) (weight_pos rest)
  symm
  calc (digit.toNat + 2 * unsigned digits) % (2 * weight rest)
      = (digit.toNat + 2 * (unsigned digits % weight rest) +
          2 * weight rest * (unsigned digits / weight rest)) % (2 * weight rest) := by
        congr 1
        linarith
    _ = digit.toNat + 2 * (unsigned digits % weight rest) := by
        rw [Nat.add_mul_mod_self_left, Nat.mod_eq_of_lt (by omega)]

/-- The number that digits without sign become where they are extended by the highest one. -/
def extended (width wide number : Nat) : Nat :=
  if number < weight (width - 1) then number else number + (weight wide - weight width)

theorem extended_of_lt {width number : Nat} (free : number < weight (width - 1)) (wide : Nat) :
    extended width wide number = number := if_pos free

@[simp] theorem extended_self (width number : Nat) : extended width width number = number := by
  rw [extended, Nat.sub_self, add_zero, ite_self]

theorem extended_sub_mod {width wide number : Nat} (le : width ≤ wide) {less : Nat}
    (fits : less ≤ number) :
    (extended width wide number - less) % weight width = (number - less) % weight width := by
  rw [extended]
  split
  · rfl
  · have multiple : weight wide - weight width = weight width * (weight (wide - width) - 1) := by
      rw [Nat.mul_sub_one, ← weight_add, Nat.add_sub_cancel' le]
    rw [multiple, Nat.sub_add_comm fits, Nat.add_mul_mod_self_left]

/-! Restoring division of numbers -/

/-- A digit enters the remainder, and the divisor is taken away if it fits into the number that
the extended remainder is. -/
def restoringStep (width wide divisor remainder : Nat) (digit : Bool) : Bool × Nat :=
  let shifted := (digit.toNat + 2 * remainder) % weight width
  if divisor ≤ extended width wide shifted then
    (true, (extended width wide shifted - divisor) % weight width)
  else (false, shifted)

def restoring (width wide divisor remainder : Nat) : List Bool → List Bool × Nat
  | [] => ([], remainder)
  | digit :: rest =>
    let step := restoringStep width wide divisor remainder digit
    let last := restoring width wide divisor step.2 rest
    (step.1 :: last.1, last.2)

@[simp] theorem length_restoring (width wide divisor remainder : Nat) (digits : List Bool) :
    (restoring width wide divisor remainder digits).1.length = digits.length := by
  induction digits generalizing remainder with
  | nil => rfl
  | cons digit rest hypothesis =>
      rw [restoring]
      simp only [List.length_cons, hypothesis]

/-- What is divided where a remainder is continued by digits, most significant first. -/
def continued (remainder : Nat) (digits : List Bool) : Nat :=
  weight digits.length * remainder + unsigned digits.reverse

theorem continued_cons (remainder : Nat) (digit : Bool) (rest : List Bool) :
    continued remainder (digit :: rest) = continued (digit.toNat + 2 * remainder) rest := by
  simp only [continued, List.reverse_cons, unsigned_append, List.length_reverse, List.length_cons,
    weight_succ, unsigned_cons, unsigned_nil]
  ring

theorem le_continued (remainder : Nat) (digits : List Bool) :
    remainder ≤ continued remainder digits :=
  (Nat.le_mul_of_pos_left _ (weight_pos _)).trans (Nat.le_add_right _ _)

theorem continued_mono {first second : Nat} (le : first ≤ second) (digits : List Bool) :
    continued first digits ≤ continued second digits :=
  Nat.add_le_add_right (Nat.mul_le_mul_left _ le) _

section

variable {width wide divisor remainder : Nat} (positive : 0 < width)

include positive

theorem weight_eq_double : weight width = 2 * weight (width - 1) := by
  rw [← weight_succ, Nat.sub_add_cancel positive]

private theorem enter_mod {number : Nat} (bounded : number ≤ weight (width - 1)) :
    number % weight width = number := by
  have half := weight_pos (width - 1)
  exact Nat.mod_eq_of_lt (by rw [weight_eq_double positive]; omega)

/-- A step is exact as long as the highest digit is free, and where it is not if there is
nothing to extend or the divisor fits anyway. -/
theorem restoringStep_divides (le : width ≤ wide) {digit : Bool} (below : remainder < divisor)
    (bounded : digit.toNat + 2 * remainder ≤ weight (width - 1))
    (exact : wide = width ∨ divisor ≤ weight (width - 1) ∨
      digit.toNat + 2 * remainder < weight (width - 1)) :
    let step := restoringStep width wide divisor remainder digit
    digit.toNat + 2 * remainder = step.1.toNat * divisor + step.2 ∧ step.2 < divisor := by
  have digitBound := Bool.toNat_le digit
  rw [restoringStep, enter_mod positive bounded]
  have less : digit.toNat + 2 * remainder < 2 * divisor := by omega
  generalize digit.toNat + 2 * remainder = shifted at *
  have fitting : divisor ≤ extended width wide shifted ↔ divisor ≤ shifted := by
    rcases exact with rfl | small | free
    · rw [extended_self]
    · rw [extended]
      split <;> omega
    · rw [extended_of_lt free]
  dsimp only
  split
  · rename_i fits
    rw [fitting] at fits
    rw [extended_sub_mod le fits, enter_mod positive (by omega), Bool.toNat_true]
    omega
  · rename_i larger
    rw [fitting] at larger
    rw [Bool.toNat_false]
    omega

/-- Exact steps divide. -/
theorem restoring_divides (le : width ≤ wide) {digits : List Bool} (below : remainder < divisor)
    (bounded : continued remainder digits ≤ weight (width - 1))
    (exact : wide = width ∨ divisor ≤ weight (width - 1) ∨
      continued remainder digits < weight (width - 1)) :
    let result := restoring width wide divisor remainder digits
    continued remainder digits = unsigned result.1.reverse * divisor + result.2 ∧
      result.2 < divisor := by
  induction digits generalizing remainder with
  | nil => simpa [restoring, continued] using below
  | cons digit rest hypothesis =>
      rw [continued_cons] at bounded exact ⊢
      have entered := le_continued (digit.toNat + 2 * remainder) rest
      have step := restoringStep_divides positive le below (entered.trans bounded)
        (exact.imp_right (Or.imp_right entered.trans_lt))
      rw [restoring]
      generalize restoringStep width wide divisor remainder digit = taken at step ⊢
      rcases taken with ⟨fits, next⟩
      dsimp only at step ⊢
      have smaller : continued next rest ≤ continued (digit.toNat + 2 * remainder) rest :=
        continued_mono (by omega) rest
      have divided := hypothesis step.2 (smaller.trans bounded)
        (exact.imp_right (Or.imp_right smaller.trans_lt))
      refine ⟨?_, divided.2⟩
      rw [List.reverse_cons, unsigned_append, List.length_reverse, length_restoring, unsigned_cons,
        unsigned_nil, step.1]
      have rests := divided.1
      rw [continued] at rests ⊢
      linarith

theorem restoring_eq_div_mod (le : width ≤ wide) {digits : List Bool}
    (below : remainder < divisor) (bounded : continued remainder digits ≤ weight (width - 1))
    (exact : wide = width ∨ divisor ≤ weight (width - 1) ∨
      continued remainder digits < weight (width - 1)) :
    unsigned (restoring width wide divisor remainder digits).1.reverse =
        continued remainder digits / divisor ∧
      (restoring width wide divisor remainder digits).2 =
        continued remainder digits % divisor := by
  rcases restoring_divides positive le below bounded exact with ⟨equal, less⟩
  constructor
  · rw [equal, add_comm, Nat.add_mul_div_right _ _ (by omega), Nat.div_eq_of_lt less, zero_add]
  · rw [equal, add_comm, Nat.add_mul_mod_self_right, Nat.mod_eq_of_lt less]

/-- Where only the last digit fills the highest one, and the divisor is larger than that number,
the divisor is taken away from the extended number nevertheless, once. -/
theorem restoring_slips (less : width < wide) (large : weight (width - 1) < divisor)
    (fitting : divisor ≤ weight wide - weight (width - 1)) {digits : List Bool}
    (nonempty : digits ≠ []) (total : continued remainder digits = weight (width - 1)) :
    unsigned (restoring width wide divisor remainder digits).1.reverse = 1 ∧
      (restoring width wide divisor remainder digits).2 =
        (weight wide - weight (width - 1) - divisor) % weight width := by
  have half := weight_pos (width - 1)
  have double := weight_eq_double positive
  have grown : weight width ≤ weight wide := weight_mono less.le
  induction digits generalizing remainder with
  | nil => exact absurd rfl nonempty
  | cons digit rest hypothesis =>
      rw [continued_cons] at total
      rw [restoring, restoringStep, enter_mod positive (total ▸ le_continued _ rest)]
      generalize digit.toNat + 2 * remainder = shifted at total ⊢
      cases rest with
      | nil =>
          have top : shifted = weight (width - 1) := by simpa [continued] using total
          have read : extended width wide shifted = weight wide - weight (width - 1) := by
            rw [extended, if_neg (by omega)]
            omega
          simp [restoring, read, fitting]
      | cons second others =>
          have doubled : 2 * shifted ≤ weight (width - 1) := by
            rw [continued_cons] at total
            have := le_continued (second.toNat + 2 * shifted) others
            omega
          have rests := hypothesis (List.cons_ne_nil _ _) total
          rw [extended_of_lt (by omega), if_neg (by omega)]
          refine ⟨?_, rests.2⟩
          simpa [unsigned_append] using rests.1

end

/-! Magnitudes -/

/-- The cases in which words of different widths are divided wrongly. Either the divisor is the
smallest number of a narrower word, whose magnitude is extended to a number that never fits, or
the dividend is the smallest number of a narrower word and the larger divisor is taken away from
its extended magnitude. -/
def Misdivided (width other : Nat) (dividend divisor : Int) : Prop :=
  (other < width ∧ divisor = -weight (other - 1) ∧ divisor.natAbs ≤ dividend.natAbs) ∨
    (width < other ∧ dividend = -weight (width - 1) ∧ dividend.natAbs < divisor.natAbs)

instance (width other : Nat) (dividend divisor : Int) :
    Decidable (Misdivided width other dividend divisor) :=
  inferInstanceAs (Decidable (_ ∨ _))

def quotient (width other : Nat) (dividend divisor : Int) : Int :=
  if Misdivided width other dividend divisor then if other < width then 0 else -divisor.sign
  else dividend.tdiv divisor

theorem quotient_of_not {width other : Nat} {dividend divisor : Int}
    (right : ¬ Misdivided width other dividend divisor) :
    quotient width other dividend divisor = dividend.tdiv divisor := if_neg right

@[simp] theorem quotient_self (width : Nat) (dividend divisor : Int) :
    quotient width width dividend divisor = dividend.tdiv divisor :=
  quotient_of_not fun missed => missed.elim (fun case => lt_irrefl _ case.1)
    fun case => lt_irrefl _ case.1

theorem natAbs_quotient (width other : Nat) (dividend : Int) {divisor : Int}
    (nonzero : divisor ≠ 0) : (quotient width other dividend divisor).natAbs =
      if Misdivided width other dividend divisor then if other < width then 0 else 1
      else dividend.natAbs / divisor.natAbs := by
  rw [quotient]
  split
  · split
    · rfl
    · rw [Int.natAbs_neg, Int.natAbs_sign_of_ne_zero nonzero]
  · exact Int.natAbs_tdiv ..

/-- The magnitude of a divisor of `other` digits as a division of `width` digits reads it. -/
def seenDivisor (width other : Nat) (divisor : Int) : Nat :=
  if other < width ∧ divisor = -weight (other - 1) then weight width - weight (other - 1)
  else divisor.natAbs

variable {width other : Nat} {dividend divisor : Int}

theorem extended_complement (positive : 0 < other)
    (lower : -(weight (other - 1) : Int) ≤ divisor) (upper : divisor < weight (other - 1))
    {complement : Nat} (opposite : complement + divisor.natAbs + 1 = weight other) :
    extended other (max width other) complement + seenDivisor width other divisor + 1 =
      weight (max width other) := by
  have double := weight_eq_double positive
  have wider : weight other ≤ weight (max width other) := weight_mono (le_max_right ..)
  rw [extended, seenDivisor]
  by_cases smallest : divisor = -weight (other - 1)
  · rw [if_pos (by omega)]
    by_cases narrower : other < width
    · rw [if_pos ⟨narrower, smallest⟩, max_eq_left narrower.le]
      rw [max_eq_left narrower.le] at wider
      omega
    · rw [if_neg (fun both => narrower both.1), max_eq_right (not_lt.mp narrower)]
      exact opposite
  · rw [if_neg (by omega), if_neg (fun both => smallest both.2)]
    omega

/-- The numbers of two words, the second of which is not zero, and the digits of the magnitude of
the first one, most significant first. -/
structure Magnitudes (width other : Nat) (dividend divisor : Int) (digits : List Bool) :
    Prop where
  positive : 0 < width
  positive' : 0 < other
  dividendLower : -(weight (width - 1) : Int) ≤ dividend
  dividendUpper : dividend < weight (width - 1)
  divisorLower : -(weight (other - 1) : Int) ≤ divisor
  divisorUpper : divisor < weight (other - 1)
  nonzero : divisor ≠ 0
  length : digits.length = width
  isDividend : unsigned digits.reverse = dividend.natAbs

namespace Magnitudes

variable {digits : List Bool} (magnitudes : Magnitudes width other dividend divisor digits)

include magnitudes

theorem total : continued 0 digits = dividend.natAbs := by
  rw [continued, mul_zero, zero_add, magnitudes.isDividend]

theorem bounded : continued 0 digits ≤ weight (width - 1) := by
  have lower := magnitudes.dividendLower
  have upper := magnitudes.dividendUpper
  rw [magnitudes.total]
  omega

/-- The smallest divisor of a narrower word is read as a number that is larger than every
magnitude. -/
theorem never (smallest : other < width ∧ divisor = -weight (other - 1)) :
    let result := restoring width (max width other) (seenDivisor width other divisor) 0 digits
    unsigned result.1.reverse = 0 ∧ result.2 = dividend.natAbs := by
  intro result
  have double := weight_eq_double magnitudes.positive
  have double' := weight_eq_double magnitudes.positive'
  have bounded := magnitudes.bounded
  have grown : weight other ≤ weight (width - 1) := weight_mono (by omega)
  have half := weight_pos (other - 1)
  have larger : weight (width - 1) < seenDivisor width other divisor := by
    rw [seenDivisor, if_pos smallest]
    omega
  have divided : unsigned result.1.reverse = _ ∧ result.2 = _ :=
    restoring_eq_div_mod magnitudes.positive (le_max_left ..) (by omega) bounded
      (.inl (max_eq_left smallest.1.le))
  rwa [Nat.div_eq_of_lt (by omega), Nat.mod_eq_of_lt (by omega), magnitudes.total] at divided

/-- A larger divisor is taken away once from the smallest dividend of a narrower word. -/
theorem once (smallest : width < other ∧ dividend = -weight (width - 1) ∧
      dividend.natAbs < divisor.natAbs) :
    let result := restoring width (max width other) (seenDivisor width other divisor) 0 digits
    unsigned result.1.reverse = 1 ∧ Int.bmod result.2 (weight width) =
      Int.bmod (dividend.natAbs - divisor.natAbs) (weight width) := by
  intro result
  have positive := magnitudes.positive
  have double := weight_eq_double positive
  have double' := weight_eq_double magnitudes.positive'
  have lower := magnitudes.divisorLower
  have upper := magnitudes.divisorUpper
  have length := magnitudes.length
  have grown : weight (width - 1) ≤ weight (other - 1) := weight_mono (by omega)
  have isWide : max width other = other := max_eq_right smallest.1.le
  have seen : seenDivisor width other divisor = divisor.natAbs :=
    if_neg fun both => both.1.not_gt smallest.1
  have slipped : unsigned result.1.reverse = 1 ∧ result.2 = _ :=
    restoring_slips positive (by omega) (by omega) (by rw [isWide]; omega)
      (List.length_pos_iff.mp (by omega)) (magnitudes.total.trans (by omega))
  refine ⟨slipped.1, ?_⟩
  have split : (weight other : Int) = weight width * weight (other - width) := by
    rw [← Nat.cast_mul, ← weight_add, Nat.add_sub_cancel' smallest.1.le]
  have number : ((weight other - weight (width - 1) - divisor.natAbs : Nat) : Int) =
      dividend.natAbs - divisor.natAbs + weight width * (weight (other - width) - 1) := by
    rw [mul_sub, ← split]
    omega
  rw [slipped.2, isWide, seen, Int.natCast_emod, Int.emod_bmod, number,
    Int.add_mul_bmod_self_left]

theorem right (divisorSeen : ¬ (other < width ∧ divisor = -weight (other - 1)))
    (dividendSeen : ¬ (width < other ∧ dividend = -weight (width - 1) ∧
      dividend.natAbs < divisor.natAbs)) :
    let result := restoring width (max width other) (seenDivisor width other divisor) 0 digits
    unsigned result.1.reverse = dividend.natAbs / divisor.natAbs ∧
      result.2 = dividend.natAbs % divisor.natAbs := by
  have nonzero := magnitudes.nonzero
  have total := magnitudes.total
  have lower := magnitudes.dividendLower
  have upper := magnitudes.dividendUpper
  rw [seenDivisor, if_neg divisorSeen, ← total]
  exact restoring_eq_div_mod magnitudes.positive (le_max_left ..) (by omega) magnitudes.bounded
    (by omega)

theorem divided :
    let result := restoring width (max width other) (seenDivisor width other divisor) 0 digits
    let taken := (quotient width other dividend divisor).natAbs
    unsigned result.1.reverse = taken ∧ Int.bmod result.2 (weight width) =
      Int.bmod (dividend.natAbs - divisor.natAbs * taken) (weight width) := by
  intro result taken
  have isTaken : taken = if Misdivided width other dividend divisor then
      if other < width then 0 else 1 else dividend.natAbs / divisor.natAbs :=
    natAbs_quotient width other dividend magnitudes.nonzero
  by_cases first : other < width ∧ divisor = -weight (other - 1)
  · have divided : unsigned result.1.reverse = 0 ∧ result.2 = dividend.natAbs :=
      magnitudes.never first
    have none : taken = 0 := by
      rw [isTaken]
      split
      · exact if_pos first.1
      · rename_i right
        exact Nat.div_eq_of_lt (not_le.mp fun le => right (.inl ⟨first.1, first.2, le⟩))
    rw [none, divided.1, divided.2, Nat.cast_zero, mul_zero, sub_zero]
    exact ⟨rfl, rfl⟩
  by_cases second : width < other ∧ dividend = -weight (width - 1) ∧
      dividend.natAbs < divisor.natAbs
  · have one : taken = 1 := by
      rw [isTaken, if_pos (.inr second), if_neg second.1.not_gt]
    rw [one, Nat.cast_one, mul_one]
    exact magnitudes.once second
  · have divided : unsigned result.1.reverse = _ ∧ result.2 = _ := magnitudes.right first second
    have right : ¬ Misdivided width other dividend divisor := by
      rintro (missed | missed)
      · exact first ⟨missed.1, missed.2.1⟩
      · exact second missed
    rw [isTaken, if_neg right, divided.1, divided.2]
    refine ⟨rfl, ?_⟩
    congr 1
    push_cast
    rw [Int.emod_def]

end Magnitudes

end Digits

end ModelFinder
