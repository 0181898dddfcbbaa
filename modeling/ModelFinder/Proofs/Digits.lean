import Mathlib
import ModelFinder.Digits
/-!
Arithmetic of digit sequences. A sequence of digits stands for the member of the two's
complement range of its length that is congruent to the number of its digits without sign.
-/

namespace ModelFinder.Digits

theorem weight_add (left right : Nat) : weight (left + right) = weight left * weight right :=
  Nat.pow_add 2 left right

theorem weight_mono {left right : Nat} (le : left ≤ right) : weight left ≤ weight right :=
  Nat.pow_le_pow_right (by decide) le

theorem lt_weight (position : Nat) : position < weight position := Nat.lt_two_pow_self

/-! Digits without sign -/

@[simp] theorem unsigned_nil : unsigned [] = 0 := rfl

@[simp] theorem unsigned_cons (first : Bool) (rest : List Bool) :
    unsigned (first :: rest) = first.toNat + 2 * unsigned rest := rfl

theorem unsigned_append (low high : List Bool) :
    unsigned (low ++ high) = unsigned low + weight low.length * unsigned high := by
  induction low with
  | nil => simp
  | cons first rest hypothesis =>
      rw [List.cons_append, unsigned_cons, unsigned_cons, hypothesis, List.length_cons,
        weight_succ]
      ring

@[simp] theorem unsigned_replicate_false (count : Nat) :
    unsigned (List.replicate count false) = 0 := by
  induction count with
  | zero => rfl
  | succ count hypothesis => simp [List.replicate_succ, hypothesis]

theorem unsigned_replicate_true (count : Nat) :
    unsigned (List.replicate count true) + 1 = weight count := by
  induction count with
  | zero => rfl
  | succ count hypothesis =>
      rw [List.replicate_succ, unsigned_cons, weight_succ, ← hypothesis]
      simp
      ring

theorem unsigned_not (digits : List Bool) :
    unsigned (digits.map not) + unsigned digits + 1 = weight digits.length := by
  induction digits with
  | nil => rfl
  | cons first rest hypothesis =>
      rw [List.map_cons, unsigned_cons, unsigned_cons, List.length_cons, weight_succ,
        ← hypothesis]
      cases first <;> simp <;> ring

theorem unsigned_inj {left right : List Bool} (length : left.length = right.length)
    (equal : unsigned left = unsigned right) : left = right := by
  induction left generalizing right with
  | nil => exact (List.length_eq_zero_iff.mp length.symm).symm
  | cons first rest hypothesis =>
      cases right with
      | nil => simp at length
      | cons first' rest' =>
          simp only [unsigned_cons] at equal
          have restEqual : unsigned rest = unsigned rest' := by
            cases first <;> cases first' <;> simp at equal <;> omega
          have firstEqual : first = first' := by
            cases first <;> cases first' <;> simp at equal ⊢ <;> omega
          rw [firstEqual, hypothesis (by simpa using length) restEqual]

theorem unsigned_take (count : Nat) (digits : List Bool) :
    unsigned (digits.take count) = unsigned digits % weight count := by
  by_cases short : digits.length ≤ count
  · have below := (unsigned_lt digits).trans_le (weight_mono short)
    rw [List.take_of_length_le short, Nat.mod_eq_of_lt below]
  · have length : (digits.take count).length = count := by
      rw [List.length_take]
      omega
    have split := unsigned_append (digits.take count) (digits.drop count)
    have below := unsigned_lt (digits.take count)
    rw [List.take_append_drop, length] at split
    rw [length] at below
    rw [split, Nat.add_mul_mod_self_left, Nat.mod_eq_of_lt below]

theorem unsigned_drop (count : Nat) (digits : List Bool) :
    unsigned (digits.drop count) = unsigned digits / weight count := by
  by_cases short : digits.length ≤ count
  · have below := (unsigned_lt digits).trans_le (weight_mono short)
    rw [List.drop_of_length_le short, Nat.div_eq_of_lt below, unsigned_nil]
  · have length : (digits.take count).length = count := by
      rw [List.length_take]
      omega
    have split := unsigned_append (digits.take count) (digits.drop count)
    have below := unsigned_lt (digits.take count)
    rw [List.take_append_drop, length] at split
    rw [length] at below
    rw [split, Nat.add_mul_div_left _ _ (weight_pos count), Nat.div_eq_of_lt below, zero_add]

/-! Digits with a sign -/

theorem signed_append_sign (below : List Bool) (sign : Bool) :
    signed (below ++ [sign]) = unsigned below - weight below.length * sign.toNat := by
  have split := unsigned_append below [sign]
  rw [signed, split, List.getLast?_append_cons, List.length_append, List.length_singleton,
    weight_succ]
  cases sign <;> simp
  omega

theorem signed_eq_bmod {digits : List Bool} (nonempty : digits ≠ []) :
    signed digits = Int.bmod (unsigned digits) (weight digits.length) := by
  rcases List.eq_nil_or_concat digits with rfl | ⟨below, sign, rfl⟩
  · exact absurd rfl nonempty
  rw [List.concat_eq_append]
  have bound := unsigned_lt below
  have split := unsigned_append below [sign]
  have positive := weight_pos below.length
  rw [signed_append_sign, List.length_append, List.length_singleton, weight_succ, split]
  apply Eq.symm
  cases sign with
  | false =>
      simp only [unsigned_cons, Bool.toNat_false, unsigned_nil]
      apply Int.bmod_eq_of_le <;> push_cast <;> omega
  | true =>
      have shifted : ((unsigned below + weight below.length * unsigned [true] : Nat) : Int) =
          (unsigned below - weight below.length : Int) + (2 * weight below.length : Nat) := by
        simp only [unsigned_cons, Bool.toNat_true, unsigned_nil]
        push_cast
        ring
      rw [shifted, Int.add_bmod_right, Bool.toNat_true, Nat.cast_one, mul_one]
      apply Int.bmod_eq_of_le <;> push_cast <;> omega

theorem signed_bounds {digits : List Bool} (nonempty : digits ≠ []) :
    -(weight (digits.length - 1) : Int) ≤ signed digits ∧
      signed digits < weight (digits.length - 1) := by
  rcases List.eq_nil_or_concat digits with rfl | ⟨below, sign, rfl⟩
  · exact absurd rfl nonempty
  rw [List.concat_eq_append]
  have bound := unsigned_lt below
  rw [signed_append_sign, List.length_append, List.length_singleton, Nat.add_sub_cancel]
  cases sign <;> simp <;> omega

theorem signed_neg_iff {digits : List Bool} (nonempty : digits ≠ []) :
    signed digits < 0 ↔ digits.getLast nonempty = true := by
  rcases List.eq_nil_or_concat digits with rfl | ⟨below, sign, rfl⟩
  · exact absurd rfl nonempty
  have bound := unsigned_lt below
  simp only [List.concat_eq_append, List.getLast_append_singleton, signed_append_sign]
  cases sign with
  | false => simp
  | true =>
      simp
      omega

theorem signed_append (low : List Bool) {high : List Bool} (nonempty : high ≠ []) :
    signed (low ++ high) = unsigned low + weight low.length * signed high := by
  rcases List.eq_nil_or_concat high with rfl | ⟨below, sign, rfl⟩
  · exact absurd rfl nonempty
  rw [List.concat_eq_append, ← List.append_assoc, signed_append_sign, signed_append_sign,
    unsigned_append, List.length_append, weight_add]
  push_cast
  ring

theorem signed_replicate {count : Nat} (positive : 0 < count) (digit : Bool) :
    signed (List.replicate count digit) = if digit then -1 else 0 := by
  rcases Nat.exists_eq_succ_of_ne_zero positive.ne' with ⟨rest, rfl⟩
  rw [Nat.succ_eq_add_one, List.replicate_succ', signed_append_sign, List.length_replicate]
  cases digit with
  | false => simp
  | true =>
      have ones := unsigned_replicate_true rest
      simp
      omega

/-- Dropping low digits divides, rounding down. -/
theorem signed_drop {digits : List Bool} {count : Nat} (short : count < digits.length) :
    signed (digits.drop count) = signed digits / weight count := by
  have nonempty : digits.drop count ≠ [] := by
    apply List.length_pos_iff.mp
    rw [List.length_drop]
    omega
  have below := unsigned_lt (digits.take count)
  have positive := weight_pos count
  have length : (digits.take count).length = count := by
    rw [List.length_take]
    omega
  rw [length] at below
  conv_rhs => rw [← List.take_append_drop count digits, signed_append _ nonempty, length]
  rw [Int.add_mul_ediv_left _ _ (by omega), Int.ediv_eq_zero_of_lt (by omega) (by omega),
    zero_add]

theorem signed_inj {left right : List Bool} (length : left.length = right.length)
    (equal : signed left = signed right) : left = right := by
  by_cases nonempty : left = []
  · subst nonempty
    exact (List.length_eq_zero_iff.mp length.symm).symm
  have nonempty' : right ≠ [] := by
    rintro rfl
    exact nonempty (List.length_eq_zero_iff.mp length)
  rw [signed_eq_bmod nonempty, signed_eq_bmod nonempty', length] at equal
  have remainders := congrArg (fun value => value % (weight right.length : Int)) equal
  simp only [Int.bmod_emod] at remainders
  apply unsigned_inj length
  have leftBound := unsigned_lt left
  have rightBound := unsigned_lt right
  rw [length] at leftBound
  rw [Int.emod_eq_of_lt (by omega) (by omega), Int.emod_eq_of_lt (by omega) (by omega)]
    at remainders
  omega

theorem bmod_of_bounds {value : Int} {width : Nat} (positive : 0 < width)
    (lower : -(weight (width - 1) : Int) ≤ value) (upper : value < weight (width - 1)) :
    Int.bmod value (weight width) = value := by
  rcases Nat.exists_eq_succ_of_ne_zero positive.ne' with ⟨rest, rfl⟩
  rw [Nat.succ_eq_add_one, Nat.add_sub_cancel] at lower upper
  rw [Nat.succ_eq_add_one, weight_succ]
  apply Int.bmod_eq_of_le <;> push_cast <;> omega

theorem bmod_bounds (value : Int) {width : Nat} (positive : 0 < width) :
    -(weight (width - 1) : Int) ≤ Int.bmod value (weight width) ∧
      Int.bmod value (weight width) < weight (width - 1) := by
  rcases Nat.exists_eq_succ_of_ne_zero positive.ne' with ⟨rest, rfl⟩
  rw [Nat.succ_eq_add_one, Nat.add_sub_cancel]
  have lower := @Int.le_bmod value _ (weight_pos (rest + 1))
  have upper := @Int.bmod_lt value _ (weight_pos (rest + 1))
  rw [weight_succ] at lower upper ⊢
  push_cast at lower upper ⊢
  omega

theorem bmod_signed {digits : List Bool} (nonempty : digits ≠ []) :
    Int.bmod (signed digits) (weight digits.length) = signed digits := by
  have bounds := signed_bounds nonempty
  exact bmod_of_bounds (List.length_pos_iff.mpr nonempty) bounds.1 bounds.2

theorem signed_extend {digits : List Bool} (nonempty : digits ≠ []) (count : Nat) :
    signed (digits ++ List.replicate count (digits.getLast nonempty)) = signed digits := by
  rcases List.eq_nil_or_concat digits with rfl | ⟨below, sign, rfl⟩
  · exact absurd rfl nonempty
  have moved : below ++ [sign] ++ List.replicate count sign =
      below ++ List.replicate count sign ++ [sign] := by
    rw [List.append_assoc, List.append_assoc, List.singleton_append, ← List.replicate_succ,
      List.replicate_succ']
  simp only [List.concat_eq_append, List.getLast_append_singleton]
  rw [moved, signed_append_sign, signed_append_sign, unsigned_append, List.length_append,
    List.length_replicate, weight_add]
  cases sign with
  | false => simp
  | true =>
      have ones := unsigned_replicate_true count
      rw [← ones, Bool.toNat_true]
      push_cast
      ring

/-- Leaving out high digits wraps. -/
theorem signed_take {digits : List Bool} {count : Nat} (positive : 0 < count)
    (short : count ≤ digits.length) :
    signed (digits.take count) = Int.bmod (signed digits) (weight count) := by
  have nonempty : digits ≠ [] := List.length_pos_iff.mp (by omega)
  have length : (digits.take count).length = count := by
    rw [List.length_take]
    omega
  have taken : digits.take count ≠ [] := List.length_pos_iff.mp (by omega)
  have divides : weight count ∣ weight digits.length := Nat.pow_dvd_pow 2 short
  rw [signed_eq_bmod taken, signed_eq_bmod nonempty, length, unsigned_take,
    Int.bmod_bmod_of_dvd divides, Int.natCast_mod, Int.emod_bmod]

/-! Digits of numbers -/

theorem digit_zero (value : Int) : digit value 0 = (value % 2 == 1) := by
  simp [digit]

theorem digit_succ (value : Int) (position : Nat) :
    digit value (position + 1) = digit (value / 2) position := by
  rw [digit, digit, weight_succ, Nat.cast_mul, Int.ediv_ediv_of_nonneg (by decide)]
  rfl

theorem map_digit_succ (value : Int) (width : Nat) :
    (List.range (width + 1)).map (digit value) =
      digit value 0 :: (List.range width).map (digit (value / 2)) := by
  rw [List.range_succ_eq_map, List.map_cons, List.map_map]
  congr 1
  exact List.map_congr_left fun position _ => digit_succ value position

private theorem emod_two_mul (value : Int) {half : Nat} (positive : 0 < half) :
    value % (2 * half) = value % 2 + 2 * (value / 2 % half) := by
  have low := Int.emod_add_mul_ediv value 2
  have high := Int.emod_add_mul_ediv (value / 2) half
  have nonneg := Int.emod_nonneg (value / 2) (by omega : (half : Int) ≠ 0)
  have below := Int.emod_lt_of_pos (value / 2) (by omega : 0 < (half : Int))
  have split : value = value % 2 + 2 * (value / 2 % half) + 2 * half * (value / 2 / half) := by
    linear_combination -low - 2 * high
  rw [split, Int.add_mul_emod_self_left, ← split, Int.emod_eq_of_lt (by omega) (by omega)]

theorem unsigned_map_digit (value : Int) (width : Nat) :
    (unsigned ((List.range width).map (digit value)) : Int) = value % weight width := by
  induction width generalizing value with
  | zero => simp
  | succ width hypothesis =>
      rw [map_digit_succ, unsigned_cons, weight_succ, digit_zero]
      push_cast
      rw [hypothesis (value / 2), emod_two_mul value (weight_pos width)]
      rcases Int.emod_two_eq_zero_or_one value with even | odd
      · simp [even]
      · simp [odd]

theorem signed_map_digit (value : Int) {width : Nat} (positive : 0 < width) :
    signed ((List.range width).map (digit value)) = Int.bmod value (weight width) := by
  have nonempty : (List.range width).map (digit value) ≠ [] := by
    simpa using positive.ne'
  rw [signed_eq_bmod nonempty, unsigned_map_digit, List.length_map, List.length_range,
    Int.emod_bmod]

theorem eq_map_digit {digits : List Bool} (nonempty : digits ≠ []) :
    digits = (List.range digits.length).map (digit (signed digits)) := by
  apply signed_inj (by simp)
  rw [signed_map_digit _ (List.length_pos_iff.mpr nonempty), bmod_signed nonempty]

end ModelFinder.Digits
