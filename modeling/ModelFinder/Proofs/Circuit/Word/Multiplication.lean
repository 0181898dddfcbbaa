import Mathlib
import ModelFinder.Proofs.Circuit.Word.Addition
/-!
Words that are multiplied. Every digit of the multiplier adds the shifted multiplicand or
nothing, so after all digits the product of the numbers has been added, wrapped.
-/

namespace ModelFinder

namespace Build

variable {circuit : Circuit}

/-- The digits of a multiplicand that stay within the width, shifted and kept where a
selector holds, stand for their part of the product. -/
private theorem bmod_partial {bits : List Bool} {shift : Nat} (short : shift ≤ bits.length)
    (selector : Bool) :
    Int.bmod (Digits.unsigned (List.replicate shift false ++
        (bits.take (bits.length - shift)).map fun bit => bit && selector))
      (Digits.weight bits.length) =
    Int.bmod (Digits.unsigned bits * (Digits.weight shift * selector.toNat))
      (Digits.weight bits.length) := by
  have width : Digits.weight bits.length =
      Digits.weight shift * Digits.weight (bits.length - shift) := by
    rw [← Digits.weight_add, Nat.add_sub_cancel' short]
  rw [Digits.unsigned_append, Digits.unsigned_replicate_false, List.length_replicate]
  cases selector with
  | false =>
      simp only [Bool.and_false, List.map_const', Digits.unsigned_replicate_false,
        Bool.toNat_false]
      simp
  | true =>
      simp only [Bool.and_true, List.map_id', Digits.unsigned_take, Bool.toNat_true]
      generalize Digits.weight (bits.length - shift) = high at width ⊢
      have split := Nat.mod_add_div (Digits.unsigned bits) high
      have shifted : (Digits.unsigned bits * (Digits.weight shift * (1 : Nat)) : Int) =
          (0 + Digits.weight shift * (Digits.unsigned bits % high) : Nat) +
            (Digits.weight shift * high : Nat) * (Digits.unsigned bits / high : Nat) := by
        nth_rewrite 1 [← split]
        push_cast
        ring
      rw [shifted, width, Int.add_mul_bmod_self_left]

def addend (multiplicand : Word) (shift : Nat) (selector : Bit) : Build Word := do
  let kept ← (multiplicand.bits.take (multiplicand.width - shift)).mapM
    fun bit => Build.and bit selector
  return Word.ofBits (List.replicate shift (.const false) ++ kept)

theorem addShifted_cons (multiplicand product : Word) (shift : Nat) (selector : Bit)
    (rest : List Bit) :
    Word.addShifted multiplicand product shift (selector :: rest) =
      if selector.isFalse then Word.addShifted multiplicand product (shift + 1) rest
      else (do
        let term ← addend multiplicand shift selector
        let product ← product.plus term
        Word.addShifted multiplicand product (shift + 1) rest) := by
  rw [Word.addShifted]
  simp only [addend, bind_assoc, pure_bind]

theorem addend_computes {multiplicand : Word} {shift : Nat} {selector : Bit}
    (multiplicandKnown : circuit.KnowsWord multiplicand) (selectorKnown : circuit.Knows selector)
    (short : shift ≤ multiplicand.width) :
    ComputesWord circuit (addend multiplicand shift selector) multiplicand.width
      fun assignment => Int.bmod (multiplicand.eval assignment *
        (Digits.weight shift * (selector.eval assignment).toNat))
        (Digits.weight multiplicand.width) := by
  have bits : ComputesBits circuit
      ((multiplicand.bits.take (multiplicand.width - shift)).mapM
        fun bit => Build.and bit selector)
      fun assignment => (multiplicand.bits.take (multiplicand.width - shift)).map
        fun bit => bit.eval assignment && selector.eval assignment :=
    mapM_computes fun bit member after grown => and_computes
      ((multiplicandKnown.take _ bit member).mono grown) (selectorKnown.mono grown)
  rw [addend]
  refine Yields.bind bits fun kept after grown madeKept => ?_
  have positive := multiplicand.width_pos
  have length : (List.replicate shift (Bit.const false) ++ kept).length =
      multiplicand.width := by
    have keptLength := congrArg List.length (madeKept.2 fun _ => true)
    simp only [List.length_map, List.length_take] at keptLength
    rw [List.length_append, List.length_replicate, keptLength]
    simp only [Word.width] at short ⊢
    omega
  have nonempty : List.replicate shift (Bit.const false) ++ kept ≠ [] :=
    List.length_pos_iff.mp (by omega)
  rw [Word.ofBits_eq nonempty]
  refine computesWord_pure (Circuit.knowsAll_append.mpr
    ⟨Circuit.knowsAll_replicate (.const false) shift, madeKept.1⟩) length fun assignment => ?_
  have keptDigits := madeKept.2 assignment
  have shifted := @bmod_partial (multiplicand.bits.map (Bit.eval assignment)) _
    (by simpa [Word.width] using short) (selector.eval assignment)
  rw [← List.map_take, List.map_map, List.length_map] at shifted
  rw [Word.eval_eq_bmod, Word.width_mk, length, multiplicand.eval_eq_bmod assignment,
    Int.bmod_mul_bmod, List.map_append, List.map_replicate, keptDigits]
  simpa [Word.width, Bit.eval, Function.comp_def] using shifted

/-- The selectors from a shift on add their number times the multiplicand, shifted. -/
theorem addShifted_computes {multiplicand product : Word} {shift : Nat} {selectors : List Bit}
    (multiplicandKnown : circuit.KnowsWord multiplicand)
    (productKnown : circuit.KnowsWord product) (same : product.width = multiplicand.width)
    (selectorsKnown : circuit.KnowsAll selectors)
    (fits : shift + selectors.length ≤ multiplicand.width) :
    ComputesWord circuit (Word.addShifted multiplicand product shift selectors)
      multiplicand.width fun assignment =>
        Int.bmod (product.eval assignment + multiplicand.eval assignment *
            (Digits.weight shift * Digits.unsigned (selectors.map (Bit.eval assignment))))
          (Digits.weight multiplicand.width) := by
  induction selectors generalizing circuit product shift with
  | nil =>
      refine computesWord_pure productKnown same fun assignment => ?_
      have wrapped := product.bmod_eval assignment
      rw [same] at wrapped
      simp [wrapped]
  | cons selector rest hypothesis =>
      simp only [Circuit.knowsAll_cons, List.length_cons] at selectorsKnown fits
      rw [addShifted_cons]
      refine Yields.of_valid fun valid => ?_
      split
      · rename_i isFalse
        rw [(selectorsKnown.1.isFalse_iff valid).mp isFalse]
        refine computesWord_congr (hypothesis multiplicandKnown productKnown same
          selectorsKnown.2 (by omega)) fun assignment => ?_
        simp only [List.map_cons, Bit.eval, Digits.unsigned_cons, Bool.toNat_false,
          Digits.weight_succ]
        congr 2
        push_cast
        ring
      · refine Yields.bind (addend_computes multiplicandKnown selectorsKnown.1 (by omega))
          fun term middle grown madeTerm => ?_
        rcases madeTerm with ⟨termKnown, termWidth, termValue⟩
        have sum := plus_computes (productKnown.mono grown) termKnown
        rw [termWidth, same, max_self] at sum
        refine Yields.bind sum fun next after grown' madeNext => ?_
        refine computesWord_congr (hypothesis ((multiplicandKnown.mono grown).mono grown')
          madeNext.1 madeNext.2.1
          (fun bit member => ((selectorsKnown.2 bit member).mono grown).mono grown')
          (by omega)) fun assignment => ?_
        simp only [madeNext.2.2, termValue, List.map_cons, Digits.unsigned_cons,
          Digits.weight_succ]
        rw [Int.bmod_add_bmod, add_assoc, add_comm (Int.bmod _ _), ← add_assoc,
          Int.add_bmod_bmod]
        congr 1
        push_cast
        ring

theorem multiply_computes {left right : Word} (leftKnown : circuit.KnowsWord left)
    (rightKnown : circuit.KnowsWord right) :
    ComputesWord circuit (left.multiply right) left.width fun assignment =>
      Int.bmod (left.eval assignment * right.eval assignment) (Digits.weight left.width) := by
  have positive := left.width_pos
  have zero := Word.zero_eq_constant left.width
  have zeroKnown : circuit.KnowsWord (Word.zero left.width) := by
    rw [zero]
    exact Word.knows_constant 0 positive
  have product := addShifted_computes leftKnown zeroKnown
    (by rw [zero, Word.width_constant 0 positive]) (rightKnown.extendedBits left.width)
    (by simp : 0 + _ ≤ left.width)
  refine computesWord_congr product fun assignment => ?_
  have resized := Word.signed_extendedBits assignment right positive
  have nonempty : (right.extendedBits left.width).map (Bit.eval assignment) ≠ [] := by
    apply List.length_pos_iff.mp
    simpa using positive
  rw [Digits.signed_eq_bmod nonempty, List.length_map, Word.length_extendedBits] at resized
  rw [zero, Word.eval_constant assignment 0 positive, Int.zero_bmod, zero_add,
    Digits.weight_zero, Nat.cast_one, one_mul, ← Int.mul_bmod_bmod, resized, Int.mul_bmod_bmod]

end Build

end ModelFinder
