import Mathlib
import ModelFinder.Proofs.Circuit.Matrix.Operations
import ModelFinder.Proofs.Circuit.Word.Sum
/-!
Counting the true cells of a matrix.
-/

namespace ModelFinder

namespace Matrix

/-- The positions of the cells that are true under an assignment, in ascending order. -/
def members (assignment : Nat → Bool) (matrix : Matrix) : List Nat :=
  (matrix.entries.filter fun entry => entry.2.eval assignment).map Prod.fst

theorem mem_members {assignment : Nat → Bool} {matrix : Matrix} {index : Nat} :
    index ∈ matrix.members assignment ↔ (matrix.cell index).eval assignment = true := by
  rw [members, List.mem_map]
  constructor
  · rintro ⟨entry, member, rfl⟩
    rw [cell_of_mem (List.mem_of_mem_filter member)]
    exact (List.mem_filter.mp member).2
  · intro holds
    exact ⟨_, List.mem_filter.mpr ⟨mem_entries_of_eval holds, holds⟩, rfl⟩

theorem pairwise_members (assignment : Nat → Bool) (matrix : Matrix) :
    (matrix.members assignment).Pairwise (· < ·) := by
  rw [members, List.pairwise_map]
  exact matrix.pairwise_entries.sublist List.filter_sublist

def count (assignment : Nat → Bool) (matrix : Matrix) : Nat :=
  (matrix.members assignment).length

theorem countP_values (assignment : Nat → Bool) (matrix : Matrix) :
    matrix.values.countP (Bit.eval assignment) = matrix.count assignment := by
  rw [values, List.countP_map, List.countP_eq_length_filter, count, members, List.length_map]
  rfl

theorem knows_values {circuit : Circuit} {size arity : Nat} {matrix : Matrix}
    (known : circuit.KnowsMatrix size arity matrix) : circuit.KnowsAll matrix.values := by
  intro bit member
  rcases List.mem_map.mp member with ⟨entry, entryMember, rfl⟩
  exact known.knows_of_mem entryMember

end Matrix

namespace Build

variable {circuit : Circuit} {matrix : Matrix}

theorem some_computes (known : circuit.KnowsAll matrix.values) :
    Computes circuit matrix.some fun assignment => decide (0 < matrix.count assignment) := by
  refine computes_congr (any_computes known) fun assignment => ?_
  rw [← Matrix.countP_values, Bool.eq_iff_iff, decide_eq_true_iff, List.countP_pos_iff,
    List.any_eq_true]

theorem none_computes (known : circuit.KnowsAll matrix.values) :
    Computes circuit matrix.none fun assignment => decide (matrix.count assignment = 0) := by
  refine Yields.bind (some_computes known) fun bit after grown made => ?_
  refine computes_congr (not_computes made.1) fun assignment => ?_
  have value := made.2 assignment
  dsimp only at value
  rw [value, Bool.eq_iff_iff, Bool.not_eq_true', decide_eq_false_iff_not, decide_eq_true_iff]
  omega

/-- Where the disjunction of the earlier bits holds, no further one may; elsewhere one may. -/
theorem exclusions_yields {seen : Bit} (seenKnown : circuit.Knows seen) {values : List Bit}
    (known : circuit.KnowsAll values) :
    Yields circuit (Matrix.exclusions seen values) fun conditions after =>
      after.KnowsAll conditions ∧ ∀ assignment,
        conditions.all (Bit.eval assignment) = true ↔
          (seen.eval assignment).toNat + values.countP (Bit.eval assignment) ≤ 1 ∨
            values.countP (Bit.eval assignment) = 0 := by
  induction values generalizing circuit seen with
  | nil => exact Yields.pure ⟨Circuit.knowsAll_nil, by simp⟩
  | cons value rest hypothesis =>
      rw [Circuit.knowsAll_cons] at known
      rw [Matrix.exclusions]
      refine Yields.bind (not_computes seenKnown) fun notSeen first grownNot madeNot => ?_
      refine Yields.bind (implies_computes (known.1.mono grownNot) madeNot.1)
        fun exclusion second grownExclusion madeExclusion => ?_
      have grown := grownNot.trans grownExclusion
      refine Yields.bind (or_computes (seenKnown.mono grown) (known.1.mono grown))
        fun seenNext third grownSeen madeSeen => ?_
      have later := hypothesis madeSeen.1 ((known.2.mono grown).mono grownSeen)
      refine Yields.bind later fun conditions after grownLast held => Yields.pure ⟨?_, ?_⟩
      · exact Circuit.knowsAll_cons.mpr
          ⟨(madeExclusion.1.mono grownSeen).mono grownLast, held.1⟩
      · intro assignment
        have exclusionValue := madeExclusion.2 assignment
        have seenValue := madeSeen.2 assignment
        have notValue := madeNot.2 assignment
        dsimp only at exclusionValue seenValue notValue
        rw [List.all_cons, Bool.and_eq_true, held.2, exclusionValue, seenValue, notValue,
          List.countP_cons]
        cases seen.eval assignment <;> cases value.eval assignment <;> simp

theorem lone_computes (known : circuit.KnowsAll matrix.values) :
    Computes circuit matrix.lone fun assignment => decide (matrix.count assignment ≤ 1) := by
  refine Yields.bind (exclusions_yields (.const false) known)
    fun conditions after grown made => ?_
  refine computes_congr (all_computes made.1) fun assignment => ?_
  rw [Bool.eq_iff_iff, made.2, decide_eq_true_iff, Matrix.countP_values]
  simp only [Bit.eval, Bool.toNat_false]
  omega

theorem one_computes (known : circuit.KnowsAll matrix.values) :
    Computes circuit matrix.one fun assignment => decide (matrix.count assignment = 1) := by
  refine Yields.bind (lone_computes known) fun atMostOne first grown madeLone => ?_
  refine Yields.bind (some_computes (known.mono grown))
    fun atLeastOne second grownAgain madeSome => ?_
  refine computes_congr (and_computes (madeLone.1.mono grownAgain) madeSome.1)
    fun assignment => ?_
  have loneValue := madeLone.2 assignment
  have someValue := madeSome.2 assignment
  dsimp only at loneValue someValue
  rw [loneValue, someValue, Bool.eq_iff_iff, Bool.and_eq_true, decide_eq_true_iff,
    decide_eq_true_iff, decide_eq_true_iff]
  omega

end Build

namespace TryBuild

variable {circuit : Circuit} {matrix : Matrix}

theorem ofBit?_yields {bit : Bit} (known : circuit.Knows bit) (width : Nat) :
    Yields circuit (liftM (Word.ofBit? bit width)) fun word after =>
      after.KnowsWord word ∧ word.width = width ∧ ∀ assignment,
        word.eval assignment = Int.bmod (bit.eval assignment).toNat (Digits.weight width) := by
  refine Yields.except fun word same => ?_
  cases width with
  | zero => cases same
  | succ rest =>
      cases same
      refine ⟨Circuit.knowsAll_cons.mpr
        ⟨known, Circuit.knowsAll_replicate (.const false) rest⟩, by simp, fun assignment => ?_⟩
      rw [Word.eval_eq_bmod]
      simp [Bit.eval, Word.width]

theorem bmod_sum_bits (bits : List Bit) (assignment : Nat → Bool) (size : Nat) :
    Int.bmod (bits.map fun bit => Int.bmod (bit.eval assignment).toNat size).sum size =
      Int.bmod (bits.countP (Bit.eval assignment)) size := by
  induction bits with
  | nil => rfl
  | cons bit rest hypothesis =>
      rw [List.map_cons, List.sum_cons, Int.bmod_add_bmod, ← Int.add_bmod_bmod, hypothesis,
        Int.add_bmod_bmod, List.countP_cons]
      congr 1
      cases bit.eval assignment with
      | false => simp
      | true =>
          simp
          ring

theorem popcount_yields (positive : 0 < circuit.width) (known : circuit.KnowsAll matrix.values) :
    Yields circuit matrix.popcount fun word after =>
      after.KnowsWord word ∧ word.width = circuit.width ∧ ∀ assignment,
        word.eval assignment =
          Int.bmod (matrix.count assignment) (Digits.weight circuit.width) := by
  have read : Yields circuit MonadState.get fun current _ => current.width = circuit.width :=
    Yields.get rfl
  rw [Matrix.popcount]
  refine Yields.bind read fun current first grown sameWidth => ?_
  dsimp only
  rw [sameWidth]
  have each : ∀ bit ∈ matrix.values, ∀ after, first.Extends after →
      Yields after (liftM (Word.ofBit? bit circuit.width)) fun word after =>
        after.KnowsWord word ∧ word.width = circuit.width ∧ ∀ assignment, word.eval assignment =
          Int.bmod (bit.eval assignment).toNat (Digits.weight circuit.width) :=
    fun bit member after grownAgain => ofBit?_yields
      (((known bit member).mono grown).mono grownAgain) circuit.width
  refine Yields.bind (mapM_yields (fun held grownAgain =>
    ⟨held.1.mono grownAgain, held.2⟩) each) fun words second grownAgain made => ?_
  have bits := Word.total_of_forall₂ made
  have width := (grown.trans grownAgain).width
  rw [← width] at positive bits ⊢
  refine Yields.weaken (sumAll_yields positive bits.1) fun word after _ held =>
    ⟨held.1, held.2.1, fun assignment => ?_⟩
  rw [held.2.2, bits.2, bmod_sum_bits, Matrix.countP_values]

end TryBuild

end ModelFinder
