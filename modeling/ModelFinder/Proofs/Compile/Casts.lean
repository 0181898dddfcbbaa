import Mathlib
import ModelFinder.Proofs.Decoding
import ModelFinder.Proofs.Instance
import ModelFinder.Proofs.IntRange
import ModelFinder.Proofs.Compile.Sets
import ModelFinder.Proofs.Circuit.Word.Comparison
/-!
Casts between integers and atoms. An integer stands for the atoms bound to it, and a set of
atoms for the sum of the integers bound to its members.
-/

namespace ModelFinder

theorem Word.eval_bit {word : Word} {position : Nat} (inside : position < word.width)
    (assignment : Nat → Bool) :
    (word.bit position).eval assignment =
      Digits.digit (word.eval assignment) position := by
  have below : position < word.bits.length := inside
  have digits := Digits.eq_map_digit (word.map_eval_ne_nil assignment)
  have found := List.getElem?_eq_getElem below
  rw [Word.bit, found, Option.getD_some]
  have values := congrArg (fun digits : List Bool => digits[position]?) digits
  simp only [List.getElem?_map, found, List.length_map, List.getElem?_range below] at values
  exact Option.some.inj values

namespace IntRange

variable (range : IntRange)

theorem contains_eval {word : Word} (width : word.width = range.bitwidth)
    (assignment : Nat → Bool) : range.contains (word.eval assignment) = true := by
  rw [contains_iff, ← width]
  exact word.eval_bounds assignment

theorem eval_constant (assignment : Nat → Bool) (value : Int) :
    (Word.constant value range.bitwidth).eval assignment = range.wrap value :=
  Word.eval_constant assignment value range.one_le_bitwidth

end IntRange

private theorem sum_filter_eq {β : Type} (elements : List β) {chosen kept : β → Bool}
    (value : β → Int) (implies : ∀ element, chosen element = true → kept element = true) :
    ((elements.filter chosen).map value).sum =
      ((elements.filter kept).map fun element =>
        bif chosen element then value element else 0).sum := by
  induction elements with
  | nil => rfl
  | cons element rest hypothesis =>
      rw [List.filter_cons, List.filter_cons]
      cases member : chosen element with
      | true =>
          rw [if_pos rfl, if_pos (implies element member), List.map_cons, List.map_cons,
            List.sum_cons, List.sum_cons, hypothesis, member, cond_true]
      | false =>
          rw [if_neg Bool.false_ne_true, hypothesis]
          split
          · rw [List.map_cons, List.sum_cons, member, cond_false, zero_add]
          · rfl

namespace Build

variable {circuit : Circuit} {leaves : Leaves} {model : Instance} {range : IntRange}
variable {word : Word}
variable (sameUniverse : model.univ = leaves.bounds.univ)
variable (sameAtoms : model.intAtoms = leaves.bounds.intAtoms)

include sameUniverse in
theorem atomMatrix_yields {conditions : List (Nat × Bit)}
    (known : ∀ condition ∈ conditions, circuit.Knows condition.2) :
    Yields circuit (atomMatrix leaves.universeSize conditions) fun matrix after =>
      (∀ index, after.Knows (matrix.cell index)) ∧
      ((∀ condition ∈ conditions, condition.1 < model.univ.size) →
        after.KnowsMatrix model.univ.size 1 matrix) ∧
      ∀ assignment atoms, (∀ atom, atom ∈ atoms ↔ ∃ condition ∈ conditions, condition.1 = atom ∧
          condition.2.eval assignment = true) →
        matrix.Denotes model.univ 1 assignment ⟨model.univ, 1, .ofList atoms⟩ := by
  have size : leaves.universeSize = model.univ.size := by
    rw [sameUniverse]
    rfl
  rw [atomMatrix, size]
  intro valid
  rcases @collected_yields_cells circuit model.univ.size 1 conditions known valid with
    ⟨afterValid, grown, cellsKnown, values⟩
  refine ⟨afterValid, grown, cellsKnown, fun bounded => ?_, fun assignment atoms same =>
    ⟨rfl, rfl, fun index => ?_⟩⟩
  · have inRange : ∀ condition ∈ conditions, condition.1 < model.univ.size ^ 1 := by
      rwa [pow_one]
    exact (collected_yields known inRange valid).2.2.1
  · rw [values, TupleSet.containsIndex_ofList, Bool.eq_iff_iff, List.contains_iff_mem, same,
      Matrix.holdsAt_iff]

include sameUniverse sameAtoms

/-- The cells of a cast are those of the atoms that the number of a word stands for. They are in
range if all atoms are. -/
theorem valueAtoms_yields (known : circuit.KnowsWord word) (width : word.width = range.bitwidth) :
    Yields circuit (valueAtoms leaves range word) fun matrix after =>
      (∀ index, after.Knows (matrix.cell index)) ∧
      (model.AtomsInRange → after.KnowsMatrix model.univ.size 1 matrix) ∧ ∀ assignment,
        matrix.Denotes model.univ 1 assignment ⟨model.univ, 1,
          .ofList (model.castAtoms range .value (word.eval assignment))⟩ := by
  have ints : leaves.bounds.intAtoms.toList = model.ints := by rw [← sameAtoms]; rfl
  rw [valueAtoms, ints]
  have equals : ∀ entry ∈ model.ints.filter fun entry => range.contains entry.1, ∀ after,
      circuit.Extends after → Computes after (word.eq (Word.constant entry.1 range.bitwidth))
        fun assignment => word.eval assignment == range.wrap entry.1 := by
    intro entry _ after grown
    refine computes_congr (eq_computes (known.mono grown)
      (Word.knows_constant entry.1 range.one_le_bitwidth)) fun assignment => ?_
    rw [range.eval_constant]
  refine Yields.bind (conditions_yields equals) fun conditions middle grown made => ?_
  rcases made with ⟨conditionsKnown, values⟩
  have listed : ∀ assignment atom, (∃ condition ∈ conditions, condition.1 = atom ∧
      condition.2.eval assignment = true) ↔
        (word.eval assignment, atom) ∈ model.ints := by
    intro assignment atom
    have holds : (∃ condition ∈ conditions, condition.1 = atom ∧
        condition.2.eval assignment = true) ↔ (atom, true) ∈
          conditions.map fun condition => (condition.1, condition.2.eval assignment) := by
      simp only [List.mem_map, Prod.mk.injEq]
    rw [holds, values]
    simp only [List.mem_map, List.mem_filter, Prod.mk.injEq, beq_iff_eq]
    constructor
    · rintro ⟨entry, ⟨member, inside⟩, rfl, same⟩
      rw [same, range.wrap_of_contains inside]
      exact member
    · intro member
      have inside := range.contains_eval width assignment
      exact ⟨_, ⟨member, inside⟩, rfl, (range.wrap_of_contains inside).symm⟩
  have bounded : model.AtomsInRange →
      ∀ condition ∈ conditions, condition.1 < model.univ.size := by
    intro inRange condition member
    have position : condition.1 ∈ (model.ints.filter fun entry => range.contains entry.1).map
        Prod.snd := by
      have keys := congrArg (List.map Prod.fst) (values fun _ => false)
      simp only [List.map_map] at keys
      exact keys ▸ List.mem_map_of_mem member
    rcases List.mem_map.mp position with ⟨entry, entryMember, same⟩
    exact same ▸ inRange entry (List.mem_of_mem_filter entryMember)
  refine Yields.weaken (atomMatrix_yields sameUniverse conditionsKnown)
    fun matrix after _ made => ⟨made.1, fun inRange => made.2.1 (bounded inRange),
      fun assignment => made.2.2 assignment _ fun atom => ?_⟩
  rw [Instance.mem_castAtoms_value, listed]

theorem bitAtoms_yields (known : circuit.KnowsWord word) (width : word.width = range.bitwidth) :
    Yields circuit (bitAtoms leaves range word) fun matrix after =>
      (∀ index, after.Knows (matrix.cell index)) ∧
      (model.AtomsInRange → after.KnowsMatrix model.univ.size 1 matrix) ∧ ∀ assignment,
        matrix.Denotes model.univ 1 assignment ⟨model.univ, 1,
          .ofList (model.castAtoms range .bitset (word.eval assignment))⟩ := by
  have lookup : leaves.bounds.intAtom? = model.intAtom? := by
    funext value
    rw [Bounds.intAtom?, Instance.intAtom?, sameAtoms]
  unfold bitAtoms
  extract_lets weights sign
  have listed : ∀ condition : Nat × Bit, condition ∈ weights ++ sign ↔
      (∃ position < range.bitwidth - 1, model.intAtom? (Digits.weight position) =
        some condition.1 ∧ condition.2 = word.bit position) ∨
      model.intAtom? range.min = some condition.1 ∧ condition.2 = word.sign := by
    rintro ⟨atom, bit⟩
    simp only [weights, sign, lookup, List.mem_append, List.mem_filterMap, List.mem_range,
      Option.map_eq_some_iff, List.mem_map, Option.mem_toList, Prod.mk.injEq]
    refine or_congr ⟨?_, ?_⟩ ⟨?_, ?_⟩
    · rintro ⟨position, below, found, isFound, rfl, rfl⟩
      exact ⟨position, below, isFound, rfl⟩
    · rintro ⟨position, below, isFound, rfl⟩
      exact ⟨position, below, atom, isFound, rfl, rfl⟩
    · rintro ⟨found, isFound, rfl, rfl⟩
      exact ⟨isFound, rfl⟩
    · rintro ⟨isFound, rfl⟩
      exact ⟨atom, isFound, rfl, rfl⟩
  have conditionsKnown : ∀ condition ∈ weights ++ sign, circuit.Knows condition.2 := by
    intro condition member
    rcases (listed condition).mp member with ⟨position, -, -, same⟩ | ⟨-, same⟩
    · exact same ▸ known.bit position
    · exact same ▸ known.sign
  refine Yields.weaken (atomMatrix_yields sameUniverse conditionsKnown)
    fun matrix after _ made => ⟨made.1, fun inRange => made.2.1 ?_,
      fun assignment => made.2.2 assignment _ fun atom => ?_⟩
  · intro condition member
    rcases (listed condition).mp member with ⟨position, -, found, -⟩ | ⟨found, -⟩
    · exact inRange _ (Instance.mem_ints.mpr found)
    · exact inRange _ (Instance.mem_ints.mpr found)
  · rw [Instance.mem_castAtoms_bitset]
    constructor
    · rintro (⟨position, below, set, found⟩ | ⟨negative, found⟩)
      · refine ⟨(atom, word.bit position), (listed _).mpr (.inl ⟨position, below, found, rfl⟩),
          rfl, ?_⟩
        rw [Word.eval_bit (by omega)]
        exact set
      · refine ⟨(atom, word.sign), (listed _).mpr (.inr ⟨found, rfl⟩), rfl, ?_⟩
        rw [Word.eval_sign]
        exact decide_eq_true negative
    · rintro ⟨condition, member, rfl, holds⟩
      rcases (listed condition).mp member with ⟨position, below, found, same⟩ | ⟨found, same⟩
      · rw [same, Word.eval_bit (by omega)] at holds
        exact .inl ⟨position, below, holds, found⟩
      · rw [same, Word.eval_sign, decide_eq_true_iff] at holds
        exact .inr ⟨holds, found⟩

omit sameUniverse in
/-- The integers that are bound to members, and zero for every other one. -/
theorem memberInts_yields {matrix : Matrix}
    (known : ∀ index, circuit.Knows (matrix.cell index)) :
    Yields circuit (memberInts leaves range matrix) fun words after =>
      after.KnowsWords range.bitwidth words ∧ ∀ assignment set,
        matrix.Denotes model.univ 1 assignment set →
        range.sum (model.memberInts range set) =
          Int.bmod (Word.total assignment words) range.size := by
  refine Yields.of_valid fun valid => ?_
  have ints : leaves.bounds.intAtoms.toList = model.ints := by rw [← sameAtoms]; rfl
  rw [memberInts, ints]
  have each : ∀ entry ∈ model.ints.filter fun entry => !(matrix.cell entry.2).isFalse, ∀ after,
      circuit.Extends after → ComputesWord after (Word.choice (matrix.cell entry.2)
        (Word.constant entry.1 range.bitwidth) (Word.zero range.bitwidth)) range.bitwidth
        fun assignment => bif (matrix.cell entry.2).eval assignment then range.wrap entry.1
          else 0 := by
    intro entry _ after grown
    have positive := range.one_le_bitwidth
    have chosen := choice_computes ((known entry.2).mono grown)
      (Word.knows_constant entry.1 positive) (Word.knows_constant 0 positive)
      (by rw [Word.width_constant _ positive, Word.width_constant _ positive])
    rw [Word.width_constant _ positive] at chosen
    rw [Word.zero_eq_constant]
    refine computesWord_congr chosen fun assignment => ?_
    rw [range.eval_constant, range.eval_constant, IntRange.wrap, IntRange.wrap, Int.zero_bmod]
  refine Yields.weaken (mapM_yields (fun held grown => ⟨held.1.mono grown, held.2⟩) each)
    fun words after _ made => ?_
  rcases Word.total_of_forall₂ made with ⟨wordsKnown, total⟩
  refine ⟨wordsKnown, fun assignment set denotes => ?_⟩
  rw [range.sum_eq_bmod, total, Instance.memberInts]
  congr 1
  have holds : ∀ entry : Int × Nat,
      set.containsIndex entry.2 = (matrix.cell entry.2).eval assignment :=
    fun entry => denotes.members entry.2
  have stored : ∀ entry : Int × Nat, (matrix.cell entry.2).eval assignment = true →
      (matrix.cell entry.2).isFalse = false := by
    intro entry member
    rw [Bool.eq_false_iff]
    intro isFalse
    rw [((known entry.2).isFalse_iff valid).mp isFalse, Bit.eval] at member
    cases member
  simp only [holds]
  exact sum_filter_eq model.ints (fun entry => range.wrap entry.1) fun entry member => by
    rw [stored entry member, Bool.not_false]

end Build

end ModelFinder
