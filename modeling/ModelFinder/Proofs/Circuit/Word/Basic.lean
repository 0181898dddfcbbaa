import Mathlib
import ModelFinder.Circuit.Word.Arithmetic
import ModelFinder.Proofs.Digits
import ModelFinder.Proofs.Circuit.Gates
/-!
Words of known bits and what they stand for. A word resized to another width stands for the
same number, wrapped.
-/

namespace ModelFinder

namespace Circuit

def KnowsAll (circuit : Circuit) (bits : List Bit) : Prop := ∀ bit ∈ bits, circuit.Knows bit

def KnowsWord (circuit : Circuit) (word : Word) : Prop := circuit.KnowsAll word.bits

variable {circuit after : Circuit} {bits : List Bit} {word : Word}

theorem KnowsAll.mono (known : circuit.KnowsAll bits) (grown : circuit.Extends after) :
    after.KnowsAll bits :=
  fun bit member => (known bit member).mono grown

theorem KnowsWord.mono (known : circuit.KnowsWord word) (grown : circuit.Extends after) :
    after.KnowsWord word :=
  KnowsAll.mono known grown

@[simp] theorem knowsAll_nil : circuit.KnowsAll [] := by simp [KnowsAll]

@[simp] theorem knowsAll_cons {bit : Bit} :
    circuit.KnowsAll (bit :: bits) ↔ circuit.Knows bit ∧ circuit.KnowsAll bits :=
  List.forall_mem_cons

@[simp] theorem knowsAll_append {more : List Bit} :
    circuit.KnowsAll (bits ++ more) ↔ circuit.KnowsAll bits ∧ circuit.KnowsAll more :=
  List.forall_mem_append

theorem knowsAll_replicate {bit : Bit} (known : circuit.Knows bit) (count : Nat) :
    circuit.KnowsAll (List.replicate count bit) := by
  intro other member
  rw [List.eq_of_mem_replicate member]
  exact known

theorem KnowsAll.take (known : circuit.KnowsAll bits) (count : Nat) :
    circuit.KnowsAll (bits.take count) :=
  fun bit member => known bit (List.mem_of_mem_take member)

theorem KnowsAll.drop (known : circuit.KnowsAll bits) (count : Nat) :
    circuit.KnowsAll (bits.drop count) :=
  fun bit member => known bit (List.mem_of_mem_drop member)

theorem KnowsWord.sign (known : circuit.KnowsWord word) : circuit.Knows word.sign :=
  known _ (List.getLast_mem word.bits_ne_nil)

theorem KnowsWord.bit (known : circuit.KnowsWord word) (position : Nat) :
    circuit.Knows (word.bit position) := by
  rw [Word.bit]
  cases found : word.bits[position]? with
  | none => exact known.sign
  | some bit => exact known bit (List.mem_of_getElem? found)

theorem KnowsWord.extendedBits (known : circuit.KnowsWord word) (width : Nat) :
    circuit.KnowsAll (word.extendedBits width) :=
  knowsAll_append.mpr ⟨known.take width, knowsAll_replicate known.sign _⟩

theorem knowsAll_constantBits (value : Int) (width : Nat) :
    circuit.KnowsAll (Word.constantBits value width) := by
  intro bit member
  rcases List.mem_map.mp member with ⟨position, -, rfl⟩
  exact .const _

end Circuit

namespace Word

variable (assignment : Nat → Bool)

@[simp] theorem width_mk (bits : List Bit) (nonempty : bits ≠ []) :
    width ⟨bits, nonempty⟩ = bits.length := rfl

@[simp] theorem eval_mk (bits : List Bit) (nonempty : bits ≠ []) :
    eval assignment ⟨bits, nonempty⟩ = Digits.signed (bits.map (Bit.eval assignment)) := rfl

theorem ofBits_eq {bits : List Bit} (nonempty : bits ≠ []) : ofBits bits = ⟨bits, nonempty⟩ :=
  dif_pos nonempty

theorem map_eval_ne_nil (word : Word) : word.bits.map (Bit.eval assignment) ≠ [] := by
  simpa using word.bits_ne_nil

theorem eval_bounds (word : Word) :
    -(Digits.weight (word.width - 1) : Int) ≤ word.eval assignment ∧
      word.eval assignment < Digits.weight (word.width - 1) := by
  have bounds := Digits.signed_bounds (word.map_eval_ne_nil assignment)
  rwa [List.length_map] at bounds

theorem eval_eq_bmod (word : Word) :
    word.eval assignment = Int.bmod (Digits.unsigned (word.bits.map (Bit.eval assignment)))
      (Digits.weight word.width) := by
  have wrapped := Digits.signed_eq_bmod (word.map_eval_ne_nil assignment)
  rwa [List.length_map] at wrapped

theorem bmod_eval (word : Word) :
    Int.bmod (word.eval assignment) (Digits.weight word.width) = word.eval assignment := by
  have wrapped := Digits.bmod_signed (word.map_eval_ne_nil assignment)
  rwa [List.length_map] at wrapped

theorem sign_eval_eq_getLast (word : Word) :
    word.sign.eval assignment =
      (word.bits.map (Bit.eval assignment)).getLast (word.map_eval_ne_nil assignment) := by
  rw [List.getLast_map]
  rfl

theorem eval_sign (word : Word) :
    word.sign.eval assignment = decide (word.eval assignment < 0) := by
  rw [sign_eval_eq_getLast, Bool.eq_iff_iff, decide_eq_true_iff]
  exact (Digits.signed_neg_iff (word.map_eval_ne_nil assignment)).symm

@[simp] theorem length_extendedBits (word : Word) (width : Nat) :
    (word.extendedBits width).length = width := by
  rw [extendedBits, List.length_append, List.length_take, List.length_replicate, Word.width]
  omega

/-- A word resized to another width stands for the same number, wrapped. -/
theorem signed_extendedBits (word : Word) {width : Nat} (positive : 0 < width) :
    Digits.signed ((word.extendedBits width).map (Bit.eval assignment)) =
      Int.bmod (word.eval assignment) (Digits.weight width) := by
  rw [extendedBits, List.map_append, List.map_take, List.map_replicate, sign_eval_eq_getLast]
  by_cases short : width ≤ word.width
  · have none : width - word.width = 0 := by omega
    rw [none, List.replicate_zero, List.append_nil,
      Digits.signed_take positive (by rw [List.length_map]; exact short)]
    rfl
  · have all : (word.bits.map (Bit.eval assignment)).length ≤ width := by
      rw [List.length_map]
      exact (not_le.mp short).le
    have bounds := word.eval_bounds assignment
    have larger : Digits.weight (word.width - 1) ≤ Digits.weight (width - 1) :=
      Digits.weight_mono (by omega)
    rw [List.take_of_length_le all, Digits.signed_extend,
      Digits.bmod_of_bounds positive (by omega) (by omega)]
    rfl

theorem signed_extendedBits_of_le (word : Word) {width : Nat} (le : word.width ≤ width) :
    Digits.signed ((word.extendedBits width).map (Bit.eval assignment)) =
      word.eval assignment := by
  have bounds := word.eval_bounds assignment
  have larger : Digits.weight (word.width - 1) ≤ Digits.weight (width - 1) :=
    Digits.weight_mono (by omega)
  have positive := word.width_pos
  rw [signed_extendedBits assignment word (by omega),
    Digits.bmod_of_bounds (by omega) (by omega) (by omega)]

theorem bmod_unsigned_extendedBits (word : Word) {width : Nat} (le : word.width ≤ width) :
    Int.bmod (Digits.unsigned ((word.extendedBits width).map (Bit.eval assignment)))
      (Digits.weight width) = word.eval assignment := by
  have positive := word.width_pos
  have nonempty : (word.extendedBits width).map (Bit.eval assignment) ≠ [] := by
    apply List.length_pos_iff.mp
    rw [List.length_map, length_extendedBits]
    omega
  have wrapped := Digits.signed_eq_bmod nonempty
  rw [List.length_map, length_extendedBits] at wrapped
  rw [← wrapped, signed_extendedBits_of_le assignment word le]

/-! Constant words -/

theorem constantBits_ne_nil (value : Int) {width : Nat} (positive : 0 < width) :
    constantBits value width ≠ [] := by
  simpa [constantBits] using positive.ne'

@[simp] theorem width_constant (value : Int) {width : Nat} (positive : 0 < width) :
    (constant value width).width = width := by
  rw [constant, ofBits_eq (constantBits_ne_nil value positive)]
  simp [constantBits]

theorem eval_constant (value : Int) {width : Nat} (positive : 0 < width) :
    (constant value width).eval assignment = Int.bmod value (Digits.weight width) := by
  rw [constant, ofBits_eq (constantBits_ne_nil value positive), eval_mk, constantBits,
    List.map_map]
  have digits : (List.range width).map (Bit.eval assignment ∘ fun position =>
      Bit.const (Digits.digit value position)) = (List.range width).map (Digits.digit value) :=
    List.map_congr_left fun position _ => by simp [Bit.eval]
  rw [digits, Digits.signed_map_digit value positive]

theorem knows_constant {circuit : Circuit} (value : Int) {width : Nat}
    (positive : 0 < width) : circuit.KnowsWord (constant value width) := by
  rw [constant, ofBits_eq (constantBits_ne_nil value positive)]
  exact Circuit.knowsAll_constantBits value width

theorem zero_eq_constant (width : Nat) : zero width = constant 0 width := by
  rw [zero, constant, constantBits]
  congr 1
  apply List.ext_getElem
  · simp
  · intro position _ _
    simp [Digits.digit]

end Word

/-! Computations of words -/

namespace Build

theorem map_zip_choose {left right : List Bit} (length : left.length = right.length)
    (digit : Bit → Bool) (second : Bool) :
    (left.zip right).map (fun pair => bif second then digit pair.2 else digit pair.1) =
      bif second then right.map digit else left.map digit := by
  cases second with
  | false => simpa [Function.comp_def] using congrArg (List.map digit) (List.map_fst_zip length.le)
  | true => simpa [Function.comp_def] using congrArg (List.map digit) (List.map_snd_zip length.ge)

/-- A computation of known bits whose values are given for every assignment. -/
def ComputesBits (circuit : Circuit) (action : Build (List Bit))
    (values : (Nat → Bool) → List Bool) : Prop :=
  Yields circuit action fun bits after => after.KnowsAll bits ∧
    ∀ assignment, bits.map (Bit.eval assignment) = values assignment

/-- A computation of a known word of a width that stands for a given number under every
assignment. -/
def ComputesWord (circuit : Circuit) (action : Build Word) (width : Nat)
    (value : (Nat → Bool) → Int) : Prop :=
  Yields circuit action fun word after => after.KnowsWord word ∧ word.width = width ∧
    ∀ assignment, word.eval assignment = value assignment

variable {circuit : Circuit}

theorem computesWord_congr {action : Build Word} {width : Nat}
    {value value' : (Nat → Bool) → Int} (computes : ComputesWord circuit action width value)
    (equal : ∀ assignment, value assignment = value' assignment) :
    ComputesWord circuit action width value' := by
  obtain rfl : value = value' := funext equal
  exact computes

theorem computesWord_pure {word : Word} {width : Nat} {value : (Nat → Bool) → Int}
    (known : circuit.KnowsWord word) (isWidth : word.width = width)
    (evaluates : ∀ assignment, word.eval assignment = value assignment) :
    ComputesWord circuit (pure word) width value :=
  Yields.pure ⟨known, isWidth, evaluates⟩

theorem mapM_computes {β : Type} {elements : List β} {action : β → Build Bit}
    {value : β → (Nat → Bool) → Bool}
    (each : ∀ element ∈ elements, ∀ after, circuit.Extends after →
      Computes after (action element) (value element)) :
    ComputesBits circuit (elements.mapM action) fun assignment =>
      elements.map fun element => value element assignment := by
  induction elements generalizing circuit with
  | nil => exact Yields.pure ⟨Circuit.knowsAll_nil, fun _ => rfl⟩
  | cons element rest hypothesis =>
      rw [List.mapM_cons]
      have first := each element List.mem_cons_self circuit (.refl circuit)
      refine Yields.bind first fun bit middle grown made => ?_
      have others := hypothesis fun other member after grownAgain =>
        each other (List.mem_cons_of_mem _ member) after (grown.trans grownAgain)
      refine Yields.bind others fun bits after grownAgain madeAll => Yields.pure ⟨?_, ?_⟩
      · exact Circuit.knowsAll_cons.mpr ⟨made.1.mono grownAgain, madeAll.1⟩
      · intro assignment
        simp only [List.map_cons, made.2, madeAll.2]

theorem mapNot_computes {bits : List Bit} (known : circuit.KnowsAll bits) :
    ComputesBits circuit (bits.mapM Build.not) fun assignment =>
      bits.map fun bit => !bit.eval assignment :=
  mapM_computes fun bit member _ grown => not_computes ((known bit member).mono grown)

theorem ofBits_yields {action : Build (List Bit)} {values : (Nat → Bool) → List Bool}
    {width : Nat} (positive : 0 < width)
    (length : ∀ assignment, (values assignment).length = width)
    (computes : ComputesBits circuit action values) :
    Yields circuit (do return Word.ofBits (← action)) fun word after =>
      after.KnowsWord word ∧ word.width = width ∧
        ∀ assignment, word.bits.map (Bit.eval assignment) = values assignment := by
  refine Yields.bind computes fun bits after grown made => Yields.pure ?_
  have bitsLength : bits.length = width := by
    rw [← length fun _ => true, ← made.2, List.length_map]
  have nonempty : bits ≠ [] := List.length_pos_iff.mp (by omega)
  rw [Word.ofBits_eq nonempty]
  exact ⟨made.1, bitsLength, made.2⟩

theorem ofBits_computes {action : Build (List Bit)} {values : (Nat → Bool) → List Bool}
    {width : Nat} (positive : 0 < width)
    (length : ∀ assignment, (values assignment).length = width)
    (computes : ComputesBits circuit action values) :
    ComputesWord circuit (do return Word.ofBits (← action)) width fun assignment =>
      Digits.signed (values assignment) :=
  Yields.weaken (ofBits_yields positive length computes) fun _ _ _ made =>
    ⟨made.1, made.2.1, fun assignment => congrArg Digits.signed (made.2.2 assignment)⟩

end Build

end ModelFinder
