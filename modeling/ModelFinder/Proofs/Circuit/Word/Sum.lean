import Mathlib
import ModelFinder.Proofs.Circuit.Word.Addition
/-!
Sums of any number of words of one width. Every round of additions keeps the sum of the words,
wrapped.
-/

namespace ModelFinder

namespace Circuit

/-- All words of a list are of one width, and their bits may be used with a circuit. -/
def KnowsWords (circuit : Circuit) (width : Nat) (words : List Word) : Prop :=
  ∀ word ∈ words, circuit.KnowsWord word ∧ word.width = width

variable {circuit after : Circuit} {width : Nat} {words : List Word}

theorem KnowsWords.mono (known : circuit.KnowsWords width words)
    (grown : circuit.Extends after) : after.KnowsWords width words :=
  fun word member => ⟨(known word member).1.mono grown, (known word member).2⟩

@[simp] theorem knowsWords_nil : circuit.KnowsWords width [] := by simp [KnowsWords]

@[simp] theorem knowsWords_cons {word : Word} :
    circuit.KnowsWords width (word :: words) ↔
      (circuit.KnowsWord word ∧ word.width = width) ∧ circuit.KnowsWords width words :=
  List.forall_mem_cons

end Circuit

def Word.total (assignment : Nat → Bool) (words : List Word) : Int :=
  (words.map (Word.eval assignment)).sum

@[simp] theorem Word.total_nil (assignment : Nat → Bool) : Word.total assignment [] = 0 := rfl

@[simp] theorem Word.total_cons (assignment : Nat → Bool) (word : Word) (words : List Word) :
    Word.total assignment (word :: words) = word.eval assignment + Word.total assignment words :=
  rfl

theorem Word.total_of_forall₂ {β : Type} {circuit : Circuit} {width : Nat} {elements : List β}
    {words : List Word} {value : β → (Nat → Bool) → Int}
    (made : List.Forall₂ (fun element word => circuit.KnowsWord word ∧ word.width = width ∧
      ∀ assignment, word.eval assignment = value element assignment) elements words) :
    circuit.KnowsWords width words ∧ ∀ assignment,
      Word.total assignment words =
        (elements.map fun element => value element assignment).sum := by
  induction made with
  | nil => exact ⟨Circuit.knowsWords_nil, fun _ => rfl⟩
  | cons first _ hypothesis =>
      refine ⟨Circuit.knowsWords_cons.mpr ⟨⟨first.1, first.2.1⟩, hypothesis.1⟩,
        fun assignment => ?_⟩
      rw [Word.total_cons, first.2.2, hypothesis.2, List.map_cons, List.sum_cons]

theorem Word.of_zero? {width : Nat} {word : Word} (positive : 0 < width)
    (made : Word.zero? width = .ok word) : word = Word.zero width := by
  have nonempty : List.replicate width (Bit.const false) ≠ [] := by simpa using positive.ne'
  rw [Word.zero?, Word.ofBits?, dif_pos nonempty] at made
  rw [Word.zero, Word.ofBits_eq nonempty]
  exact (Except.ok.inj made).symm

namespace Build

variable {circuit : Circuit} {width : Nat}

theorem addNeighbours_yields {words : List Word} (known : circuit.KnowsWords width words) :
    Yields circuit (Word.addNeighbours words) fun sums after =>
      after.KnowsWords width sums ∧ sums.length = (words.length + 1) / 2 ∧ ∀ assignment,
        Int.bmod (Word.total assignment sums) (Digits.weight width) =
          Int.bmod (Word.total assignment words) (Digits.weight width) := by
  induction words using Word.addNeighbours.induct generalizing circuit with
  | case1 left right rest hypothesis =>
      simp only [Circuit.knowsWords_cons] at known
      rcases known with ⟨⟨leftKnown, leftWidth⟩, ⟨rightKnown, rightWidth⟩, restKnown⟩
      rw [Word.addNeighbours]
      refine Yields.bind (plus_computes leftKnown rightKnown) fun sum first grown made => ?_
      rcases made with ⟨sumKnown, sumWidth, sumValue⟩
      rw [leftWidth, rightWidth, max_self] at sumWidth sumValue
      refine Yields.bind (hypothesis (restKnown.mono grown)) fun sums after grownAgain made =>
        Yields.pure ⟨?_, ?_, fun assignment => ?_⟩
      · exact Circuit.knowsWords_cons.mpr ⟨⟨sumKnown.mono grownAgain, sumWidth⟩, made.1⟩
      · simp only [List.length_cons, made.2.1]
        omega
      · rw [Word.total_cons, Word.total_cons, Word.total_cons, sumValue, Int.bmod_add_bmod,
          ← add_assoc, ← Int.add_bmod_bmod, made.2.2, Int.add_bmod_bmod]
  | case2 words shape =>
      have unchanged : Word.addNeighbours words = pure words := by
        rw [Word.addNeighbours.eq_def]
        split
        · exact absurd rfl (shape _ _ _)
        · rfl
      have length : words.length = (words.length + 1) / 2 := by
        match words, shape with
        | [], _ => simp
        | [_], _ => simp
        | left :: right :: rest, shape => exact absurd rfl (shape left right rest)
      rw [unchanged]
      exact Yields.pure ⟨known, length, fun _ => rfl⟩

theorem addRounds_yields {rounds : Nat} {words : List Word}
    (known : circuit.KnowsWords width words) (enough : words.length ≤ rounds + 1) :
    Yields circuit (Word.addRounds rounds words) fun sums after =>
      after.KnowsWords width sums ∧ sums.length = min words.length 1 ∧ ∀ assignment,
        Int.bmod (Word.total assignment sums) (Digits.weight width) =
          Int.bmod (Word.total assignment words) (Digits.weight width) := by
  induction rounds generalizing circuit words with
  | zero =>
      have unchanged : Word.addRounds 0 words = pure words := by rw [Word.addRounds]; simp
      rw [unchanged]
      exact Yields.pure ⟨known, by omega, fun _ => rfl⟩
  | succ rounds hypothesis =>
      match words, known, enough with
      | [], known, _ => exact Yields.pure ⟨known, rfl, fun _ => rfl⟩
      | [word], known, _ => exact Yields.pure ⟨known, rfl, fun _ => rfl⟩
      | left :: right :: rest, known, enough =>
          rw [Word.addRounds]
          refine Yields.bind (addNeighbours_yields known) fun sums after grown made => ?_
          rcases made with ⟨sumsKnown, length, total⟩
          simp only [List.length_cons] at length enough
          refine Yields.weaken (hypothesis sumsKnown (by omega)) fun last final _ madeLast =>
            ⟨madeLast.1, ?_, fun assignment => (madeLast.2.2 assignment).trans (total assignment)⟩
          rw [madeLast.2.1]
          simp only [List.length_cons]
          omega

end Build

/-- The sum of words of one width; if there are none, it has the circuit's width. -/
theorem TryBuild.sumAll_yields_common {circuit : Circuit} {width : Nat} {words : List Word}
    (empty : words = [] → circuit.width = width ∧ 0 < width)
    (known : circuit.KnowsWords width words) :
    TryBuild.Yields circuit (Word.sumAll words) fun word after =>
      after.KnowsWord word ∧ word.width = width ∧ ∀ assignment,
        word.eval assignment = Int.bmod (Word.total assignment words) (Digits.weight width) := by
  rw [Word.sumAll]
  refine Yields.bind (Yields.lift (Build.addRounds_yields known (Nat.le_succ _)))
    fun sums after grown made => ?_
  rcases made with ⟨sumsKnown, length, total⟩
  cases sums with
  | nil =>
      rw [List.length_nil] at length
      have none : words = [] := List.length_eq_zero_iff.mp (by omega)
      rcases empty none with ⟨isWidth, positive⟩
      have read : TryBuild.Yields after get fun current _ => current.width = width :=
        Yields.get (grown.width.trans isWidth)
      refine Yields.bind read fun current last _ sameWidth => ?_
      refine Yields.except fun word made => ?_
      rw [sameWidth] at made
      rcases Word.of_zero? positive made with rfl
      rw [Word.zero_eq_constant]
      refine ⟨Word.knows_constant 0 positive, Word.width_constant 0 positive, fun assignment => ?_⟩
      rw [Word.eval_constant assignment 0 positive, none, Word.total_nil]
  | cons sum rest =>
      have single : rest = [] := List.length_eq_zero_iff.mp (by
        rw [List.length_cons] at length
        omega)
      rw [Circuit.knowsWords_cons] at sumsKnown
      refine Yields.pure ⟨sumsKnown.1.1, sumsKnown.1.2, fun assignment => ?_⟩
      have value := total assignment
      rw [single, Word.total_cons, Word.total_nil, add_zero, ← sumsKnown.1.2, Word.bmod_eval]
        at value
      rw [value, sumsKnown.1.2]

theorem TryBuild.sumAll_yields {circuit : Circuit} {words : List Word}
    (positive : 0 < circuit.width) (known : circuit.KnowsWords circuit.width words) :
    TryBuild.Yields circuit (Word.sumAll words) fun word after =>
      after.KnowsWord word ∧ word.width = circuit.width ∧ ∀ assignment,
        word.eval assignment =
          Int.bmod (Word.total assignment words) (Digits.weight circuit.width) :=
  sumAll_yields_common (fun _ => ⟨rfl, positive⟩) known

end ModelFinder
