import Mathlib
import ModelFinder.Proofs.Circuit.Arithmetic
import ModelFinder.Proofs.Circuit.Dimensions.Matrices
import ModelFinder.Proofs.Compile.Sets
/-!
Relational algebra of matrices whose cells were made with a circuit: constants, variables and
results of any earlier tasks. An assignment of the variables picks a set of tuples out of a
matrix, those whose cells it makes true. Under every assignment the operations on matrices are
the operations on these sets, and what counts cells counts tuples.
-/

namespace ModelFinder

namespace Matrix

variable {univ : Universe} {assignment : Nat → Bool} {matrix : Matrix}

/-- The set of the tuples whose cells are true under an assignment. -/
def tuples (univ : Universe) (assignment : Nat → Bool) (matrix : Matrix) : TupleSet :=
  ⟨univ, matrix.arity, .ofList (matrix.members assignment)⟩

theorem denotes_tuples (univ : Universe) (assignment : Nat → Bool) (matrix : Matrix) :
    matrix.Denotes univ matrix.arity assignment (matrix.tuples univ assignment) := by
  refine ⟨rfl, rfl, fun index => ?_⟩
  rw [tuples, TupleSet.containsIndex_ofList, Bool.eq_iff_iff, List.contains_iff_mem, mem_members]

theorem Denotes.eq_tuples {arity : Nat} {set : TupleSet}
    (denotes : matrix.Denotes univ arity assignment set) (same : matrix.arity = arity) :
    set = matrix.tuples univ assignment := by
  subst same
  exact (denotes.eq_iff (matrix.denotes_tuples univ assignment)).mpr fun _ => rfl

theorem Shaped.knows {circuit : Circuit} {size arity : Nat} (shaped : matrix.Shaped size arity)
    (known : circuit.KnowsAll matrix.values) : circuit.KnowsMatrix size arity matrix := by
  refine ⟨shaped.universeSize_eq, shaped.arity_eq, fun found => ?_⟩
  have stored := shaped.stored found
  refine ⟨known _ (List.mem_map_of_mem (mem_entries.mpr found)), fun constant => ?_, stored.1⟩
  rw [constant] at stored
  exact absurd stored.2 (by decide)

theorem Shaped.of_knows {circuit : Circuit} (valid : circuit.Valid) {size arity : Nat}
    (known : circuit.KnowsMatrix size arity matrix) : matrix.Shaped size arity := by
  refine ⟨known.universeSize_eq, known.arity_eq, fun found => ?_⟩
  obtain ⟨bitKnown, nonconstant, inRange⟩ := known.stored found
  exact ⟨inRange, Bool.eq_false_iff.mpr fun isFalse =>
    nonconstant ((bitKnown.isFalse_iff valid).mp isFalse)⟩

end Matrix

theorem Circuit.KnowsMatrix.denotes_tuples {circuit : Circuit} {univ : Universe} {arity : Nat}
    {matrix : Matrix} (known : circuit.KnowsMatrix univ.size arity matrix)
    (assignment : Nat → Bool) :
    matrix.Denotes univ arity assignment (matrix.tuples univ assignment) := by
  have denotes := matrix.denotes_tuples univ assignment
  rwa [known.arity_eq] at denotes

theorem Circuit.KnowsMatrix.dimensions_eq {circuit : Circuit} {size arity : Nat}
    {left right : Matrix} (leftKnown : circuit.KnowsMatrix size arity left)
    (rightKnown : circuit.KnowsMatrix size arity right) :
    left.universeSize = right.universeSize ∧ left.arity = right.arity :=
  ⟨leftKnown.universeSize_eq.trans rightKnown.universeSize_eq.symm,
    leftKnown.arity_eq.trans rightKnown.arity_eq.symm⟩

/-- What is known of the result of a computation that does not fail. -/
theorem TryBuild.Succeeds.yields {α : Type} {circuit : Circuit} {action : TryBuild α}
    {post : α → Circuit → Prop} (succeeds : Succeeds circuit action)
    (yields : Yields circuit action post) (valid : circuit.Valid) :
    ∃ value after, (action.run circuit).1 = .ok value ∧ after.Valid ∧ post value after := by
  rcases succeeds with ⟨value, ran⟩
  obtain ⟨afterValid, _, holds⟩ := yields valid
  exact ⟨value, _, ran, afterValid, holds value ran⟩

/-! Operations on sets -/

section

variable {univ : Universe} {circuit : Circuit} {left right : Matrix}
variable {leftArity rightArity arity : Nat} (valid : circuit.Valid) (assignment : Nat → Bool)

include valid

theorem SetOp.build_relates (op : SetOp) (positive : 0 < univ.size)
    (fitting : op.Fitting leftArity rightArity arity)
    (countable : op.Countable univ.size leftArity rightArity)
    (leftKnown : circuit.KnowsMatrix univ.size leftArity left)
    (rightKnown : circuit.KnowsMatrix univ.size rightArity right) : ∃ result : Matrix,
    ((op.build left right).run circuit).1 = .ok result ∧ result.Shaped univ.size arity ∧
    op.compute? (left.tuples univ assignment) (right.tuples univ assignment) =
      .ok (result.tuples univ assignment) := by
  rcases (op.build_succeeds positive fitting countable leftKnown rightKnown).yields
    (op.build_yields positive fitting countable leftKnown rightKnown) valid with
    ⟨result, after, ran, afterValid, known, gives⟩
  rcases gives assignment _ _ (leftKnown.denotes_tuples assignment)
    (rightKnown.denotes_tuples assignment) with ⟨set, computed, denotes⟩
  exact ⟨result, ran, .of_knows afterValid known,
    computed.trans (congrArg _ (denotes.eq_tuples known.arity_eq))⟩

section

variable (leftKnown : circuit.KnowsMatrix univ.size arity left)
  (rightKnown : circuit.KnowsMatrix univ.size arity right)

include leftKnown rightKnown

theorem Matrix.choice_relates {condition : Bit} (conditionKnown : circuit.Knows condition) :
    ∃ result : Matrix, ((choice? condition left right).run circuit).1 = .ok result ∧
      result.Shaped univ.size arity ∧ result.tuples univ assignment =
        bif condition.eval assignment
          then left.tuples univ assignment else right.tuples univ assignment := by
  have same := leftKnown.dimensions_eq rightKnown
  rcases (TryBuild.Succeeds.choice same.1 same.2 condition).yields
    (TryBuild.choice_computes leftKnown rightKnown conditionKnown) valid with
    ⟨result, after, ran, afterValid, known, cells⟩
  have denotes := known.denotes_tuples assignment
  refine ⟨result, ran, .of_knows afterValid known, ?_⟩
  cases held : condition.eval assignment with
  | true =>
      exact (denotes.eq_iff (leftKnown.denotes_tuples assignment)).mpr
        fun index => by simp [cells, held]
  | false =>
      exact (denotes.eq_iff (rightKnown.denotes_tuples assignment)).mpr
        fun index => by simp [cells, held]

theorem Matrix.subset_relates : ∃ bit : Bit, ((left.subset? right).run circuit).1 = .ok bit ∧
    bit.eval assignment =
      (left.tuples univ assignment).isSubset (right.tuples univ assignment) := by
  have same := leftKnown.dimensions_eq rightKnown
  rcases (TryBuild.Succeeds.subset same.1 same.2).yields
    (TryBuild.subset_yields leftKnown rightKnown) valid with ⟨bit, after, ran, -, -, included⟩
  refine ⟨bit, ran, ?_⟩
  rw [Bool.eq_iff_iff, included, (leftKnown.denotes_tuples assignment).isSubset_iff
    (rightKnown.denotes_tuples assignment)]

theorem Matrix.equals_relates : ∃ bit : Bit, ((left.equals? right).run circuit).1 = .ok bit ∧
    bit.eval assignment =
      decide (left.tuples univ assignment = right.tuples univ assignment) := by
  have same := leftKnown.dimensions_eq rightKnown
  rcases (TryBuild.Succeeds.equals same.1 same.2).yields
    (TryBuild.equals_yields leftKnown rightKnown) valid with ⟨bit, after, ran, -, -, equal⟩
  refine ⟨bit, ran, ?_⟩
  rw [Bool.eq_iff_iff, equal, decide_eq_true_iff, (leftKnown.denotes_tuples assignment).eq_iff
    (rightKnown.denotes_tuples assignment)]

end

end

namespace Circuit

variable {primary width : Nat} {circuit : Circuit} {made : List Bit}
  {performed : List (Task × Except Error Value)}

/-- Operators, choices and comparisons of matrices of fitting arities. Their results are those
of the sets of tuples; a join and a product need positions that can be counted. -/
theorem History.relates (history : History primary width circuit made performed)
    {univ : Universe} (positive : 0 < univ.size) {left right : Matrix}
    (leftShaped : left.Shaped univ.size left.arity)
    (rightShaped : right.Shaped univ.size right.arity)
    (leftMade : left.values ⊆ made) (rightMade : right.values ⊆ made)
    (assignment : Nat → Bool) :
    let first := left.tuples univ assignment
    let second := right.tuples univ assignment
    (∀ (op : SetOp) (arity : Nat), op.Fitting left.arity right.arity arity →
      op.Countable univ.size left.arity right.arity → ∃ result : Matrix,
        ((op.build left right).run circuit).1 = .ok result ∧ result.Shaped univ.size arity ∧
        op.compute? first second = .ok (result.tuples univ assignment)) ∧
    (left.arity = right.arity →
      (∀ condition ∈ made, ∃ result : Matrix,
        ((Matrix.choice? condition left right).run circuit).1 = .ok result ∧
        result.Shaped univ.size left.arity ∧
        result.tuples univ assignment = bif condition.eval assignment then first else second) ∧
      (∃ bit : Bit, ((left.subset? right).run circuit).1 = .ok bit ∧
        bit.eval assignment = first.isSubset second) ∧
      ∃ bit : Bit, ((left.equals? right).run circuit).1 = .ok bit ∧
        bit.eval assignment = decide (first = second)) := by
  intro first second
  have valid := history.sound.valid
  have leftKnown := leftShaped.knows (history.knowsAll leftMade)
  have rightKnown := rightShaped.knows (history.knowsAll rightMade)
  refine ⟨fun op arity fitting countable =>
    op.build_relates valid assignment positive fitting countable leftKnown rightKnown,
    fun sameArity => ?_⟩
  rw [← sameArity] at rightKnown
  exact ⟨fun condition conditionMade => Matrix.choice_relates valid assignment leftKnown rightKnown
      (history.sound.known condition conditionMade),
    Matrix.subset_relates valid assignment leftKnown rightKnown,
    Matrix.equals_relates valid assignment leftKnown rightKnown⟩

def kitchen : Universe := ⟨0, ["cat", "mouse"]⟩

def hunts : Matrix := ((Matrix.empty 2 2).set 1 (.var 1)).set 2 (.var 2)

def fears : Matrix := ((Matrix.empty 2 2).set 1 (.var 3)).set 2 (.const true)

def catHunting (label : Nat) : Bool := label == 1

theorem History.relates_kitchen :
    (∃ result : Matrix, ((hunts.join? fears).run (empty 3 4)).1 = .ok result ∧
      result.tuples kitchen catHunting = ⟨kitchen, 2, .ofList [0]⟩) ∧
    (∃ result : Matrix, ((Matrix.choice? (.var 1) hunts fears).run (empty 3 4)).1 = .ok result ∧
      result.tuples kitchen catHunting = ⟨kitchen, 2, .ofList [1]⟩) ∧
    ∃ bit : Bit, ((hunts.subset? fears).run (empty 3 4)).1 = .ok bit ∧
      bit.eval catHunting = false := by
  have history := (ofVariables (by decide : 3 < 2147483647) 4 (le_refl 3)).const true
  have huntsShaped : hunts.Shaped kitchen.size hunts.arity :=
    ((Matrix.Shaped.empty 2 2).set (by decide) _).set (by decide) _
  have fearsShaped : fears.Shaped kitchen.size fears.arity :=
    ((Matrix.Shaped.empty 2 2).set (by decide) _).set (by decide) _
  have huntsMade : hunts.values ⊆ .const true :: firstVariables 3 := by
    have values : hunts.values = [.var 1, .var 2] := rfl
    simp [values, firstVariables]
  have fearsMade : fears.values ⊆ .const true :: firstVariables 3 := by
    have values : fears.values = [.var 3, .const true] := rfl
    simp [values, firstVariables]
  obtain ⟨operators, comparisons⟩ := history.relates (by decide) huntsShaped fearsShaped huntsMade
    fearsMade catHunting
  obtain ⟨choices, included, _⟩ := comparisons rfl
  rcases operators .join 2 ⟨by decide, rfl⟩
    ⟨1, 1, rfl, rfl, rfl, by decide, by decide, by decide⟩ with ⟨joined, joins, -, composed⟩
  rcases choices (.var 1) (by simp [firstVariables]) with ⟨chosen, chooses, -, same⟩
  rcases included with ⟨bit, decided, value⟩
  exact ⟨⟨joined, joins, Except.ok.inj (composed.symm.trans rfl)⟩, ⟨chosen, chooses, same⟩,
    bit, decided, value⟩

/-- Over two atoms the rows of a matrix of arity 64 do not all end at a countable position. Where
the last row is needed, a join is refused, although the sets can be joined. Over a single atom
all positions can be counted; but sets are not joined where the low bits of the arity on the right
are zero, although matrices without cells are. -/
theorem History.matrix_join_refused :
    (let left := (Matrix.empty 2 1).set 1 (.var 1)
    let right := (Matrix.empty 2 64).set 0 (.var 2)
    History 2 4 (empty 2 4) [.var 2, .var 1] [] ∧
      left.Shaped 2 1 ∧ left.values = [.var 1] ∧ right.Shaped 2 64 ∧ right.values = [.var 2] ∧
      ((left.join? right).run (empty 2 4)).1 = .error (.violation .overflow) ∧
      (left.tuples kitchen fun _ => false).join? (right.tuples kitchen fun _ => false) =
        .ok (.empty kitchen 63)) ∧
    let cell : Universe := ⟨0, ["cat"]⟩
    let left := Matrix.empty 1 1
    let right := Matrix.empty 1 4294967296
    left.Shaped 1 1 ∧ right.Shaped 1 4294967296 ∧ (∀ arity, cell.size ^ arity = 1) ∧
      ((left.join? right).run (empty 2 4)).1 = .ok (.empty 1 4294967295) ∧
      (left.tuples cell fun _ => false).join? (right.tuples cell fun _ => false) =
        .error (.violation .overflow) :=
  ⟨⟨ofVariables (by decide) 4 (le_refl 2), (Matrix.Shaped.empty 2 1).set (by decide) _, rfl,
    (Matrix.Shaped.empty 2 64).set (by decide) _, rfl, rfl, rfl⟩,
    .empty 1 1, .empty 1 4294967296, one_pow, rfl, rfl⟩

/-! Sizes -/

/-- Whether some, no, at most one or exactly one cell is true, the number of true cells, and
sums of any number of words of one width. A sum of no words and a number of cells are words of
the circuit's width, of which there are none unless it is positive. -/
theorem History.counts (history : History primary width circuit made performed)
    {matrix : Matrix} (cellsMade : matrix.values ⊆ made) {words : List Word} {common : Nat}
    (wordsMade : ∀ word ∈ words, word.bits ⊆ made ∧ word.width = common)
    (assignment : Nat → Bool) :
    let number := matrix.count assignment
    let total := (words.map (Word.eval assignment)).sum
    ((matrix.some circuit).1.eval assignment = decide (0 < number) ∧
      (matrix.none circuit).1.eval assignment = decide (number = 0) ∧
      (matrix.lone circuit).1.eval assignment = decide (number ≤ 1) ∧
      (matrix.one circuit).1.eval assignment = decide (number = 1)) ∧
    (0 < width → ∃ word : Word, (matrix.popcount.run circuit).1 = .ok word ∧
      word.width = width ∧ word.eval assignment = Int.bmod number (Digits.weight width)) ∧
    (words ≠ [] → ∃ word : Word, ((Word.sumAll words).run circuit).1 = .ok word ∧
      word.width = common ∧ word.eval assignment = Int.bmod total (Digits.weight common)) ∧
    (0 < width → ∃ word : Word, ((Word.sumAll []).run circuit).1 = .ok word ∧
      word.width = width ∧ word.eval assignment = 0) := by
  intro number total
  have valid := history.sound.valid
  have cellsKnown := history.knowsAll cellsMade
  refine ⟨⟨?_, ?_, ?_, ?_⟩, fun positive => ?_, fun nonempty => ?_, fun positive => ?_⟩
  · exact (Build.some_computes cellsKnown valid).2.2.2 assignment
  · exact (Build.none_computes cellsKnown valid).2.2.2 assignment
  · exact (Build.lone_computes cellsKnown valid).2.2.2 assignment
  · exact (Build.one_computes cellsKnown valid).2.2.2 assignment
  · rw [← history.width_eq] at positive ⊢
    rcases (TryBuild.Succeeds.popcount positive).yields
      (TryBuild.popcount_yields positive cellsKnown) valid with
      ⟨word, after, ran, -, -, sameWidth, value⟩
    exact ⟨word, ran, sameWidth, value assignment⟩
  · have wordsKnown : circuit.KnowsWords common words := fun word member =>
      ⟨history.knowsAll (wordsMade word member).1, (wordsMade word member).2⟩
    rcases (TryBuild.Succeeds.sumAll (.inl nonempty)).yields
      (TryBuild.sumAll_yields_common (fun none => absurd none nonempty) wordsKnown) valid with
      ⟨word, after, ran, -, -, sameWidth, value⟩
    exact ⟨word, ran, sameWidth, value assignment⟩
  · rw [← history.width_eq] at positive ⊢
    rcases (TryBuild.Succeeds.sumAll (.inr positive)).yields
      (TryBuild.sumAll_yields positive Circuit.knowsWords_nil) valid with
      ⟨word, after, ran, -, -, sameWidth, value⟩
    exact ⟨word, ran, sameWidth, (value assignment).trans Int.zero_bmod⟩

theorem History.counts_wrapped :
    let matrix := (((Matrix.empty 3 1).set 0 (.var 1)).set 1 (.var 2)).set 2 (.var 3)
    let words : List Word :=
      [.ofBits [.var 1, .var 2], .ofBits [.var 2, .var 1], .ofBits [.var 1, .var 3]]
    let assignment (label : Nat) : Bool := [1, 3].contains label
    (matrix.some (empty 3 2)).1.eval assignment = true ∧
      (matrix.none (empty 3 2)).1.eval assignment = false ∧
      (matrix.lone (empty 3 2)).1.eval assignment = false ∧
      (matrix.one (empty 3 2)).1.eval assignment = false ∧
      (∃ word : Word, (matrix.popcount.run (empty 3 2)).1 = .ok word ∧
        word.eval assignment = -2) ∧
      (∃ word : Word, ((Word.sumAll words).run (empty 3 2)).1 = .ok word ∧
        word.eval assignment = -2) ∧
      ∃ word : Word, ((Word.sumAll []).run (empty 3 2)).1 = .ok word ∧
        word.eval assignment = 0 := by
  intro matrix words assignment
  have history := ofVariables (by decide : 3 < 2147483647) 2 (le_refl 3)
  have cellsMade : matrix.values ⊆ firstVariables 3 := by
    have values : matrix.values = [.var 1, .var 2, .var 3] := rfl
    simp [values, firstVariables]
  have wordsMade : ∀ word ∈ words, word.bits ⊆ firstVariables 3 ∧ word.width = 2 := by
    simp [words, firstVariables, Word.width]
  have number : matrix.count assignment = 2 := rfl
  obtain ⟨⟨present, absent, atMostOne, single⟩, counted, added, nothing⟩ :=
    history.counts cellsMade wordsMade assignment
  rw [number] at present absent atMostOne single counted
  rcases counted (by decide) with ⟨size, counting, -, two⟩
  rcases added (by simp [words]) with ⟨sum, adding, -, total⟩
  rcases nothing (by decide) with ⟨zero, gives, -, naught⟩
  exact ⟨present, absent, atMostOne, single, ⟨size, counting, two.trans (by decide)⟩,
    ⟨sum, adding, total.trans (by decide)⟩, zero, gives, naught⟩

/-- A circuit whose integers have no bits has no word for a number of cells or for an empty
sum. -/
theorem History.counts_refused : History 0 0 (empty 0 0) [] [] ∧
    ((Matrix.empty 1 1).popcount.run (empty 0 0)).1 = .error (.violation .emptyWord) ∧
    ((Word.sumAll []).run (empty 0 0)).1 = .error (.violation .emptyWord) :=
  ⟨.start (empty?_of_lt (by decide) 0), rfl, rfl⟩

end Circuit

end ModelFinder
