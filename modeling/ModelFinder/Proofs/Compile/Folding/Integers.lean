import Mathlib
import ModelFinder.Proofs.Circuit.Word.Constant
import ModelFinder.Proofs.Compile.Integers
import ModelFinder.Proofs.Compile.Folding.Expressions
import ModelFinder.Proofs.Compile.Folding.Formulas
/-!
Integer expressions over bounds that leave nothing open: if the parts of an integer expression
settle, so does the expression.
-/

namespace ModelFinder

theorem Word.value?_of_folded {circuit : Circuit} {word : Word}
    (held : BitFamily.folded.All circuit word) (narrow : word.width ≤ 32)
    (assignment : Nat → Bool) : word.value? = .ok (some (word.eval assignment)) := by
  apply Word.value?_of_isConst _ assignment narrow
  exact List.all_eq_true.mpr fun bit member => by
    rw [BitFamily.const_of_folded ((BitFamily.all_word.mp held).of_mem member) assignment]
    rfl

/-- An operator refuses a constant divisor just where it has no value. -/
theorem IntOp.admits?_eq (op : IntOp) (range : IntRange) (left right : IntExpr) {word : Word}
    (a : Int) {b : Int} (value : word.value? = .ok (some b)) :
    op.admits? left right word = (op.compute? range left right a b).map fun _ => () := by
  have divisor : ∀ outcome : Except Error Int, (∃ quotient, outcome = .ok quotient) →
      (do if (← word.value?) == some 0 then throw (.divisionByZero left op right)) =
        (if b = 0 then .error (.divisionByZero left op right) else outcome).map fun _ => () := by
    rintro _ ⟨quotient, rfl⟩
    rw [value]
    by_cases zero : b = 0
    · rw [if_pos zero, zero]
      rfl
    · rw [if_neg zero]
      exact if_neg (by simpa using zero)
  cases op with
  | divide => exact divisor _ ⟨_, rfl⟩
  | modulo => exact divisor _ ⟨_, rfl⟩
  | plus | minus | multiply | and | or | xor | shl | shr | sha => rfl

namespace Setting

open BitFamily

variable {setting : Setting}

theorem settles_integer (value : Int) : setting.SettlesInt (.constant value) := by
  intro grounding inRange
  rw [IntExpr.compile, IntExpr.evaluate]
  have positive := setting.range.one_le_bitwidth
  exact .pure ⟨all_constant _ _, Word.width_constant value positive,
    setting.range.eval_constant setting.assignment value⟩

theorem settles_operated (op : IntOp) {left right : IntExpr}
    (leftSettles : setting.SettlesInt left) (rightSettles : setting.SettlesInt right) :
    setting.SettlesInt (.binary op left right) := by
  intro grounding inRange
  rw [IntExpr.compile, IntExpr.evaluate]
  refine .bind (leftSettles grounding inRange) fun leftWord a leftFolds => ?_
  refine .bind (rightSettles grounding inRange) fun rightWord b rightFolds => ?_
  have value := Word.value?_of_folded rightFolds.folded
    (rightFolds.width ▸ setting.range.bitwidth_le) setting.assignment
  rw [rightFolds.value] at value
  rcases run_of_folded setting.valid_start
    (closed_folded.intOp op leftFolds.folded rightFolds.folded)
    (op.build_yields setting.range leftFolds.known rightFolds.known leftFolds.width
      rightFolds.width left right) with ⟨word, ran, held, -, width, computed⟩
  have computed := computed setting.assignment
  rw [leftFolds.value, rightFolds.value] at computed
  have check := op.admits?_eq setting.range left right a value
  rcases computed with computed | ⟨-, failed⟩
  · rw [computed] at check
    exact .checked check (.built ⟨word, _, ran, computed, held, width, rfl⟩)
  · rw [failed] at check
    exact .refused check ⟨_, congrArg (·.1) (congrArg (fun outcome : Except Error Int =>
      (liftM outcome : Evaluate Int).run.run (grounding.sets setting)) failed)⟩

theorem settles_unary (op : IntUnaryOp) {operand : IntExpr}
    (settles : setting.SettlesInt operand) : setting.SettlesInt (.unary op operand) := by
  intro grounding inRange
  rw [IntExpr.compile, IntExpr.evaluate]
  refine .bind (settles grounding inRange) fun word number folds => ?_
  exact settled_word (closed_folded.intUnaryOp op folds.folded)
    (op.build_computes setting.range folds.known folds.width) (by rw [folds.value])

private theorem settles_ints {operands : List IntExpr}
    (settles : ∀ operand ∈ operands, setting.SettlesInt operand) :
    setting.Settles (List.Forall₂ setting.FoldsWord)
      (IntExpr.compileAll setting.leaves setting.range operands)
      (IntExpr.evaluateAll setting.model setting.range operands) := by
  induction operands with
  | nil =>
      intro grounding _
      rw [IntExpr.compileAll, IntExpr.evaluateAll]
      exact .pure .nil
  | cons operand rest hypothesis =>
      rw [List.forall_mem_cons] at settles
      intro grounding inRange
      rw [IntExpr.compileAll, IntExpr.evaluateAll]
      exact .bind (settles.1 grounding inRange) fun _ _ folds =>
        .bind (hypothesis settles.2 grounding inRange) fun _ _ all => .pure (.cons folds all)

private theorem facts_of_folds {words : List Word} {numbers : List Int}
    (all : List.Forall₂ setting.FoldsWord words numbers) :
    folded.All setting.start words ∧
      setting.start.KnowsWords setting.range.bitwidth words ∧
      words.map (Word.eval setting.assignment) = numbers := by
  induction all with
  | nil => exact ⟨all_nil, Circuit.knowsWords_nil, rfl⟩
  | cons folds _ hypothesis =>
      refine ⟨all_cons.mpr ⟨folds.folded, hypothesis.1⟩,
        Circuit.knowsWords_cons.mpr ⟨⟨folds.known, folds.width⟩, hypothesis.2.1⟩, ?_⟩
      rw [List.map_cons, folds.value, hypothesis.2.2]

private theorem settled_sumAll {scope : Scope Matrix} {sets : Scope TupleSet} {words : List Word}
    (held : folded.All setting.start words)
    (known : setting.start.KnowsWords setting.range.bitwidth words) {number : Int}
    (total : Int.bmod (Word.total setting.assignment words) setting.range.size = number) :
    Settled scope sets setting.start setting.FoldsWord (liftM (Word.sumAll words))
      (Pure.pure number) := by
  have positive : 0 < setting.start.width := setting.range.one_le_bitwidth
  rcases run_of_folded_succeeds setting.valid_start (closed_folded.sumAll held)
    (.sumAll (.inr positive)) (TryBuild.sumAll_yields positive known) with
    ⟨word, ran, wordHeld, -, width, value⟩
  exact @Settled.tryBuilt _ _ _ _ _ _ _ (.ok number)
    ⟨word, number, ran, rfl, wordHeld, width, (value _).trans total⟩

theorem settles_sum {operands : List IntExpr}
    (settles : ∀ operand ∈ operands, setting.SettlesInt operand) :
    setting.SettlesInt (.sum operands) := by
  intro grounding inRange
  rw [IntExpr.compile, IntExpr.evaluate]
  refine .bind (settles_ints settles grounding inRange) fun words numbers all => ?_
  rcases facts_of_folds all with ⟨held, known, same⟩
  refine settled_sumAll held known ?_
  rw [IntRange.sum_eq_bmod, ← same]
  rfl

theorem settles_count {operand : Expr} (settles : setting.SettlesExpr operand) :
    setting.SettlesInt (.count operand) := by
  intro grounding inRange
  rw [IntExpr.compile, IntExpr.evaluate]
  refine .bind (settles grounding inRange) fun matrix set folds => ?_
  have positive : 0 < setting.start.width := setting.range.one_le_bitwidth
  rcases run_of_folded_succeeds setting.valid_start (closed_folded.popcount folds.folded)
    (.popcount positive) (TryBuild.popcount_yields positive (Matrix.knows_values folds.known)) with
    ⟨word, ran, held, -, width, value⟩
  refine @Settled.tryBuilt _ _ _ _ _ _ _ (.ok _) ⟨word, _, ran, rfl, held, width, ?_⟩
  rw [value, folds.denotes.size_eq]
  rfl

theorem settles_sumOver {declarations : List Decl} {term : IntExpr}
    (declarationsSettle : setting.SettlesDecls declarations)
    (termSettles : setting.SettlesInt term) :
    setting.SettlesInt (.sumOver declarations term) := by
  intro grounding inRange
  rw [IntExpr.compile, IntExpr.evaluate]
  have visits := @settles_guarded setting _ _ setting.FoldsWord _ _
    (fun present value => Word.choice present value (Word.zero setting.range.bitwidth))
    termSettles fun scope sets word number folds =>
      @Settled.built _ _ _ _ _ _ _ (.ok number) ⟨word, number, rfl, rfl, folds⟩
  refine .bind (settles_ground visits declarationsSettle [] (List.forall_mem_nil _) grounding
    inRange) fun words numbers all => ?_
  rcases facts_of_folds all with ⟨held, known, same⟩
  refine settled_sumAll held known ?_
  rw [IntRange.sum_eq_bmod, ← same]
  rfl

theorem settles_chosenInt {condition : Formula} {thenInt elseInt : IntExpr}
    (conditionSettles : setting.SettlesFormula condition)
    (thenSettles : setting.SettlesInt thenInt) (elseSettles : setting.SettlesInt elseInt) :
    setting.SettlesInt (.ite condition thenInt elseInt) := by
  intro grounding inRange
  rw [IntExpr.compile, IntExpr.evaluate]
  exact settles_conditional
    (fun bit thenWord elseWord => liftM (Word.choice bit thenWord elseWord))
    conditionSettles thenSettles elseSettles grounding inRange

theorem settles_sumOf (sound : setting.Sound) {operand : Expr}
    (settles : setting.SettlesExpr operand) : setting.SettlesInt (.sumOf operand) := by
  intro grounding inRange
  rw [IntExpr.compile, IntExpr.evaluate]
  split
  · exact .inr ⟨⟨_, rfl⟩, _, rfl⟩
  · rename_i unary
    have isUnary : operand.arity = 1 := not_not.mp unary
    refine .bind (settles grounding inRange) fun matrix set folds => ?_
    rw [isUnary] at folds
    have sameUniverse : setting.model.univ = setting.univ := sound.realizes.univ
    have known : setting.start.KnowsMatrix setting.model.univ.size 1 matrix := by
      rw [sameUniverse]
      exact folds.known
    rcases run_of_folded setting.valid_start (closed_folded.memberInts folds.folded)
      (@Build.memberInts_yields setting.start setting.leaves setting.model setting.range
        sound.realizes.intAtoms matrix known.cell) with ⟨words, ran, held, wordsKnown, members⟩
    have denotes := folds.denotes
    rw [← sameUniverse] at denotes
    exact .step ran (settled_sumAll held wordsKnown (members _ set denotes).symm)

end Setting

end ModelFinder
