import Mathlib
import ModelFinder.Proofs.Compile.Branches
import ModelFinder.Proofs.Compile.Operators
/-!
Integer expressions: if the parts of an integer expression agree, so does the expression.
-/

namespace ModelFinder.Setting

variable {setting : Setting}

theorem agrees_integer (value : Int) : setting.AgreesInt (.constant value) := by
  intro grounding circuit _ _
  rw [IntExpr.compile, IntExpr.evaluate]
  have positive := setting.range.one_le_bitwidth
  exact Compile.Yields.pure ⟨⟨Word.knows_constant value positive,
    Word.width_constant value positive⟩,
    Evaluate.Gives.pure (setting.range.eval_constant setting.assignment value).symm⟩

theorem agrees_operated (op : IntOp) {left right : IntExpr}
    (mayFail : op.Divides → setting.mayFail) (leftAgrees : setting.AgreesInt left)
    (rightAgrees : setting.AgreesInt right) : setting.AgreesInt (.binary op left right) := by
  intro grounding circuit inRange ready
  rw [IntExpr.compile, IntExpr.evaluate]
  refine Compile.Yields.bind (leftAgrees grounding circuit inRange ready)
    fun leftWord first grown madeLeft => ?_
  refine Compile.Yields.bind (rightAgrees grounding first inRange (ready.mono grown))
    fun rightWord second grownRight madeRight => ?_
  have admitted : Compile.Yields (grounding.matrices setting) second
      (liftM (op.admits? left right rightWord)) fun _ _ => True :=
    Compile.Yields.except fun _ _ => trivial
  refine Compile.Yields.bind admitted fun _ third grownChecked _ => ?_
  have built := op.build_yields setting.range
    ((madeLeft.1.1.mono grownRight).mono grownChecked) (madeRight.1.1.mono grownChecked)
    madeLeft.1.2 madeRight.1.2 left right
  refine Compile.Yields.weaken (Compile.Yields.build built) fun word after _ made =>
    ⟨⟨made.1, made.2.1⟩, ?_⟩
  refine Evaluate.Gives.bind madeLeft.2
    fun a (sameLeft : a = leftWord.eval setting.assignment) => ?_
  refine Evaluate.Gives.bind madeRight.2
    fun b (sameRight : b = rightWord.eval setting.assignment) => ?_
  rw [sameLeft, sameRight]
  rcases made.2.2 setting.assignment with computed | ⟨divides, failed⟩
  · exact Evaluate.Gives.except computed rfl
  · exact Evaluate.Gives.division (mayFail divides) failed

theorem agrees_unary (op : IntUnaryOp) {operand : IntExpr}
    (agrees : setting.AgreesInt operand) : setting.AgreesInt (.unary op operand) := by
  intro grounding circuit inRange ready
  rw [IntExpr.compile, IntExpr.evaluate]
  refine Compile.Yields.bind (agrees grounding circuit inRange ready)
    fun word first grown made => ?_
  have built := op.build_computes setting.range made.1.1 made.1.2
  refine Compile.Yields.weaken (Compile.Yields.build built) fun result after _ computed =>
    ⟨⟨computed.1, computed.2.1⟩, ?_⟩
  refine Evaluate.Gives.bind made.2
    fun value (same : value = word.eval setting.assignment) => Evaluate.Gives.pure ?_
  rw [same]
  exact (computed.2.2 setting.assignment).symm

private theorem agrees_ints {operands : List IntExpr}
    (agrees : ∀ operand ∈ operands, setting.AgreesInt operand) :
    setting.Agrees (fun circuit words => circuit.KnowsWords setting.range.bitwidth words)
      (fun words values => values = words.map (Word.eval setting.assignment))
      (IntExpr.compileAll setting.leaves setting.range operands)
      (IntExpr.evaluateAll setting.model setting.range operands) := by
  induction operands with
  | nil =>
      intro grounding circuit _ _
      rw [IntExpr.compileAll, IntExpr.evaluateAll]
      exact Compile.Yields.pure ⟨Circuit.knowsWords_nil, Evaluate.Gives.pure rfl⟩
  | cons operand rest hypothesis =>
      rw [List.forall_mem_cons] at agrees
      intro grounding circuit inRange ready
      rw [IntExpr.compileAll, IntExpr.evaluateAll]
      refine Compile.Yields.bind (agrees.1 grounding circuit inRange ready)
        fun word first grown made => ?_
      refine Compile.Yields.bind (hypothesis agrees.2 grounding first inRange (ready.mono grown))
        fun words after grownRest madeAll => Compile.Yields.pure
          ⟨Circuit.knowsWords_cons.mpr
            ⟨⟨made.1.1.mono grownRest, made.1.2⟩, madeAll.1⟩, ?_⟩
      refine Evaluate.Gives.bind made.2
        fun value (same : value = word.eval setting.assignment) => ?_
      refine Evaluate.Gives.bind madeAll.2
        fun values (sameAll : values = words.map (Word.eval setting.assignment)) =>
          Evaluate.Gives.pure ?_
      rw [same, sameAll]
      rfl

private theorem sumAll_yields {scope : Scope Matrix} {circuit : Circuit}
    (ready : setting.Ready circuit) {words : List Word}
    (known : circuit.KnowsWords setting.range.bitwidth words) :
    Compile.Yields scope circuit (liftM (Word.sumAll words)) fun word after =>
      (after.KnowsWord word ∧ word.width = setting.range.bitwidth) ∧
        word.eval setting.assignment =
          setting.range.sum (words.map (Word.eval setting.assignment)) := by
  have positive := setting.range.one_le_bitwidth
  rw [← ready.width] at positive known
  refine Compile.Yields.weaken (Compile.Yields.tryBuild (TryBuild.sumAll_yields positive known))
    fun word after _ made => ⟨⟨made.1, made.2.1.trans ready.width⟩, ?_⟩
  rw [made.2.2, IntRange.sum_eq_bmod, ready.width]
  rfl

theorem agrees_sum {operands : List IntExpr}
    (agrees : ∀ operand ∈ operands, setting.AgreesInt operand) :
    setting.AgreesInt (.sum operands) := by
  intro grounding circuit inRange ready
  rw [IntExpr.compile, IntExpr.evaluate]
  refine Compile.Yields.bind (agrees_ints agrees grounding circuit inRange ready)
    fun words first grown madeAll => ?_
  refine Compile.Yields.weaken (sumAll_yields (ready.mono grown) madeAll.1)
    fun word after _ made => ⟨made.1, ?_⟩
  refine Evaluate.Gives.bind madeAll.2
    fun values (same : values = words.map (Word.eval setting.assignment)) =>
      Evaluate.Gives.pure ?_
  rw [same]
  exact made.2.symm

theorem agrees_count {operand : Expr} (agrees : setting.AgreesExpr operand) :
    setting.AgreesInt (.count operand) := by
  intro grounding circuit inRange ready
  rw [IntExpr.compile, IntExpr.evaluate]
  refine Compile.Yields.bind (agrees grounding circuit inRange ready)
    fun matrix first grown made => ?_
  have width := (ready.mono grown).width
  have positive := setting.range.one_le_bitwidth
  rw [← width] at positive
  refine Compile.Yields.weaken (Compile.Yields.tryBuild
    (TryBuild.popcount_yields positive (Matrix.knows_values made.1)))
      fun word after _ counted => ⟨⟨counted.1, counted.2.1.trans width⟩, ?_⟩
  refine Evaluate.Gives.bind made.2 fun set denotes => Evaluate.Gives.pure ?_
  change setting.range.wrap set.size = word.eval setting.assignment
  rw [counted.2.2, width, denotes.size_eq]
  rfl

private theorem sum_of_filter {left right : List Int}
    (same : left.filter (· ≠ 0) = right.filter (· ≠ 0)) : left.sum = right.sum := by
  have only : ∀ values : List Int, values.sum = (values.filter (· ≠ 0)).sum := by
    intro values
    induction values with
    | nil => rfl
    | cons first rest hypothesis =>
        by_cases zero : first = 0
        · simp [zero, hypothesis]
        · simp [zero, hypothesis]
  rw [only left, only right, same]

theorem agrees_sumOver {declarations : List Decl} {term : IntExpr}
    (declarationsAgree : setting.AgreesDecls declarations) (termAgrees : setting.AgreesInt term) :
    setting.AgreesInt (.sumOver declarations term) := by
  intro grounding circuit inRange ready
  rw [IntExpr.compile, IntExpr.evaluate]
  have positive := setting.range.one_le_bitwidth
  have stable : ∀ word (before after : Circuit),
      before.KnowsWord word ∧ word.width = setting.range.bitwidth → before.Extends after →
        after.KnowsWord word ∧ word.width = setting.range.bitwidth :=
    fun word before after known grown => ⟨known.1.mono grown, known.2⟩
  have guards : ∀ (circuit : Circuit) (present : Bit) (word : Word), circuit.Knows present →
      circuit.KnowsWord word ∧ word.width = setting.range.bitwidth →
      Build.Yields circuit (Word.choice present word (Word.zero setting.range.bitwidth))
        fun guarded after =>
          (after.KnowsWord guarded ∧ guarded.width = setting.range.bitwidth) ∧
          guarded.eval setting.assignment =
            bif present.eval setting.assignment then word.eval setting.assignment else 0 := by
    intro circuit present word presentKnown wordKnown
    have zeroWidth := Word.width_constant 0 positive
    have chosen := Build.choice_computes presentKnown wordKnown.1
      (Word.knows_constant 0 positive) (wordKnown.2.trans zeroWidth.symm)
    rw [Word.zero_eq_constant]
    refine Build.Yields.weaken chosen fun guarded after _ made =>
      ⟨⟨made.1, made.2.1.trans zeroWidth⟩, ?_⟩
    have value := made.2.2 setting.assignment
    dsimp only at value
    rw [value, setting.range.eval_constant, IntRange.wrap, Int.zero_bmod]
  have visits := visits_guarded _ termAgrees stable guards
  have grounded := ground_yields stable visits declarationsAgree grounding circuit [] inRange
    ready Circuit.knowsAll_nil
  refine Compile.Yields.bind grounded fun terms first grown made => ?_
  refine Compile.Yields.weaken (sumAll_yields (ready.mono grown) made.1)
    fun word after _ held => ⟨held.1, ?_⟩
  refine Evaluate.Gives.bind (made.2.present rfl) fun values same => Evaluate.Gives.pure ?_
  rw [IntRange.sum_eq_bmod, ← sum_of_filter same, ← IntRange.sum_eq_bmod]
  exact held.2.symm

theorem agrees_chosenInt {condition : Formula} {thenInt elseInt : IntExpr}
    (conditionAgrees : setting.AgreesFormula condition)
    (thenAgrees : setting.AgreesInt thenInt) (elseAgrees : setting.AgreesInt elseInt) :
    setting.AgreesInt (.ite condition thenInt elseInt) := by
  intro grounding circuit inRange ready
  rw [IntExpr.compile, IntExpr.evaluate]
  refine agrees_conditional
    (fun bit thenWord elseWord => liftM (Word.choice bit thenWord elseWord))
    conditionAgrees thenAgrees elseAgrees
    (fun word before after known grown => ⟨known.1.mono grown, known.2⟩)
    ?_ grounding circuit inRange ready
  intro scope after bit thenWord elseWord bitKnown thenKnown elseKnown
  refine Compile.Yields.weaken (Compile.Yields.build (Build.choice_computes bitKnown thenKnown.1
    elseKnown.1 (thenKnown.2.trans elseKnown.2.symm))) fun word last _ made =>
      ⟨⟨made.1, made.2.1.trans elseKnown.2⟩, fun value =>
        ⟨fun holds (same : value = thenWord.eval setting.assignment) => ?_,
          fun fails (same : value = elseWord.eval setting.assignment) => ?_⟩⟩
  · simp only [made.2.2, holds, cond_true, same]
  · simp only [made.2.2, fails, cond_false, same]

theorem agrees_sumOf (sound : setting.Sound) {operand : Expr}
    (agrees : setting.AgreesExpr operand) : setting.AgreesInt (.sumOf operand) := by
  intro grounding circuit inRange ready
  rw [IntExpr.compile, IntExpr.evaluate]
  split
  · exact Compile.Yields.bind (Compile.Yields.throw) fun _ _ _ (impossible : False) =>
      impossible.elim
  · rename_i unary
    have isUnary : operand.arity = 1 := not_not.mp unary
    refine Compile.Yields.bind (agrees grounding circuit inRange ready)
      fun matrix first grown made => ?_
    rw [isUnary] at made
    have sameUniverse : setting.model.univ = setting.univ := sound.realizes.univ
    have known : first.KnowsMatrix setting.model.univ.size 1 matrix := by
      rw [sameUniverse]
      exact made.1
    have members := @Build.memberInts_yields first setting.leaves setting.model setting.range
      sound.realizes.intAtoms matrix known.cell
    refine Compile.Yields.bind (Compile.Yields.build members) fun words second grownWords held => ?_
    refine Compile.Yields.weaken (sumAll_yields ((ready.mono grown).mono grownWords) held.1)
      fun word after _ added => ⟨added.1, ?_⟩
    refine Evaluate.Gives.bind made.2 fun set denotes => Evaluate.Gives.pure ?_
    rw [← sameUniverse] at denotes
    rw [held.2 setting.assignment set denotes]
    refine Eq.symm (added.2.trans ?_)
    rw [IntRange.sum_eq_bmod]
    rfl

end ModelFinder.Setting
