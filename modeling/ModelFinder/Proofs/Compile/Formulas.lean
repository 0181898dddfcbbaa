import Mathlib
import ModelFinder.Proofs.Compile.Branches
import ModelFinder.Proofs.Compile.Operators
/-!
Formulas: if the parts of a formula agree, so does the formula.
-/

namespace ModelFinder.Setting

variable {setting : Setting}

theorem agrees_truth (value : Bool) :
    setting.AgreesFormula (.literal value) ∧ setting.AgreesFormula (.constant value) := by
  constructor <;> intro grounding circuit _ _ <;> rw [Formula.compile, Formula.evaluate] <;>
    exact Compile.Yields.pure ⟨.const value, Evaluate.Gives.pure rfl⟩

theorem agrees_connected (op : Connective) {left right : Formula}
    (leftAgrees : setting.AgreesFormula left) (rightAgrees : setting.AgreesFormula right) :
    setting.AgreesFormula (.binary op left right) := by
  intro grounding circuit inRange ready
  rw [Formula.compile, Formula.evaluate]
  refine Compile.Yields.bind (leftAgrees grounding circuit inRange ready)
    fun leftBit first grown madeLeft => ?_
  refine Compile.Yields.bind (rightAgrees grounding first inRange (ready.mono grown))
    fun rightBit second grownRight madeRight => ?_
  have built := op.build_computes (madeLeft.1.mono grownRight) madeRight.1
  refine Compile.Yields.weaken (Compile.Yields.build built) fun bit after _ made => ⟨made.1, ?_⟩
  refine Evaluate.Gives.bind madeLeft.2
    fun a (sameLeft : a = leftBit.eval setting.assignment) => ?_
  refine Evaluate.Gives.bind madeRight.2
    fun b (sameRight : b = rightBit.eval setting.assignment) => Evaluate.Gives.pure ?_
  rw [sameLeft, sameRight]
  exact (made.2 setting.assignment).symm

private theorem agrees_formulas {operands : List Formula}
    (agrees : ∀ operand ∈ operands, setting.AgreesFormula operand) :
    setting.Agrees (fun circuit bits => circuit.KnowsAll bits)
      (fun bits values => values = bits.map (Bit.eval setting.assignment))
      (Formula.compileAll setting.leaves setting.range operands)
      (Formula.evaluateAll setting.model setting.range operands) := by
  induction operands with
  | nil =>
      intro grounding circuit _ _
      rw [Formula.compileAll, Formula.evaluateAll]
      exact Compile.Yields.pure ⟨Circuit.knowsAll_nil, Evaluate.Gives.pure rfl⟩
  | cons operand rest hypothesis =>
      rw [List.forall_mem_cons] at agrees
      intro grounding circuit inRange ready
      rw [Formula.compileAll, Formula.evaluateAll]
      refine Compile.Yields.bind (agrees.1 grounding circuit inRange ready)
        fun bit first grown made => ?_
      refine Compile.Yields.bind (hypothesis agrees.2 grounding first inRange (ready.mono grown))
        fun bits after grownRest madeAll => Compile.Yields.pure
          ⟨Circuit.knowsAll_cons.mpr ⟨made.1.mono grownRest, madeAll.1⟩, ?_⟩
      refine Evaluate.Gives.bind made.2
        fun value (same : value = bit.eval setting.assignment) => ?_
      refine Evaluate.Gives.bind madeAll.2
        fun values (sameAll : values = bits.map (Bit.eval setting.assignment)) =>
          Evaluate.Gives.pure ?_
      rw [same, sameAll]
      rfl

theorem agrees_listed (op : Connective) {operands : List Formula}
    (agrees : ∀ operand ∈ operands, setting.AgreesFormula operand) :
    setting.AgreesFormula (.nary op operands) := by
  intro grounding circuit inRange ready
  rw [Formula.compile, Formula.evaluate]
  refine Compile.Yields.bind (agrees_formulas agrees grounding circuit inRange ready)
    fun bits first grown madeAll => ?_
  refine Compile.Yields.weaken (Compile.Yields.tryBuild (op.buildList_yields madeAll.1))
    fun bit after _ made => ⟨made.1, ?_⟩
  refine Evaluate.Gives.bind madeAll.2
    fun values (same : values = bits.map (Bit.eval setting.assignment)) => ?_
  rw [same]
  exact Evaluate.Gives.except (made.2 setting.assignment) rfl

theorem agrees_negated {operand : Formula} (agrees : setting.AgreesFormula operand) :
    setting.AgreesFormula (.not operand) := by
  intro grounding circuit inRange ready
  rw [Formula.compile, Formula.evaluate]
  refine Compile.Yields.bind (agrees grounding circuit inRange ready)
    fun bit first grown made => ?_
  refine Compile.Yields.weaken (Compile.Yields.build (Build.not_computes made.1))
    fun negated after _ madeNot => ⟨madeNot.1, ?_⟩
  refine Evaluate.Gives.bind made.2
    fun value (same : value = bit.eval setting.assignment) => Evaluate.Gives.pure ?_
  rw [same]
  exact (madeNot.2 setting.assignment).symm

theorem agrees_compared (op : SetComparison) {left right : Expr}
    (leftAgrees : setting.AgreesExpr left) (rightAgrees : setting.AgreesExpr right) :
    setting.AgreesFormula (.compare op left right) := by
  intro grounding circuit inRange ready
  rw [Formula.compile, Formula.evaluate]
  have checked : Compile.Yields (grounding.matrices setting) circuit
      (liftM (sameArity? left right)) fun _ _ => left.arity = right.arity := by
    refine Compile.Yields.except fun _ same => ?_
    rw [sameArity?] at same
    split at same
    · assumption
    · cases same
  refine Compile.Yields.bind checked fun _ first grown sameArity => ?_
  refine Compile.Yields.bind (leftAgrees grounding first inRange (ready.mono grown))
    fun leftMatrix second grownLeft madeLeft => ?_
  refine Compile.Yields.bind
    (rightAgrees grounding second inRange ((ready.mono grown).mono grownLeft))
    fun rightMatrix third grownRight madeRight => ?_
  rw [← sameArity] at madeRight
  have built := op.build_yields (madeLeft.1.mono grownRight) madeRight.1 left right
  refine Compile.Yields.weaken (Compile.Yields.tryBuild built) fun bit after _ made =>
    ⟨made.1, ?_⟩
  refine Evaluate.Gives.bind madeLeft.2 fun leftSet leftDenotes => ?_
  refine Evaluate.Gives.bind madeRight.2 fun rightSet rightDenotes => ?_
  exact Evaluate.Gives.except (made.2 setting.assignment leftSet rightSet leftDenotes
    rightDenotes) rfl

theorem agrees_multiplicity (amount : Multiplicity) {operand : Expr}
    (agrees : setting.AgreesExpr operand) :
    setting.AgreesFormula (.multiplicity amount operand) := by
  intro grounding circuit inRange ready
  rw [Formula.compile, Formula.evaluate]
  refine Compile.Yields.bind (agrees grounding circuit inRange ready)
    fun matrix first grown made => ?_
  have built := @Multiplicity.build_computes setting.univ first operand.arity amount matrix made.1
  refine Compile.Yields.weaken (Compile.Yields.build built) fun bit after _ counted =>
    ⟨counted.1, ?_⟩
  refine Evaluate.Gives.bind made.2 fun set denotes => Evaluate.Gives.pure ?_
  rw [denotes.size_eq]
  exact (counted.2 setting.assignment).symm

theorem agrees_comparedInts (op : IntComparison) {left right : IntExpr}
    (leftAgrees : setting.AgreesInt left) (rightAgrees : setting.AgreesInt right) :
    setting.AgreesFormula (.compareInts op left right) := by
  intro grounding circuit inRange ready
  rw [Formula.compile, Formula.evaluate]
  refine Compile.Yields.bind (leftAgrees grounding circuit inRange ready)
    fun leftWord first grown madeLeft => ?_
  refine Compile.Yields.bind (rightAgrees grounding first inRange (ready.mono grown))
    fun rightWord second grownRight madeRight => ?_
  have built := op.build_computes (madeLeft.1.1.mono grownRight) madeRight.1.1
  refine Compile.Yields.weaken (Compile.Yields.build built) fun bit after _ made => ⟨made.1, ?_⟩
  refine Evaluate.Gives.bind madeLeft.2
    fun a (sameLeft : a = leftWord.eval setting.assignment) => ?_
  refine Evaluate.Gives.bind madeRight.2
    fun b (sameRight : b = rightWord.eval setting.assignment) => Evaluate.Gives.pure ?_
  rw [sameLeft, sameRight]
  exact (made.2 setting.assignment).symm

private theorem any_of_filter {left right : List Bool}
    (same : left.filter (· ≠ false) = right.filter (· ≠ false)) : left.any id = right.any id := by
  have only : ∀ values : List Bool, values.any id = (values.filter (· ≠ false)).any id := by
    intro values
    rw [List.any_filter]
    congr 1
    funext value
    cases value <;> rfl
  rw [only left, only right, same]

private theorem all_of_filter {left right : List Bool}
    (same : left.filter (· ≠ true) = right.filter (· ≠ true)) : left.all id = right.all id := by
  have only : ∀ values : List Bool, values.all id = (values.filter (· ≠ true)).all id := by
    intro values
    rw [List.all_filter]
    congr 1
    funext value
    cases value <;> rfl
  rw [only left, only right, same]

theorem agrees_quantified (quantifier : Quantifier) {declarations : List Decl} {body : Formula}
    (declarationsAgree : setting.AgreesDecls declarations)
    (bodyAgrees : setting.AgreesFormula body) :
    setting.AgreesFormula (.quantified quantifier declarations body) := by
  intro grounding circuit inRange ready
  cases quantifier with
  | some =>
      rw [Formula.compile.eq_def, Formula.evaluate]
      dsimp only
      have guards : ∀ (circuit : Circuit) (present result : Bit), circuit.Knows present →
          circuit.Knows result → Build.Yields circuit (Build.and present result)
            fun guarded after => after.Knows guarded ∧ guarded.eval setting.assignment =
              bif present.eval setting.assignment then result.eval setting.assignment
              else false := by
        intro circuit present result presentKnown resultKnown
        refine Build.Yields.weaken (Build.and_computes presentKnown resultKnown)
          fun guarded after _ made => ⟨made.1, ?_⟩
        have value := made.2 setting.assignment
        dsimp only at value
        rw [value]
        cases present.eval setting.assignment <;> rfl
      have visits := visits_guarded Build.and bodyAgrees
        (fun bit before after known grown => known.mono grown) guards
      have grounded := ground_yields (fun bit before after known grown => known.mono grown)
        visits declarationsAgree grounding circuit [] inRange ready Circuit.knowsAll_nil
      refine Compile.Yields.bind grounded fun instances first grown made => ?_
      refine Compile.Yields.weaken (Compile.Yields.build (Build.any_computes made.1))
        fun bit after _ held => ⟨held.1, ?_⟩
      refine Evaluate.Gives.bind (made.2.present rfl) fun values same => Evaluate.Gives.pure ?_
      rw [← any_of_filter same, List.any_map]
      exact (held.2 setting.assignment).symm
  | all =>
      rw [Formula.compile.eq_def, Formula.evaluate]
      dsimp only
      have guards : ∀ (circuit : Circuit) (present result : Bit), circuit.Knows present →
          circuit.Knows result → Build.Yields circuit (Build.implies present result)
            fun guarded after => after.Knows guarded ∧ guarded.eval setting.assignment =
              bif present.eval setting.assignment then result.eval setting.assignment
              else true := by
        intro circuit present result presentKnown resultKnown
        refine Build.Yields.weaken (Build.implies_computes presentKnown resultKnown)
          fun guarded after _ made => ⟨made.1, ?_⟩
        have value := made.2 setting.assignment
        dsimp only at value
        rw [value]
        cases present.eval setting.assignment <;> rfl
      have visits := visits_guarded Build.implies bodyAgrees
        (fun bit before after known grown => known.mono grown) guards
      have grounded := ground_yields (fun bit before after known grown => known.mono grown)
        visits declarationsAgree grounding circuit [] inRange ready Circuit.knowsAll_nil
      refine Compile.Yields.bind grounded fun instances first grown made => ?_
      refine Compile.Yields.weaken (Compile.Yields.build (Build.all_computes made.1))
        fun bit after _ held => ⟨held.1, ?_⟩
      refine Evaluate.Gives.bind (made.2.present rfl) fun values same => Evaluate.Gives.pure ?_
      rw [← all_of_filter same, List.all_map]
      exact (held.2 setting.assignment).symm

end ModelFinder.Setting
