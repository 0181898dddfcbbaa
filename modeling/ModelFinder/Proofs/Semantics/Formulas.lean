import Mathlib
import ModelFinder.Proofs.Semantics.Expressions
/-!
Formulas evaluate to the truth values that they denote, if their parts do.
-/

namespace ModelFinder

variable {model : Instance} {range : IntRange}

theorem Connective.apply_eq (op : Connective) (a b : Bool) : op.apply a b = op.denote a b := by
  cases op <;> cases a <;> cases b <;> rfl

theorem Connective.applyList?_eq (op : Connective) (values : List Bool) :
    op.applyList? values = op.denoteList? values := by
  cases op with
  | and => exact congrArg Except.ok (by rw [Bool.eq_iff_iff]; simp)
  | or => exact congrArg Except.ok (by rw [Bool.eq_iff_iff]; simp)
  | iff | implies => rfl

theorem realized_truth {value : Bool} :
    (Formula.literal value).Realized model range ∧
      (Formula.constant value).Realized model range := by
  constructor
  · intro scope env _
    rw [Formula.evaluate, Formula.denote]
    exact .pure rfl
  · intro scope env _
    rw [Formula.evaluate, Formula.denote]
    exact .pure rfl

theorem realized_connected (op : Connective) {left right : Formula}
    (leftRealized : left.Realized model range) (rightRealized : right.Realized model range) :
    (Formula.binary op left right).Realized model range := by
  intro scope env represents
  rw [Formula.evaluate, Formula.denote]
  exact (leftRealized scope env represents).bind fun a a' same =>
    (rightRealized scope env represents).bind fun b b' same' =>
      .pure (by rw [op.apply_eq, same, same'])

private theorem realizes_formulas {operands : List Formula}
    (each : ∀ operand ∈ operands, operand.Realized model range) :
    Evaluate.Realizes model.univ (· = ·) (Formula.evaluateAll model range operands)
      (Formula.denoteAll model.interpretation range.bitwidth operands) := by
  induction operands with
  | nil =>
      intro scope env _
      rw [Formula.evaluateAll, Formula.denoteAll]
      exact .pure rfl
  | cons operand rest hypothesis =>
      rw [List.forall_mem_cons] at each
      intro scope env represents
      rw [Formula.evaluateAll, Formula.denoteAll]
      exact (each.1 scope env represents).bind fun a a' same =>
        (hypothesis each.2 scope env represents).bind fun values values' same' =>
          .pure (by rw [same, same'])

theorem realized_listed (op : Connective) {operands : List Formula}
    (each : ∀ operand ∈ operands, operand.Realized model range) :
    (Formula.nary op operands).Realized model range := by
  intro scope env represents
  rw [Formula.evaluate, Formula.denote]
  refine (realizes_formulas each scope env represents).bind fun values values' same => ?_
  subst same
  exact .except (agree_iff_eq.mpr (op.applyList?_eq values))

theorem realized_negated {operand : Formula} (realized : operand.Realized model range) :
    (Formula.not operand).Realized model range := by
  intro scope env represents
  rw [Formula.evaluate, Formula.denote]
  exact (realized scope env represents).bind fun a a' same => .pure (by rw [same])

theorem realized_compared (op : SetComparison) {left right : Expr}
    (leftRealized : left.Realized model range) (rightRealized : right.Realized model range) :
    (Formula.compare op left right).Realized model range := by
  intro scope env represents
  rw [Formula.evaluate, Formula.denote]
  refine (leftRealized scope env represents).bind fun a aSequences aReads =>
    (rightRealized scope env represents).bind fun b bSequences bReads => ?_
  dsimp only
  by_cases same : left.arity = right.arity
  · rw [if_neg (not_not.mpr same)]
    rw [← same] at bReads
    exact .except (agree_iff_eq.mpr (op.compute?_eq left right aReads bReads))
  · rw [if_pos same]
    refine .except (agree_iff_eq.mpr ?_)
    unfold SetComparison.compute?
    rw [aReads.arity_eq, bReads.arity_eq, if_pos same]
    rfl

theorem realized_multiplicity (amount : Multiplicity) {operand : Expr}
    (realized : operand.Realized model range) :
    (Formula.multiplicity amount operand).Realized model range := by
  intro scope env represents
  rw [Formula.evaluate, Formula.denote]
  exact (realized scope env represents).bind fun set sequences reads =>
    .pure (amount.admits_eq reads)

theorem realized_quantified (sound : model.Sound) (quantifier : Quantifier)
    {declarations : List Decl} {body : Formula}
    (domains : Decl.AllRealized model range declarations) (realized : body.Realized model range) :
    (Formula.quantified quantifier declarations body).Realized model range := by
  intro scope env represents
  rw [Formula.evaluate, Formula.denote]
  refine (realized.groundings sound.nonempty domains scope env represents).bind
    fun values values' same => ?_
  rw [List.forall₂_eq_eq_eq] at same
  subst same
  cases quantifier with
  | all => exact .pure (by rw [Bool.eq_iff_iff]; simp [Quantifier.denote])
  | some => exact .pure (by rw [Bool.eq_iff_iff]; simp [Quantifier.denote])

theorem realized_comparedInts (op : IntComparison) {left right : IntExpr}
    (leftRealized : left.Realized model range) (rightRealized : right.Realized model range) :
    (Formula.compareInts op left right).Realized model range := by
  intro scope env represents
  rw [Formula.evaluate, Formula.denote]
  exact (leftRealized scope env represents).bind fun a a' same =>
    (rightRealized scope env represents).bind fun b b' same' =>
      .pure (by rw [same, same', op.apply_toInt])

end ModelFinder
