import Mathlib
import ModelFinder.Proofs.Semantics.Formulas
/-!
Integer expressions evaluate to the numbers that they denote, if their parts do. So, by induction
on the syntax, evaluation gives what terms denote.
-/

namespace ModelFinder

variable {model : Instance} {range : IntRange}

theorem realized_integer (value : Int) : (IntExpr.constant value).Realized model range := by
  intro scope env _
  rw [IntExpr.evaluate, IntExpr.denote]
  exact .pure (range.wrap_eq_toInt value)

theorem realized_operated (op : IntOp) {left right : IntExpr}
    (leftRealized : left.Realized model range) (rightRealized : right.Realized model range) :
    (IntExpr.binary op left right).Realized model range := by
  intro scope env represents
  rw [IntExpr.evaluate, IntExpr.denote]
  refine (leftRealized scope env represents).bind fun number a same =>
    (rightRealized scope env represents).bind fun number' b same' => ?_
  subst same same'
  exact .except (agree_iff_eq_map.mpr (op.compute?_toInt range left right a b))

theorem realized_unary (op : IntUnaryOp) {operand : IntExpr}
    (realized : operand.Realized model range) :
    (IntExpr.unary op operand).Realized model range := by
  intro scope env represents
  rw [IntExpr.evaluate, IntExpr.denote]
  exact (realized scope env represents).bind fun number a same =>
    .pure (by rw [same, op.apply_toInt])

private theorem realizes_ints {operands : List IntExpr}
    (each : ∀ operand ∈ operands, operand.Realized model range) :
    Evaluate.Realizes model.univ
      (fun numbers (values : List (BitVec range.bitwidth)) => numbers = values.map BitVec.toInt)
      (IntExpr.evaluateAll model range operands)
      (IntExpr.denoteAll model.interpretation range.bitwidth operands) := by
  induction operands with
  | nil =>
      intro scope env _
      rw [IntExpr.evaluateAll, IntExpr.denoteAll]
      exact .pure rfl
  | cons operand rest hypothesis =>
      rw [List.forall_mem_cons] at each
      intro scope env represents
      rw [IntExpr.evaluateAll, IntExpr.denoteAll]
      exact (each.1 scope env represents).bind fun number a same =>
        (hypothesis each.2 scope env represents).bind fun numbers values same' =>
          .pure (by rw [same, same', List.map_cons])

theorem realized_sum {operands : List IntExpr}
    (each : ∀ operand ∈ operands, operand.Realized model range) :
    (IntExpr.sum operands).Realized model range := by
  intro scope env represents
  rw [IntExpr.evaluate, IntExpr.denote]
  exact (realizes_ints each scope env represents).bind fun numbers values same =>
    .pure (by rw [same, range.sum_map_toInt])

theorem realized_count {operand : Expr} (realized : operand.Realized model range) :
    (IntExpr.count operand).Realized model range := by
  intro scope env represents
  rw [IntExpr.evaluate, IntExpr.denote]
  exact (realized scope env represents).bind fun set sequences reads =>
    .pure (by rw [range.wrap_eq_toInt, reads.card_eq, BitVec.ofInt_natCast])

theorem realized_sumOver (sound : model.Sound) {declarations : List Decl} {term : IntExpr}
    (domains : Decl.AllRealized model range declarations) (realized : term.Realized model range) :
    (IntExpr.sumOver declarations term).Realized model range := by
  intro scope env represents
  rw [IntExpr.evaluate, IntExpr.denote]
  refine (realized.groundings sound.nonempty domains scope env represents).bind
    fun numbers values same => .pure ?_
  rw [← List.forall₂_map_right_iff, List.forall₂_eq_eq_eq] at same
  rw [same, range.sum_map_toInt]

theorem realized_chosenInt {condition : Formula} {thenInt elseInt : IntExpr}
    (conditionRealized : condition.Realized model range)
    (thenRealized : thenInt.Realized model range) (elseRealized : elseInt.Realized model range) :
    (IntExpr.ite condition thenInt elseInt).Realized model range := by
  intro scope env represents
  rw [IntExpr.evaluate, IntExpr.denote]
  refine (conditionRealized scope env represents).bind fun value meaning same => ?_
  subst same
  cases value with
  | true => exact thenRealized scope env represents
  | false => exact elseRealized scope env represents

theorem realized_sumOf (sound : model.Sound) {operand : Expr}
    (realized : operand.Realized model range) : (IntExpr.sumOf operand).Realized model range := by
  intro scope env represents
  rw [IntExpr.evaluate, IntExpr.denote]
  dsimp only
  by_cases unary : operand.arity = 1
  · rw [if_neg (not_not.mpr unary), if_neg (not_not.mpr unary)]
    rw [Expr.Realized, unary] at realized
    exact (realized scope env represents).bind fun set sequences reads =>
      .pure (sound.sum_memberInts range reads)
  · rw [if_pos unary, if_pos unary]
    exact .throw _

/-! All terms -/

/-- Formed terms of which every expression's tuples can be counted and all joins are counted. -/
abbrev Instance.evaluable (model : Instance) : SyntaxCheck :=
  (SyntaxCheck.formed.and (.counted model.univ.size)).and .joinable

private theorem formed_of_evaluable {expr : Expr} (made : model.evaluable.expr expr) :
    SyntaxCheck.formed.expr expr :=
  made.1.1

mutual

theorem Expr.realized (sound : model.Sound) : ∀ {expr : Expr},
    expr.Every model.evaluable → expr.Realized model range
  | .relation leaf, _ => realized_relation sound leaf
  | .variable leaf, _ => realized_variable leaf
  | .constant leaf, made => realized_constant sound leaf made.1.2
  | .binary _ _ _ _, made =>
    realized_combined sound made.1.1.1
      (Expr.countable_of_combine? made.1.1.1 (Expr.arity_pos formed_of_evaluable made.2.1)
        (Expr.arity_pos formed_of_evaluable made.2.2) made.2.2.root.1.2 made.1.1.2 made.1.2)
      (Expr.realized sound made.2.1) (Expr.realized sound made.2.2)
  | .union _ _, made =>
    realized_union (Expr.realized_all sound made.2) (Expr.arities_of_unionAll? made.1.1.1)
  | .ite _ _ _ _, made =>
    have arities := Formula.arity_of_choose? made.1.1.1
    realized_chosenExpr arities.2.symm (arities.1.symm.trans arities.2.symm)
      (Formula.realized sound made.2.1) (Expr.realized sound made.2.2.1)
      (Expr.realized sound made.2.2.2)
  | .ofInt cast _, made => realized_cast sound cast made.1.1.2 (IntExpr.realized sound made.2)

theorem Expr.realized_all (sound : model.Sound) : ∀ {operands : List Expr},
    Expr.EveryAll model.evaluable operands →
      ∀ operand ∈ operands, operand.Realized model range
  | [], _ => fun _ member => nomatch member
  | _ :: _, made =>
    List.forall_mem_cons.mpr ⟨Expr.realized sound made.1, Expr.realized_all sound made.2⟩

theorem Formula.realized (sound : model.Sound) : ∀ {formula : Formula},
    formula.Every model.evaluable → formula.Realized model range
  | .literal _, _ => realized_truth.1
  | .constant _, _ => realized_truth.2
  | .binary op _ _, made =>
    realized_connected op (Formula.realized sound made.2.1) (Formula.realized sound made.2.2)
  | .nary op _, made => realized_listed op (Formula.realized_all sound made.2)
  | .not _, made => realized_negated (Formula.realized sound made.2)
  | .compare op _ _, made =>
    realized_compared op (Expr.realized sound made.2.1) (Expr.realized sound made.2.2)
  | .multiplicity amount _, made => realized_multiplicity amount (Expr.realized sound made.2)
  | .quantified quantifier _ _, made =>
    realized_quantified sound quantifier (Decl.realized_all sound made.2.1)
      (Formula.realized sound made.2.2)
  | .compareInts op _ _, made =>
    realized_comparedInts op (IntExpr.realized sound made.2.1) (IntExpr.realized sound made.2.2)

theorem Formula.realized_all (sound : model.Sound) : ∀ {operands : List Formula},
    Formula.EveryAll model.evaluable operands →
      ∀ operand ∈ operands, operand.Realized model range
  | [], _ => fun _ member => nomatch member
  | _ :: _, made =>
    List.forall_mem_cons.mpr ⟨Formula.realized sound made.1, Formula.realized_all sound made.2⟩

theorem IntExpr.realized (sound : model.Sound) : ∀ {value : IntExpr},
    value.Every model.evaluable → value.Realized model range
  | .constant value, _ => realized_integer value
  | .binary op _ _, made =>
    realized_operated op (IntExpr.realized sound made.2.1) (IntExpr.realized sound made.2.2)
  | .unary op _, made => realized_unary op (IntExpr.realized sound made.2)
  | .sum _, made => realized_sum (IntExpr.realized_all sound made.2)
  | .count _, made => realized_count (Expr.realized sound made.2)
  | .sumOver _ _, made =>
    realized_sumOver sound (Decl.realized_all sound made.2.1) (IntExpr.realized sound made.2.2)
  | .ite _ _ _, made =>
    realized_chosenInt (Formula.realized sound made.2.1) (IntExpr.realized sound made.2.2.1)
      (IntExpr.realized sound made.2.2.2)
  | .sumOf _, made => realized_sumOf sound (Expr.realized sound made.2)

theorem IntExpr.realized_all (sound : model.Sound) : ∀ {operands : List IntExpr},
    IntExpr.EveryAll model.evaluable operands →
      ∀ operand ∈ operands, operand.Realized model range
  | [], _ => fun _ member => nomatch member
  | _ :: _, made =>
    List.forall_mem_cons.mpr ⟨IntExpr.realized sound made.1, IntExpr.realized_all sound made.2⟩

theorem Decl.realized_all (sound : model.Sound) : ∀ {declarations : List Decl},
    Decl.EveryAll model.evaluable declarations → Decl.AllRealized model range declarations
  | [], _ => .nil
  | .oneOf _ _ :: _, made =>
    .cons (Decl.arity_of_oneOf? made.1.1.1) made.2.1.root.1.2 (Expr.realized sound made.2.1)
      (Decl.realized_all sound made.2.2)

end

end ModelFinder
