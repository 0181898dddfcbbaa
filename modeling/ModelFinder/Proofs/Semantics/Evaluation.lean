import Mathlib
import ModelFinder.Proofs.Semantics.Terms
/-!
The meaning of evaluation. Over an instance that can be made, evaluation without variables in scope
has the result that the term denotes, and fails exactly where the term denotes nothing, with the
error that the denotation reports.
-/

namespace ModelFinder

theorem SetConstant.sort_univ (world : Interpretation) :
    (SetConstant.univ.denote world).sort (· ≤ ·) =
      (List.range world.size).map fun atom => [atom] := by
  have ascending : ((List.range world.size).map fun atom => [atom]).Pairwise (· < ·) :=
    List.pairwise_map.mpr (List.pairwise_lt_range.imp fun less =>
      List.cons_lt_cons_iff.mpr (.inl less))
  have members : SetConstant.univ.denote world =
      ((List.range world.size).map fun atom => [atom]).toFinset := by
    ext
    simp [SetConstant.denote, atomSequences]
  rw [members]
  exact (List.toFinset_sort (· ≤ ·) (ascending.imp fun less => ne_of_lt less)).mpr
    (ascending.imp fun less => le_of_lt less)

namespace Instance

private theorem run?_of_supported {α : Type} {bitwidth : Nat} (positive : 1 ≤ bitwidth)
    (supported : bitwidth ≤ 32) (evaluate : IntRange → Evaluate α) :
    run? bitwidth evaluate =
      ((evaluate ⟨bitwidth, positive, supported⟩).run.run Scope.empty).1 := by
  rw [run?, IntRange.ofBitwidth?, dif_pos ⟨positive, supported⟩]
  rfl

/-- Evaluation gives what terms denote: the truth values of formulas, the sequences of expressions
and the numbers of integer expressions. -/
theorem evaluation_denotes {model : Instance} (made : model.Made) (inRange : model.InRange)
    {bitwidth : Nat} (positive : 1 ≤ bitwidth) (supported : bitwidth ≤ 32) :
    (∀ formula : Formula, formula.Every model.evaluable →
      model.formula? bitwidth formula =
        formula.denote model.interpretation bitwidth fun _ => none) ∧
    (∀ expr : Expr, expr.Every model.evaluable →
      Agree (fun set sequences => set.Reads model.univ expr.arity sequences)
        (model.expr? bitwidth expr)
        (expr.denote model.interpretation bitwidth fun _ => none)) ∧
    ∀ value : IntExpr, value.Every model.evaluable →
      model.int? bitwidth value =
        (value.denote model.interpretation bitwidth fun _ => none).map BitVec.toInt := by
  let range : IntRange := ⟨bitwidth, positive, supported⟩
  have sound := made.sound inRange
  have start := Scope.represents_empty model.univ
  refine ⟨fun formula every => ?_, fun expr every => ?_, fun value every => ?_⟩
  · have realized : formula.Realized model range := Formula.realized sound every
    rw [formula?, run?_of_supported positive supported]
    exact agree_iff_eq.mp (realized _ _ start).agree
  · have realized : expr.Realized model range := Expr.realized sound every
    rw [expr?, run?_of_supported positive supported]
    exact (realized _ _ start).agree
  · have realized : value.Realized model range := IntExpr.realized sound every
    rw [int?, run?_of_supported positive supported]
    exact agree_iff_eq_map.mp (realized _ _ start).agree

end Instance

/-! The cat eats the mouse, and the mouse eats the cheese, which stands for 2. -/

def larder : Universe := ⟨0, ["cat", "mouse", "cheese"]⟩

def eats : Relation := ⟨0, "eats", 2⟩

def meals : TupleSet := ⟨larder, 2, .ofList [1, 5]⟩

def foodChain : Instance := ⟨larder, [(eats, meals)], (∅ : IntAtoms).insert 2 2⟩

def eater : Variable := ⟨0, "eater", 1⟩

def secondMeals : Expr := .binary .join (.relation eats) (.relation eats) 2

def someSecondMeal : Formula :=
  .quantified .some [.oneOf eater (.constant .univ)]
    (.compare .equals (.binary .join (.variable eater) secondMeals 1)
      (.ofInt .value (.binary .divide (.constant 7) (.constant 3))))

theorem foodChain_made : foodChain.Made := by
  have named : Universe.ofAtoms? 0 ["cat", "mouse", "cheese"] = .ok larder := rfl
  have added : (Instance.empty larder).add? eats meals = .ok ⟨larder, [(eats, meals)], ∅⟩ := rfl
  exact (Instance.Made.add (.empty named) added).addAtom 2 2

theorem foodChain_inRange : foodChain.InRange where
  tuples entry member := by
    rw [List.mem_singleton.mp member]
    intro index held
    have atMost : index = 1 ∨ index = 5 := by simpa [meals] using held
    change index < 3 ^ 2
    omega
  atoms entry member := by
    have only : foodChain.ints = [(2, 2)] := rfl
    rw [only] at member
    cases List.mem_singleton.mp member
    decide

theorem secondMeals_evaluable : secondMeals.Every foodChain.evaluable := by
  have pairs : 3 ^ 2 < Index.limit := by decide
  have leaf : (Expr.relation eats).Every foodChain.evaluable := ⟨⟨rfl, pairs⟩, trivial⟩
  exact ⟨⟨⟨rfl, pairs⟩, (by decide : 2 % UInt32.size ≠ 0)⟩, leaf, leaf⟩

theorem someSecondMeal_evaluable : someSecondMeal.Every foodChain.evaluable := by
  have atoms : 3 ^ 1 < Index.limit := by decide
  have number (value : Int) : (IntExpr.constant value).Every foodChain.evaluable :=
    ⟨⟨trivial, trivial⟩, trivial⟩
  have quotient : (IntExpr.binary .divide (.constant 7) (.constant 3)).Every
      foodChain.evaluable := ⟨⟨⟨trivial, trivial⟩, trivial⟩, number 7, number 3⟩
  have joined : (Expr.binary .join (.variable eater) secondMeals 1).Every foodChain.evaluable :=
    ⟨⟨⟨rfl, atoms⟩, (by decide : 2 % UInt32.size ≠ 0)⟩, ⟨⟨rfl, atoms⟩, trivial⟩,
      secondMeals_evaluable⟩
  exact ⟨⟨⟨rfl, trivial⟩, trivial⟩,
    ⟨⟨⟨rfl, trivial⟩, trivial⟩, ⟨⟨trivial, atoms⟩, trivial⟩, trivial⟩,
    ⟨⟨trivial, trivial⟩, trivial⟩, joined, ⟨⟨trivial, atoms⟩, trivial⟩, quotient⟩

theorem someSecondMeal_denote :
    someSecondMeal.denote foodChain.interpretation 4 (fun _ => none) = .ok true := by
  simp only [someSecondMeal, Formula.denote, Decl.denoteDomains, forEach, Expr.denote, bind,
    Except.bind, SetConstant.sort_univ]
  rfl

theorem evaluation_denotes_foodChain :
    foodChain.formula? 4 someSecondMeal = .ok true ∧
    ∃ set, foodChain.expr? 4 secondMeals = .ok set ∧ set.Reads larder 2 {[0, 2]} := by
  have positive : 1 ≤ 4 := by decide
  have supported : 4 ≤ 32 := by decide
  rcases Instance.evaluation_denotes foodChain_made foodChain_inRange positive supported with
    ⟨formulas, exprs, -⟩
  constructor
  · rw [formulas _ someSecondMeal_evaluable, someSecondMeal_denote]
  · have agree := exprs _ secondMeals_evaluable
    have denoted : secondMeals.denote foodChain.interpretation 4 (fun _ => none) =
        .ok {[0, 2]} := rfl
    rw [denoted] at agree
    cases outcome : foodChain.expr? 4 secondMeals with
    | error error =>
        rw [outcome] at agree
        cases agree
    | ok set =>
        rw [outcome] at agree
        cases agree with
        | ok reads => exact ⟨set, rfl, reads⟩

/-! Instances of which evaluation tells something else -/

def hermit : Instance := ⟨hermitage, [(wide, .empty hermitage 4294967296)], ∅⟩

def someWide : Formula :=
  .multiplicity .some (.binary .join (.constant .univ) (.relation wide) 4294967295)

def someStranger : Formula := .multiplicity .some (.relation stranger)

theorem hermit_made : hermit.Made := by
  have added : (Instance.empty hermitage).add? wide (.empty hermitage 4294967296) =
      .ok hermit := rfl
  exact .add (.empty hermitage_named) added

theorem hermit_inRange : hermit.InRange where
  tuples := List.forall_mem_singleton.mpr (TupleSet.inRange_empty _ _)
  atoms _ member := nomatch member

/-- A join whose right side has as many columns as 32 bits can count is refused, although the
tuples of every expression can be counted and the join has none. And an instance may hold what is
no atom: then there are strangers without a tuple of the universe, and its integers, which denote
something, cannot be evaluated. -/
theorem join_refused :
    (hermit.Made ∧ hermit.InRange ∧
      someWide.Every (SyntaxCheck.formed.and (.counted hermit.univ.size)) ∧
      someWide.denote hermit.interpretation 4 (fun _ => none) = .ok false ∧
      hermit.formula? 4 someWide = .error (.violation .overflow)) ∧
    strayModel.Made ∧ TupleSet.stray.Joined ∧
    (∀ formula ∈ [someStranger, someInt], formula.Every strayModel.evaluable) ∧
    strayModel.formula? 4 someStranger = .ok true ∧
    (∀ index < strayModel.univ.size ^ 1, TupleSet.stray.containsIndex index = false) ∧
    someInt.denote strayModel.interpretation 4 (fun _ => none) = .ok true ∧
    ∃ last, strayModel.formula? 4 someInt =
      .error (.invalidArgument (.indexOutOfRange last 1)) := by
  have empty : (TupleSet.empty hermitage 4294967296).sequences = ∅ :=
    (TupleSet.Reads.empty hermitage 4294967296).sequences_eq
  have bound : strayModel.intAtom? 1 = some 3 := rfl
  have atoms : strayModel.univ.size ^ 1 < Index.limit := by decide
  have small (arity : Nat) : hermit.univ.size ^ arity < Index.limit := hermitage_counted arity
  have wideCounted : someWide.Every (SyntaxCheck.formed.and (.counted hermit.univ.size)) :=
    ⟨⟨trivial, trivial⟩, ⟨rfl, small _⟩, ⟨trivial, small _⟩, rfl, small _⟩
  refine ⟨⟨hermit_made, hermit_inRange, wideCounted, ?_, rfl⟩, strayModel_made,
    TupleSet.stray_joined.1, ?_, rfl, ?_, ?_, Instance.someInt_refused rfl bound (by decide)⟩
  · simp [someWide, hermit, Instance.interpretation, Instance.tuples?, empty, SetOp.denote,
      Multiplicity.denote, bind, Except.bind, pure, Except.pure]
  · rintro formula (_ | ⟨_, _ | ⟨_, ⟨⟩⟩⟩)
    · exact ⟨⟨⟨trivial, trivial⟩, trivial⟩, ⟨rfl, atoms⟩, trivial⟩
    · exact ⟨⟨⟨trivial, trivial⟩, trivial⟩, ⟨trivial, atoms⟩, trivial⟩
  · decide
  · rfl

end ModelFinder
