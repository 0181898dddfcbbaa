import Mathlib
import ModelFinder.Proofs.Casts.Members
import ModelFinder.Proofs.Compile.Agreement
import ModelFinder.Proofs.Scoping.Restoring
import ModelFinder.Proofs.Semantics.Integers
/-!
Casts to atoms and back, evaluated. An integer expression has only values that its bit width can
represent, whatever it is made of and whatever it fails on elsewhere; so the atoms of its value
add up to it, where they are the value's own.
-/

namespace ModelFinder

namespace IntRange

variable (range : IntRange)

theorem contains_toInt (a : BitVec range.bitwidth) : range.contains a.toInt = true := by
  rw [← range.wrap_toInt]
  exact range.contains_wrap a.toInt

theorem contains_sum (values : List Int) : range.contains (range.sum values) = true := by
  rw [range.sum_eq_bmod]
  exact range.contains_wrap values.sum

theorem exists_toInt {value : Int} (inside : range.contains value = true) :
    ∃ a : BitVec range.bitwidth, a.toInt = value :=
  ⟨.ofInt _ value, by rw [← range.wrap_eq_toInt, range.wrap_of_contains inside]⟩

end IntRange

section

variable {range : IntRange} {a b value : Int}

theorem IntOp.contains_compute (op : IntOp) {left right : IntExpr}
    (leftInside : range.contains a = true) (rightInside : range.contains b = true)
    (computed : op.compute? range left right a b = .ok value) : range.contains value = true := by
  rcases range.exists_toInt leftInside with ⟨leftNumber, rfl⟩
  rcases range.exists_toInt rightInside with ⟨rightNumber, rfl⟩
  rw [op.compute?_toInt] at computed
  cases denoted : op.denote? left right leftNumber rightNumber with
  | error error =>
      rw [denoted] at computed
      cases computed
  | ok number =>
      rw [denoted] at computed
      cases computed
      exact range.contains_toInt number

theorem IntUnaryOp.contains_apply (op : IntUnaryOp) (inside : range.contains a = true) :
    range.contains (op.apply range a) = true := by
  rcases range.exists_toInt inside with ⟨number, rfl⟩
  rw [op.apply_toInt]
  exact range.contains_toInt _

end

/-! Judgement -/

/-- In any scope, every value that an evaluation has is of a kind. It may also fail. -/
def Evaluate.Only {α : Type} (action : Evaluate α) (kind : α → Prop) : Prop :=
  ∀ (scope : Scope TupleSet) (value : α), (action.run.run scope).1 = .ok value → kind value

namespace Evaluate.Only

variable {α β : Type} {kind : α → Prop} {result : β → Prop}

theorem pure {value : α} (holds : kind value) : Evaluate.Only (Pure.pure value) kind := by
  intro scope other same
  cases same
  exact holds

theorem except {outcome : Except Error α} (holds : ∀ value, outcome = .ok value → kind value) :
    Evaluate.Only (liftM outcome) kind :=
  fun _ => holds

theorem bind {action : Evaluate α} {next : α → Evaluate β} (first : Evaluate.Only action kind)
    (second : ∀ value, kind value → Evaluate.Only (next value) result) :
    Evaluate.Only (action >>= next) result := by
  intro scope value same
  have unfolded : (action >>= next).run.run scope =
      (ExceptT.bindCont next (action.run.run scope).1).run (action.run.run scope).2 := rfl
  rw [unfolded] at same
  cases outcome : (action.run.run scope).1 with
  | error error =>
      rw [outcome] at same
      cases same
  | ok middle =>
      rw [outcome] at same
      exact second middle (first scope middle outcome) _ value same

theorem trivial (action : Evaluate α) : Evaluate.Only action fun _ => True :=
  fun _ _ _ => .intro

theorem last {action : Evaluate α} {next : α → Evaluate β}
    (always : ∀ value, Evaluate.Only (next value) result) :
    Evaluate.Only (action >>= next) result :=
  bind (trivial action) fun value _ => always value

end Evaluate.Only

open Evaluate.Only

theorem IntExpr.evaluate_contains {model : Instance} {range : IntRange} (number : IntExpr) :
    Evaluate.Only (number.evaluate model range) fun value => range.contains value = true := by
  cases number with
  | constant value =>
      rw [IntExpr.evaluate]
      exact pure (range.contains_wrap value)
  | binary op left right =>
      rw [IntExpr.evaluate]
      refine bind left.evaluate_contains fun a leftInside => ?_
      refine bind right.evaluate_contains fun b rightInside => ?_
      exact except fun value => op.contains_compute leftInside rightInside
  | unary op operand =>
      rw [IntExpr.evaluate]
      exact bind operand.evaluate_contains fun value inside => pure (op.contains_apply inside)
  | sum operands =>
      rw [IntExpr.evaluate]
      exact last fun values => pure (range.contains_sum values)
  | count operand =>
      rw [IntExpr.evaluate]
      exact last fun set => pure (range.contains_wrap set.size)
  | sumOver declarations term =>
      rw [IntExpr.evaluate]
      exact last fun values => pure (range.contains_sum values)
  | ite condition thenInt elseInt =>
      rw [IntExpr.evaluate]
      apply last
      intro holds
      split
      · exact thenInt.evaluate_contains
      · exact elseInt.evaluate_contains
  | sumOf operand =>
      rw [IntExpr.evaluate]
      have summed : Evaluate.Only (do
          let set ← operand.evaluate model range
          return range.sum (model.memberInts range set)) fun value => range.contains value = true :=
        last fun set => pure (range.contains_sum _)
      split
      · exact last fun _ => summed
      · exact summed

/-! Round trips -/

/-- In an instance, the value of an integer expression is the sum over its atoms. This needs atoms
of their own for the value, or for all its possible digits; without an atom the value has none. -/
structure Instance.Recovers (model : Instance) (bitwidth : Nat) (number : IntExpr)
    (value : Int) : Prop where
  digits : model.intAtoms.OwnDigits model.univ bitwidth →
    model.int? bitwidth (.sumOf (.ofInt .bitset number)) = .ok value
  own : model.intAtoms.Own model.univ value →
    model.int? bitwidth (.sumOf (.ofInt .value number)) = .ok value
  unbound : model.intAtoms[value]? = none →
    ∃ set, model.expr? bitwidth (.ofInt .value number) = .ok set ∧ set.isEmpty = true

section

variable {model : Instance} {range : IntRange} {bitwidth : Nat} {number : IntExpr} {value : Int}
  {scope : Scope TupleSet}

/-- An evaluation that succeeds does so without a change of the scope. -/
theorem IntExpr.evaluate_gives (evaluated :
    ((number.evaluate model range).run.run scope).1 = .ok value) :
    Evaluate.Gives scope False (number.evaluate model range) (· = value) := by
  have restored := @IntExpr.evaluate_restores model range number scope
  change _ = (((number.evaluate model range).run.run scope).1, scope) at restored
  rw [evaluated] at restored
  exact .inl ⟨value, restored, rfl⟩

variable (nonempty : 0 < model.univ.size) (countable : model.univ.size < Index.limit)
  (gives : Evaluate.Gives scope False (number.evaluate model range) (· = value))

include nonempty countable gives

theorem Expr.evaluate_ofInt_gives (cast : IntCast)
    (bounded : ∀ atom ∈ model.castAtoms range cast value, atom < model.univ.size) :
    Evaluate.Gives scope False ((Expr.ofInt cast number).evaluate model range)
      (· = ⟨model.univ, 1, .ofList (model.castAtoms range cast value)⟩) := by
  have counted := Index.capacity_of_lt nonempty ((pow_one _).trans_lt countable)
  rw [Expr.evaluate]
  apply Evaluate.Gives.bind gives
  rintro _ rfl
  refine Evaluate.Gives.except (TupleSet.ofIndices?_of_capacity counted ?_) rfl
  intro atom member
  rw [pow_one]
  exact bounded atom member

theorem IntExpr.evaluate_sumOf_gives (cast : IntCast)
    (own : ∀ addend ∈ cast.addends range value, model.intAtoms.Own model.univ addend)
    (inside : range.contains value = true) :
    Evaluate.Gives scope False ((IntExpr.sumOf (.ofInt cast number)).evaluate model range)
      (· = value) := by
  have unary : ¬(Expr.ofInt cast number).arity ≠ 1 := not_not.mpr rfl
  rw [IntExpr.evaluate, if_neg unary]
  apply Evaluate.Gives.bind (Expr.evaluate_ofInt_gives nonempty countable gives cast
    fun _ => Instance.castAtoms_lt_of_own own)
  rintro _ rfl
  exact Evaluate.Gives.pure (Instance.sum_castAtoms own inside)

end

theorem Instance.recovers {model : Instance} {bitwidth : Nat} {number : IntExpr} {value : Int}
    (made : model.Made) (countable : model.univ.size < Index.limit)
    (evaluated : model.int? bitwidth number = .ok value) :
    model.Recovers bitwidth number value := by
  rcases Except.bind_eq_ok_iff.mp evaluated with ⟨range, ranged, succeeded⟩
  have inside := number.evaluate_contains Scope.empty value succeeded
  have gives := IntExpr.evaluate_gives succeeded
  have width := IntRange.bitwidth_of_ofBitwidth? ranged
  have recovered (cast : IntCast)
      (own : ∀ addend ∈ cast.addends range value, model.intAtoms.Own model.univ addend) :
      model.int? bitwidth (.sumOf (.ofInt cast number)) = .ok value :=
    (Instance.run?_of_gives ranged
      (IntExpr.evaluate_sumOf_gives made.formed.1 countable gives cast own inside)).resolve_right
        And.left
  constructor
  · intro own
    exact recovered .bitset ((width ▸ own).addends value)
  · intro own
    exact recovered .value (List.forall_mem_singleton.mpr own)
  · intro unbound
    have none : model.castAtoms range .value value = [] := castAtoms_of_unbound unbound
    have atoms := Expr.evaluate_ofInt_gives made.formed.1 countable gives .value
      (by simp [none])
    rw [none] at atoms
    exact ⟨_, (Instance.run?_of_gives ranged atoms).resolve_right And.left, rfl⟩

end ModelFinder
