import Mathlib
import ModelFinder.Evaluate
import ModelFinder.Proofs.Compile.Judgement
import ModelFinder.Proofs.Instance
import ModelFinder.Proofs.Safety
import ModelFinder.Proofs.Syntax.Formation
/-!
Evaluation respects declared arities. A formed expression evaluates to a set of tuples of its
arity, if it has a value. If, besides, all tuples can be counted, evaluation reports every failure
and breaks no assertion.
-/

namespace ModelFinder

structure TupleSet.Shaped (univ : Universe) (arity : Nat) (set : TupleSet) : Prop where
  univ_eq : set.univ = univ
  arity_eq : set.arity = arity
  inRange : ∀ {index : Nat}, set.containsIndex index = true → index < univ.size ^ arity

namespace TupleSet

variable {univ : Universe} {arity : Nat} {safe : Prop} {left right : TupleSet}

theorem Shaped.empty (univ : Universe) (arity : Nat) : (empty univ arity).Shaped univ arity :=
  ⟨rfl, rfl, fun held => by rw [containsIndex_empty] at held; cases held⟩

theorem Shaped.ofList {indices : List Nat}
    (inRange : ∀ index ∈ indices, index < univ.size ^ arity) :
    Shaped univ arity ⟨univ, arity, .ofList indices⟩ := by
  refine ⟨rfl, rfl, fun {index} held => inRange index ?_⟩
  rwa [containsIndex_ofList, List.contains_iff_mem] at held

theorem meets_capacity (positive : 0 < univ.size)
    (counted : safe → univ.size ^ arity < Index.limit) :
    Meets safe (· ≤ univ.size ^ arity) (Index.capacity univ.size arity) :=
  .of_total (fun _ => Index.le_of_capacity positive) fun isSafe =>
    ⟨_, Index.capacity_of_lt positive (counted isSafe)⟩

theorem meets_ofIndices (positive : 0 < univ.size)
    (counted : safe → univ.size ^ arity < Index.limit) (indices : List Nat) :
    Meets safe (Shaped univ arity) (ofIndices? univ arity indices) := by
  refine (meets_capacity positive counted).bind fun capacity small => ?_
  dsimp only
  split
  · rename_i last largest
    split
    · exact fun _ => trivial
    · rename_i inRange
      refine .ofList fun index member => ?_
      have held : index ∈ Std.ExtTreeSet.ofList indices := by
        rwa [Std.ExtTreeSet.mem_ofList, List.contains_iff_mem]
      have below := (Std.ExtTreeSet.max?_eq_some_iff_mem_and_forall.mp largest).2 index held
      rw [Nat.isLE_compare] at below
      omega
  · rename_i none
    refine .ofList fun index member => ?_
    have held : index ∈ Std.ExtTreeSet.ofList indices := by
      rwa [Std.ExtTreeSet.mem_ofList, List.contains_iff_mem]
    rw [Std.ExtTreeSet.max?_eq_none_iff.mp none] at held
    cases held

theorem meets_all (positive : 0 < univ.size) (counted : safe → univ.size ^ arity < Index.limit) :
    Meets safe (Shaped univ arity) (all univ arity) :=
  (meets_capacity positive counted).bind fun _ small => Shaped.ofList fun _ member =>
    (List.mem_range.mp member).trans_le small

section

variable (leftShaped : left.Shaped univ arity) (rightShaped : right.Shaped univ arity)

include leftShaped rightShaped

theorem meets_compatible : Meets safe (fun _ => True) (left.compatible? right) := by
  rw [compatible?_of_eq (rightShaped.univ_eq.trans leftShaped.univ_eq.symm)
    (rightShaped.arity_eq.trans leftShaped.arity_eq.symm)]
  exact trivial

theorem meets_union : Meets safe (Shaped univ arity) (left.union? right) := by
  refine (meets_compatible leftShaped rightShaped).bind fun _ _ => ?_
  refine ⟨leftShaped.univ_eq, leftShaped.arity_eq, fun held => ?_⟩
  rw [containsIndex_union, Bool.or_eq_true] at held
  exact held.elim leftShaped.inRange rightShaped.inRange

theorem meets_intersection : Meets safe (Shaped univ arity) (left.intersection? right) := by
  refine (meets_compatible leftShaped rightShaped).bind fun _ _ => ?_
  refine ⟨leftShaped.univ_eq, leftShaped.arity_eq, fun held => ?_⟩
  rw [containsIndex_inter, Bool.and_eq_true] at held
  exact leftShaped.inRange held.1

theorem meets_difference : Meets safe (Shaped univ arity) (left.difference? right) := by
  refine (meets_compatible leftShaped rightShaped).bind fun _ _ => ?_
  refine ⟨leftShaped.univ_eq, leftShaped.arity_eq, fun held => ?_⟩
  rw [containsIndex_sdiff, Bool.and_eq_true] at held
  exact leftShaped.inRange held.1

end

section

variable {before rest after : Nat}

theorem meets_product (positive : 0 < univ.size) (leftShaped : left.Shaped univ before)
    (rightShaped : right.Shaped univ after)
    (continuable : safe → Index.Continuable univ.size before after) :
    Meets safe (Shaped univ (before + after)) (left.product? right) := by
  rw [product?, leftShaped.univ_eq, rightShaped.univ_eq, leftShaped.arity_eq, rightShaped.arity_eq,
    if_neg (not_not.mpr rfl)]
  refine (Index.Continuable.meets_capacity positive continuable).bind fun counted short => ?_
  refine Meets.bind (.mapM fun pair member => Index.meets_word ?_ fun isSafe =>
    (continuable isSafe).result.le) fun indices inRange => ?_
  · rcases List.mem_flatMap.mp member with ⟨first, firstMember, continued⟩
    rcases List.mem_map.mp continued with ⟨second, secondMember, rfl⟩
    exact Index.continued_lt_of_le short (leftShaped.inRange (mem_toList.mp firstMember))
      (rightShaped.inRange (mem_toList.mp secondMember))
  · refine (Index.Continuable.meets_columns continuable).bind fun columns same => ?_
    subst same
    exact Shaped.ofList inRange

theorem meets_join (positive : 0 < univ.size) (leftShaped : left.Shaped univ (before + 1))
    (rightShaped : right.Shaped univ (rest + 1))
    (joinable : safe → Index.Joinable univ.size before rest) :
    Meets safe (Shaped univ (before + rest)) (left.join? right) := by
  rw [join?, leftShaped.univ_eq, rightShaped.univ_eq, leftShaped.arity_eq, rightShaped.arity_eq,
    if_neg (not_not.mpr rfl)]
  refine (Index.Joinable.meets_columns joinable).bind fun columns same => ?_
  split
  · exact fun _ => trivial
  · refine (Index.Joinable.meets_rowLength positive joinable).bind fun length bounds => ?_
    have remaining : columns - 2 = before + rest := by omega
    have row (first : Nat) (member : first ∈ left.toList) :
        Meets safe (fun indices => ∀ index ∈ indices, index < univ.size ^ (before + rest)) (do
          (← Index.matching? (Index.rows id length right.toList) univ.size length first).mapM
            fun second => Index.word (Index.joined univ.size length first second)) := by
      refine (Index.Joinable.meets_matching positive joinable bounds.2.2).bind fun matching _ => ?_
      exact .mapM fun second _ => Index.meets_word (Index.joined_lt_of_le positive bounds.1
        bounds.2.1 (leftShaped.inRange (mem_toList.mp member))) fun isSafe =>
          (joinable isSafe).result.le
    refine Meets.bind (.mapM row) fun rows inRange => ?_
    rw [remaining]
    refine Shaped.ofList fun index member => ?_
    rcases List.mem_flatten.mp member with ⟨indices, rowMember, inRow⟩
    exact inRange indices rowMember index inRow

end

end TupleSet

/-! Operators -/

section

variable {univ : Universe} {safe : Prop} {left right : TupleSet}

/-- A formed node whose tuples can be counted has operands that its operator does not refuse. -/
theorem SetOp.meets_compute (positive : 0 < univ.size) (op : SetOp) {leftExpr rightExpr : Expr}
    {arity : Nat} (made : Expr.combine? op leftExpr rightExpr =
      .ok (.binary op leftExpr rightExpr arity))
    (leftPositive : 0 < leftExpr.arity) (rightPositive : 0 < rightExpr.arity)
    (bounded : safe → univ.size ^ arity < Index.limit ∧
      univ.size ^ rightExpr.arity < Index.limit ∧
      SyntaxCheck.joinable.expr (.binary op leftExpr rightExpr arity))
    (leftShaped : left.Shaped univ leftExpr.arity)
    (rightShaped : right.Shaped univ rightExpr.arity) :
    Meets safe (TupleSet.Shaped univ arity) (op.compute? left right) := by
  cases op with
  | join =>
      rcases Expr.joinable_of_combine? made leftPositive rightPositive bounded with
        ⟨before, rest, leftArity, rightArity, rfl, joinable⟩
      rw [leftArity] at leftShaped
      rw [rightArity] at rightShaped
      exact TupleSet.meets_join positive leftShaped rightShaped joinable
  | product =>
      rcases Expr.continuable_of_combine? made bounded with ⟨rfl, continuable⟩
      exact TupleSet.meets_product positive leftShaped rightShaped continuable
  | union =>
      rcases Expr.arity_of_combine? made with ⟨same, rfl⟩
      exact TupleSet.meets_union leftShaped (same ▸ rightShaped)
  | difference =>
      rcases Expr.arity_of_combine? made with ⟨same, rfl⟩
      exact TupleSet.meets_difference leftShaped (same ▸ rightShaped)
  | intersection =>
      rcases Expr.arity_of_combine? made with ⟨same, rfl⟩
      exact TupleSet.meets_intersection leftShaped (same ▸ rightShaped)

theorem SetComparison.meets_compute (op : SetComparison) (leftExpr rightExpr : Expr) :
    Meets safe (fun _ => True) (op.compute? leftExpr rightExpr left right) := by
  unfold SetComparison.compute?
  split
  · exact fun _ => trivial
  · cases op with
    | equals => exact trivial
    | subset => exact trivial

theorem Connective.meets_applyList (op : Connective) (values : List Bool) :
    Meets safe (fun _ => True) (op.applyList? values) := by
  cases op with
  | and => exact trivial
  | or => exact trivial
  | iff => exact fun _ => trivial
  | implies => exact fun _ => trivial

theorem IntOp.meets_compute (op : IntOp) (range : IntRange) (leftInt rightInt : IntExpr)
    (a b : Int) : Meets safe (fun _ => True) (op.compute? range leftInt rightInt a b) := by
  have divided (quotient : Int) (other : IntOp) : Meets safe (fun _ => True)
      (if b = 0 then .error (.divisionByZero leftInt other rightInt) else .ok quotient) := by
    split
    · exact fun _ => trivial
    · exact trivial
  cases op with
  | divide => exact divided _ _
  | modulo => exact divided _ _
  | _ => exact trivial

theorem Instance.meets_constant {model : Instance} (positive : 0 < model.univ.size)
    (leaf : SetConstant)
    (counted : safe → model.univ.size ^ (Expr.constant leaf).arity < Index.limit) :
    Meets safe (TupleSet.Shaped model.univ (Expr.constant leaf).arity)
      (model.constant? leaf) := by
  cases leaf with
  | univ => exact TupleSet.meets_all positive counted
  | none => exact TupleSet.Shaped.empty model.univ 1
  | iden => exact TupleSet.meets_ofIndices positive counted _
  | ints => exact TupleSet.meets_ofIndices positive counted _

end

/-! Judgement -/

/-- In every scope of sets of fitting arities, an evaluation leaves the scope as it was, and its
value has a property. If this is promised, it fails with no broken assertion. -/
def Evaluate.Ensures {α : Type} (univ : Universe) (safe : Prop) (action : Evaluate α)
    (post : α → Prop) : Prop :=
  ∀ scope : Scope TupleSet, scope.Binds (fun leaf => TupleSet.Shaped univ leaf.arity) →
    (action.run.run scope).2 = scope ∧ Meets safe post (action.run.run scope).1

namespace Evaluate.Ensures

variable {α β γ : Type} {univ : Universe} {safe : Prop}

theorem pure {value : α} {post : α → Prop} (holds : post value) :
    Evaluate.Ensures univ safe (Pure.pure value) post :=
  fun _ _ => ⟨rfl, holds⟩

theorem throw {error : Error} {post : α → Prop}
    (reported : safe → error.Reported) :
    Evaluate.Ensures univ safe (MonadExcept.throw error) post :=
  fun _ _ => ⟨rfl, reported⟩

theorem except {outcome : Except Error α} {post : α → Prop} (meets : Meets safe post outcome) :
    Evaluate.Ensures univ safe (liftM outcome) post :=
  fun _ _ => ⟨rfl, meets⟩

theorem refused {outcome : Except Error β} {error : Error} {next : β → Evaluate α}
    {post : α → Prop} (same : outcome = .error error) (reported : safe → error.Reported) :
    Evaluate.Ensures univ safe (liftM outcome >>= next) post := by
  subst same
  exact throw reported

theorem getScope : Evaluate.Ensures univ safe MonadState.get
    (Scope.Binds fun leaf => TupleSet.Shaped univ leaf.arity) :=
  fun _ binds => ⟨rfl, binds⟩

theorem bind {action : Evaluate α} {next : α → Evaluate β} {middle : α → Prop} {post : β → Prop}
    (first : Evaluate.Ensures univ safe action middle)
    (second : ∀ value, middle value → Evaluate.Ensures univ safe (next value) post) :
    Evaluate.Ensures univ safe (action >>= next) post := by
  intro scope binds
  rcases first scope binds with ⟨same, meets⟩
  have run : (action >>= next).run.run scope =
      (ExceptT.bindCont next (action.run.run scope).1).run scope :=
    congrArg (ExceptT.bindCont next (action.run.run scope).1).run same
  rw [run]
  cases outcome : (action.run.run scope).1 with
  | error error =>
      rw [outcome] at meets
      exact throw meets scope binds
  | ok value =>
      rw [outcome] at meets
      exact second value meets scope binds

theorem map {action : Evaluate α} {transform : α → β} {middle : α → Prop} {post : β → Prop}
    (first : Evaluate.Ensures univ safe action middle)
    (implies : ∀ value, middle value → post (transform value)) :
    Evaluate.Ensures univ safe (do return transform (← action)) post :=
  bind first fun value holds => pure (implies value holds)

theorem mapM {elements : List γ} {action : γ → Evaluate α} {post : α → Prop}
    (each : ∀ element ∈ elements, Evaluate.Ensures univ safe (action element) post) :
    Evaluate.Ensures univ safe (elements.mapM action) fun results =>
      ∀ result ∈ results, post result := by
  induction elements with
  | nil => exact pure (List.forall_mem_nil _)
  | cons element rest hypothesis =>
      rw [List.forall_mem_cons] at each
      rw [List.mapM_cons]
      exact bind each.1 fun result holds => map (hypothesis each.2) fun results others =>
        List.forall_mem_cons.mpr ⟨holds, others⟩

theorem binding {declared : Variable} {set : TupleSet} {action : Evaluate α} {post : α → Prop}
    (shaped : set.Shaped univ declared.arity)
    (ensures : Evaluate.Ensures univ safe action post) :
    Evaluate.Ensures univ safe (Scope.binding declared set action) post := by
  intro scope binds
  rcases ensures _ (binds.extend shaped) with ⟨same, meets⟩
  have run : (Scope.binding declared set action).run.run scope =
      ((action.run.run (scope.extend declared set)).1,
        (action.run.run (scope.extend declared set)).2.pop) := rfl
  rw [run]
  refine ⟨?_, meets⟩
  dsimp only
  rw [same, Scope.pop_extend]

structure Domain (univ : Universe) (safe : Prop) (domain : Variable × Evaluate TupleSet) :
    Prop where
  counted : safe → univ.size ^ domain.1.arity < Index.limit
  shapes : Evaluate.Ensures univ safe domain.2 (TupleSet.Shaped univ domain.1.arity)

theorem grounded (positive : 0 < univ.size) {domains : List (Variable × Evaluate TupleSet)}
    {visit : Evaluate α} {post : α → Prop} (shapes : ∀ domain ∈ domains, Domain univ safe domain)
    (visits : Evaluate.Ensures univ safe visit post) :
    Evaluate.Ensures univ safe (visitGroundings domains visit) fun results =>
      ∀ result ∈ results, post result := by
  induction domains with
  | nil =>
      rw [visitGroundings]
      exact map visits fun _ holds => List.forall_mem_singleton.mpr holds
  | cons domain rest hypothesis =>
      rcases domain with ⟨declared, domain⟩
      rw [List.forall_mem_cons] at shapes
      rw [visitGroundings]
      refine bind shapes.1.shapes fun set shaped => ?_
      rw [shaped.univ_eq, shaped.arity_eq]
      refine map (mapM fun index _ => bind (except
        (TupleSet.meets_ofIndices positive shapes.1.counted [index])) fun singleton single =>
          binding single (hypothesis shapes.2)) fun results each result member => ?_
      rcases List.mem_flatten.mp member with ⟨visited, fromIndex, inVisited⟩
      exact each visited fromIndex result inVisited

end Evaluate.Ensures

/-! Terms -/

section

variable {model : Instance} {range : IntRange} {safe : Prop} (sound : model.Sound)

include sound

open Evaluate.Ensures

-- Recursive calls pass the hypotheses of the section on without naming them.
set_option linter.unusedSectionVars false

mutual

theorem Expr.evaluate_ensures : ∀ {expr : Expr}, expr.Every .formed →
    (safe → expr.Every (.and (.counted model.univ.size) .joinable)) →
      Evaluate.Ensures model.univ safe (expr.evaluate model range)
        (TupleSet.Shaped model.univ expr.arity)
  | .relation leaf, _, _ => by
    rw [Expr.evaluate]
    split
    · rename_i set found
      rcases sound.value found with ⟨univ, arity, inRange⟩
      have shaped : set.Shaped model.univ leaf.arity :=
        ⟨univ, arity, fun held => univ ▸ arity ▸ inRange _ held⟩
      exact pure shaped
    · exact throw fun _ => trivial
  | .variable leaf, _, _ => by
    rw [Expr.evaluate]
    refine bind getScope fun scope binds => ?_
    split
    · rename_i found
      exact pure (binds _ _ found)
    · exact throw fun _ => trivial
  | .constant leaf, _, bounded => by
    rw [Expr.evaluate]
    exact except (Instance.meets_constant sound.nonempty leaf fun isSafe => (bounded isSafe).1)
  | .binary op left right arity, formed, bounded => by
    rw [Expr.evaluate]
    have leftPositive := Expr.arity_pos id formed.2.1
    have rightPositive := Expr.arity_pos id formed.2.2
    refine bind (Expr.evaluate_ensures formed.2.1 fun isSafe => (bounded isSafe).2.1)
      fun leftSet leftShaped => ?_
    refine bind (Expr.evaluate_ensures formed.2.2 fun isSafe => (bounded isSafe).2.2)
      fun rightSet rightShaped => ?_
    exact except (op.meets_compute sound.nonempty formed.1 leftPositive rightPositive
      (fun isSafe => ⟨(bounded isSafe).1.1, (bounded isSafe).2.2.root.1, (bounded isSafe).1.2⟩)
      leftShaped rightShaped)
  | .union operands arity, formed, bounded => by
    rw [Expr.evaluate]
    exact Expr.evaluateUnion_ensures formed.2 (fun isSafe => (bounded isSafe).2)
      (Expr.arities_of_unionAll? formed.1) (.empty model.univ arity)
  | .ite condition thenExpr elseExpr arity, formed, bounded => by
    rw [Expr.evaluate]
    rcases Formula.arity_of_choose? formed.1 with ⟨same, rfl⟩
    have thenShapes := Expr.evaluate_ensures formed.2.2.1
      fun isSafe => (bounded isSafe).2.2.1
    have elseShapes := Expr.evaluate_ensures formed.2.2.2 fun isSafe => (bounded isSafe).2.2.2
    rw [← same] at elseShapes
    refine bind (Formula.evaluate_ensures formed.2.1 fun isSafe => (bounded isSafe).2.1)
      fun holds _ => ?_
    split
    · exact thenShapes
    · exact elseShapes
  | .ofInt cast value, formed, bounded => by
    rw [Expr.evaluate]
    exact bind (IntExpr.evaluate_ensures formed.2 fun isSafe => (bounded isSafe).2)
      fun number _ => except (TupleSet.meets_ofIndices sound.nonempty
        (fun isSafe => (bounded isSafe).1.1) _)

theorem Expr.evaluateUnion_ensures {arity : Nat} {set : TupleSet} : ∀ {operands : List Expr},
    Expr.EveryAll .formed operands →
    (safe → Expr.EveryAll (.and (.counted model.univ.size) .joinable) operands) →
      (∀ operand ∈ operands, operand.arity = arity) → set.Shaped model.univ arity →
      Evaluate.Ensures model.univ safe (Expr.evaluateUnion model range set operands)
        (TupleSet.Shaped model.univ arity)
  | [], _, _, _, setShaped => by
    rw [Expr.evaluateUnion]
    exact pure setShaped
  | operand :: rest, formed, bounded, arities, setShaped => by
    rw [List.forall_mem_cons] at arities
    rw [Expr.evaluateUnion]
    refine bind (Expr.evaluate_ensures formed.1 fun isSafe => (bounded isSafe).1)
      fun operandSet operandShaped => ?_
    refine bind (except (TupleSet.meets_union setShaped (arities.1 ▸ operandShaped)))
      fun result resultShaped => ?_
    exact Expr.evaluateUnion_ensures formed.2 (fun isSafe => (bounded isSafe).2) arities.2
      resultShaped

theorem Formula.evaluate_ensures : ∀ {formula : Formula}, formula.Every .formed →
    (safe → formula.Every (.and (.counted model.univ.size) .joinable)) →
      Evaluate.Ensures model.univ safe (formula.evaluate model range) fun _ => True
  | .literal value, _, _ => by
    rw [Formula.evaluate]
    exact pure trivial
  | .constant value, _, _ => by
    rw [Formula.evaluate]
    exact pure trivial
  | .binary op left right, formed, bounded => by
    rw [Formula.evaluate]
    exact bind (Formula.evaluate_ensures formed.2.1 fun isSafe => (bounded isSafe).2.1)
      fun _ _ => map (Formula.evaluate_ensures formed.2.2 fun isSafe => (bounded isSafe).2.2)
        fun _ _ => trivial
  | .nary op operands, formed, bounded => by
    rw [Formula.evaluate]
    exact bind (Formula.evaluateAll_ensures formed.2 fun isSafe => (bounded isSafe).2)
      fun values _ => except (op.meets_applyList values)
  | .not operand, formed, bounded => by
    rw [Formula.evaluate]
    exact map (Formula.evaluate_ensures formed.2 fun isSafe => (bounded isSafe).2)
      fun _ _ => trivial
  | .compare op left right, formed, bounded => by
    rw [Formula.evaluate]
    exact bind (Expr.evaluate_ensures formed.2.1 fun isSafe => (bounded isSafe).2.1)
      fun _ _ => bind (Expr.evaluate_ensures formed.2.2 fun isSafe => (bounded isSafe).2.2)
        fun _ _ => except (op.meets_compute left right)
  | .multiplicity amount operand, formed, bounded => by
    rw [Formula.evaluate]
    exact map (Expr.evaluate_ensures formed.2 fun isSafe => (bounded isSafe).2)
      fun _ _ => trivial
  | .quantified quantifier declarations body, formed, bounded => by
    have domains := Decl.evaluateDomains_ensures formed.2.1
      fun isSafe => (bounded isSafe).2.1
    rw [Formula.evaluate]
    refine bind (grounded sound.nonempty domains (Formula.evaluate_ensures formed.2.2
      fun isSafe => (bounded isSafe).2.2)) fun values _ => ?_
    cases quantifier with
    | all => exact pure trivial
    | some => exact pure trivial
  | .compareInts op left right, formed, bounded => by
    rw [Formula.evaluate]
    exact bind (IntExpr.evaluate_ensures formed.2.1 fun isSafe => (bounded isSafe).2.1)
      fun _ _ => map (IntExpr.evaluate_ensures formed.2.2 fun isSafe => (bounded isSafe).2.2)
        fun _ _ => trivial

theorem Formula.evaluateAll_ensures : ∀ {operands : List Formula},
    Formula.EveryAll .formed operands →
    (safe → Formula.EveryAll (.and (.counted model.univ.size) .joinable) operands) →
      Evaluate.Ensures model.univ safe (Formula.evaluateAll model range operands) fun _ => True
  | [], _, _ => by
    rw [Formula.evaluateAll]
    exact pure trivial
  | operand :: rest, formed, bounded => by
    rw [Formula.evaluateAll]
    exact bind (Formula.evaluate_ensures formed.1 fun isSafe => (bounded isSafe).1)
      fun _ _ => map (Formula.evaluateAll_ensures formed.2 fun isSafe => (bounded isSafe).2)
        fun _ _ => trivial

theorem IntExpr.evaluate_ensures : ∀ {value : IntExpr}, value.Every .formed →
    (safe → value.Every (.and (.counted model.univ.size) .joinable)) →
      Evaluate.Ensures model.univ safe (value.evaluate model range) fun _ => True
  | .constant value, _, _ => by
    rw [IntExpr.evaluate]
    exact pure trivial
  | .binary op left right, formed, bounded => by
    rw [IntExpr.evaluate]
    exact bind (IntExpr.evaluate_ensures formed.2.1 fun isSafe => (bounded isSafe).2.1)
      fun a _ => bind (IntExpr.evaluate_ensures formed.2.2 fun isSafe => (bounded isSafe).2.2)
        fun b _ => except (op.meets_compute range left right a b)
  | .unary op operand, formed, bounded => by
    rw [IntExpr.evaluate]
    exact map (IntExpr.evaluate_ensures formed.2 fun isSafe => (bounded isSafe).2)
      fun _ _ => trivial
  | .sum operands, formed, bounded => by
    rw [IntExpr.evaluate]
    exact map (IntExpr.evaluateAll_ensures formed.2 fun isSafe => (bounded isSafe).2)
      fun _ _ => trivial
  | .count operand, formed, bounded => by
    rw [IntExpr.evaluate]
    exact map (Expr.evaluate_ensures formed.2 fun isSafe => (bounded isSafe).2)
      fun _ _ => trivial
  | .sumOver declarations term, formed, bounded => by
    have domains := Decl.evaluateDomains_ensures formed.2.1
      fun isSafe => (bounded isSafe).2.1
    rw [IntExpr.evaluate]
    exact map (grounded sound.nonempty domains (IntExpr.evaluate_ensures formed.2.2
      fun isSafe => (bounded isSafe).2.2)) fun _ _ => trivial
  | .ite condition thenInt elseInt, formed, bounded => by
    rw [IntExpr.evaluate]
    refine bind (Formula.evaluate_ensures formed.2.1 fun isSafe => (bounded isSafe).2.1)
      fun holds _ => ?_
    split
    · exact IntExpr.evaluate_ensures formed.2.2.1 fun isSafe => (bounded isSafe).2.2.1
    · exact IntExpr.evaluate_ensures formed.2.2.2 fun isSafe => (bounded isSafe).2.2.2
  | .sumOf operand, formed, bounded => by
    rw [IntExpr.evaluate]
    have summed : Evaluate.Ensures model.univ safe
        (do return range.sum (model.memberInts range (← operand.evaluate model range)))
        fun _ => True :=
      map (Expr.evaluate_ensures formed.2 fun isSafe => (bounded isSafe).2) fun _ _ => trivial
    split
    · exact refused rfl fun _ => trivial
    · exact summed

theorem IntExpr.evaluateAll_ensures : ∀ {operands : List IntExpr},
    IntExpr.EveryAll .formed operands →
    (safe → IntExpr.EveryAll (.and (.counted model.univ.size) .joinable) operands) →
      Evaluate.Ensures model.univ safe (IntExpr.evaluateAll model range operands) fun _ => True
  | [], _, _ => by
    rw [IntExpr.evaluateAll]
    exact pure trivial
  | operand :: rest, formed, bounded => by
    rw [IntExpr.evaluateAll]
    exact bind (IntExpr.evaluate_ensures formed.1 fun isSafe => (bounded isSafe).1)
      fun _ _ => map (IntExpr.evaluateAll_ensures formed.2 fun isSafe => (bounded isSafe).2)
        fun _ _ => trivial

theorem Decl.evaluateDomains_ensures : ∀ {declarations : List Decl},
    Decl.EveryAll .formed declarations →
    (safe → Decl.EveryAll (.and (.counted model.univ.size) .joinable) declarations) →
      ∀ domain ∈ Decl.evaluateDomains model range declarations, Domain model.univ safe domain
  | [], _, _ => by
    rw [Decl.evaluateDomains]
    exact List.forall_mem_nil _
  | .oneOf declared domain :: rest, formed, bounded => by
    rw [Decl.evaluateDomains]
    have same := Decl.arity_of_oneOf? formed.1
    refine List.forall_mem_cons.mpr ⟨⟨fun isSafe => ?_, ?_⟩, Decl.evaluateDomains_ensures
      formed.2.2 fun isSafe => (bounded isSafe).2.2⟩
    · exact same ▸ (bounded isSafe).2.1.root.1
    · exact same ▸ Expr.evaluate_ensures formed.2.1 fun isSafe => (bounded isSafe).2.1

end

end

end ModelFinder
