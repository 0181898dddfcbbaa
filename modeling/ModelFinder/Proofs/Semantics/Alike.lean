import Mathlib
import ModelFinder.Proofs.Scoping.Errors
import ModelFinder.Proofs.Syntax.Normal
/-!
Alike terms mean the same. A term and its normal form are compiled to the same bits, matrices and
words with the same gates, and have the same value on every instance; where one fails, the other
fails for the same reason, and only the terms that the errors show may be written differently.
So it is for any two terms with the same normal form.
-/

namespace ModelFinder

open Scope.Agrees

theorem mapError_normal {α : Type} (error : Error) :
    (Except.error error : Except Error α).mapError Error.normal =
      (Except.error error.normal).mapError Error.normal :=
  congrArg Except.error error.normal_normal.symm

/-! ## Compilation -/

section

variable {leaves : Leaves} {range : IntRange}

theorem sameArity?_normal (left right : Expr) :
    (sameArity? left right).mapError Error.normal =
      (sameArity? left.normal right.normal).mapError Error.normal := by
  rw [sameArity?, sameArity?, Expr.arity_normal, Expr.arity_normal]
  split
  · rfl
  · exact mapError_normal _

theorem SetOp.admits?_normal (op : SetOp) (left right : Expr) :
    (op.admits? left right).mapError Error.normal =
      (op.admits? left.normal right.normal).mapError Error.normal := by
  cases op with
  | join =>
      rw [SetOp.admits?, SetOp.admits?, Expr.arity_normal, Expr.arity_normal]
  | product => rfl
  | union | difference | intersection => exact sameArity?_normal left right

theorem IntOp.admits?_normal (op : IntOp) (left right : IntExpr) (word : Word) :
    (op.admits? left right word).mapError Error.normal =
      (op.admits? left.normal right.normal word).mapError Error.normal := by
  cases op with
  | divide | modulo =>
      rw [IntOp.admits?, IntOp.admits?]
      cases word.value? with
      | error error => rfl
      | ok value =>
          simp only [bind, Except.bind]
          split
          · exact mapError_normal _
          · rfl
  | _ => rfl

mutual

theorem Expr.compile_normal : ∀ expr : Expr,
    Scope.Agrees Error.normal (expr.compile leaves range) (expr.normal.compile leaves range)
  | .relation leaf => by
    rw [Expr.normal]
    exact refl _
  | .variable leaf => by
    rw [Expr.normal]
    exact refl _
  | .constant leaf => by
    rw [Expr.normal]
    exact refl _
  | .binary op left right arity => by
    rw [Expr.normal, Expr.compile, Expr.compile]
    apply andThen (except (op.admits?_normal left right))
    intro _
    apply andThen left.compile_normal
    intro leftMatrix
    exact next right.compile_normal _
  | .union operands arity => by
    rw [Expr.normal, Expr.compile, Expr.compile]
    exact Expr.compileUnion_normal operands arity _
  | .ite condition thenExpr elseExpr arity => by
    rw [Expr.normal, Expr.compile, Expr.compile]
    apply andThen (except (sameArity?_normal thenExpr elseExpr))
    intro _
    apply andThen condition.compile_normal
    intro bit
    -- both sides have this bit, so both compile the same branches
    split
    · exact thenExpr.compile_normal
    · exact elseExpr.compile_normal
    · apply andThen thenExpr.compile_normal
      intro thenMatrix
      exact next elseExpr.compile_normal _
  | .ofInt cast value => by
    rw [Expr.normal, Expr.compile, Expr.compile]
    exact next value.compile_normal _

theorem Expr.compileUnion_normal : ∀ (operands : List Expr) (arity : Nat) (matrix : Matrix),
    Scope.Agrees Error.normal (Expr.compileUnion leaves range arity matrix operands)
      (Expr.compileUnion leaves range arity matrix (Expr.normalAll operands))
  | [], _, _ => by
    rw [Expr.normalAll]
    exact refl _
  | operand :: rest, arity, matrix => by
    rw [Expr.normalAll, Expr.compileUnion, Expr.compileUnion, Expr.arity_normal]
    have further : Scope.Agrees Error.normal
        (do
          let made ← operand.compile leaves range
          let result ← matrix.union? made
          Expr.compileUnion leaves range arity result rest)
        (do
          let made ← operand.normal.compile leaves range
          let result ← matrix.union? made
          Expr.compileUnion leaves range arity result (Expr.normalAll rest)) := by
      apply andThen operand.compile_normal
      intro made
      apply andThen (refl _)
      intro result
      exact Expr.compileUnion_normal rest arity result
    split
    -- a refused operand is shown by the error, the one place where its writing matters
    · exact andThen (throw (Error.normal_normal _).symm) fun _ => further
    · exact further

theorem Formula.compile_normal : ∀ formula : Formula,
    Scope.Agrees Error.normal (formula.compile leaves range) (formula.normal.compile leaves range)
  | .literal value => by
    rw [Formula.normal, Formula.compile, Formula.compile]
    exact refl _
  | .constant value => by
    rw [Formula.normal]
    exact refl _
  | .binary op left right => by
    rw [Formula.normal, Formula.compile, Formula.compile]
    apply andThen left.compile_normal
    intro leftBit
    exact next right.compile_normal _
  | .nary op operands => by
    rw [Formula.normal, Formula.compile, Formula.compile]
    exact next (Formula.compileAll_normal operands) _
  | .not operand => by
    rw [Formula.normal, Formula.compile, Formula.compile]
    exact next operand.compile_normal _
  | .compare op left right => by
    rw [Formula.normal, Formula.compile, Formula.compile]
    apply andThen (except (sameArity?_normal left right))
    intro _
    apply andThen left.compile_normal
    intro leftMatrix
    exact next right.compile_normal _
  | .multiplicity amount operand => by
    rw [Formula.normal, Formula.compile, Formula.compile]
    exact next operand.compile_normal _
  | .quantified quantifier declarations body => by
    have domains := Decl.compileDomains_normal declarations
    have visits := body.compile_normal
    rw [Formula.normal, Formula.compile.eq_def, Formula.compile.eq_def]
    dsimp only
    cases quantifier with
    | some => exact next (grounded domains fun memberships => next visits _) _
    | all => exact next (grounded domains fun memberships => next visits _) _
  | .compareInts op left right => by
    rw [Formula.normal, Formula.compile, Formula.compile]
    apply andThen left.compile_normal
    intro leftWord
    exact next right.compile_normal _

theorem Formula.compileAll_normal : ∀ operands : List Formula,
    Scope.Agrees Error.normal (Formula.compileAll leaves range operands)
      (Formula.compileAll leaves range (Formula.normalAll operands))
  | [] => by
    rw [Formula.normalAll]
    exact refl _
  | formula :: rest => by
    rw [Formula.normalAll, Formula.compileAll, Formula.compileAll]
    apply andThen formula.compile_normal
    intro bit
    exact next (Formula.compileAll_normal rest) _

theorem IntExpr.compile_normal : ∀ value : IntExpr,
    Scope.Agrees Error.normal (value.compile leaves range) (value.normal.compile leaves range)
  | .constant value => by
    rw [IntExpr.normal]
    exact refl _
  | .binary op left right => by
    rw [IntExpr.normal, IntExpr.compile, IntExpr.compile]
    apply andThen left.compile_normal
    intro leftWord
    apply andThen right.compile_normal
    intro rightWord
    exact next (except (op.admits?_normal left right rightWord)) _
  | .unary op operand => by
    rw [IntExpr.normal, IntExpr.compile, IntExpr.compile]
    exact next operand.compile_normal _
  | .sum operands => by
    rw [IntExpr.normal, IntExpr.compile, IntExpr.compile]
    exact next (IntExpr.compileAll_normal operands) _
  | .count operand => by
    rw [IntExpr.normal, IntExpr.compile, IntExpr.compile]
    exact next operand.compile_normal _
  | .sumOver declarations term => by
    have visits := term.compile_normal
    rw [IntExpr.normal, IntExpr.compile, IntExpr.compile]
    exact next (grounded (Decl.compileDomains_normal declarations) fun memberships =>
      next visits _) _
  | .ite condition thenInt elseInt => by
    rw [IntExpr.normal, IntExpr.compile, IntExpr.compile]
    apply andThen condition.compile_normal
    intro bit
    split
    · exact thenInt.compile_normal
    · exact elseInt.compile_normal
    · apply andThen thenInt.compile_normal
      intro thenWord
      exact next elseInt.compile_normal _
  | .sumOf operand => by
    rw [IntExpr.normal, IntExpr.compile, IntExpr.compile, Expr.arity_normal]
    split
    · exact andThen (throw (Error.normal_normal _).symm) fun _ => next operand.compile_normal _
    · exact next operand.compile_normal _

theorem IntExpr.compileAll_normal : ∀ operands : List IntExpr,
    Scope.Agrees Error.normal (IntExpr.compileAll leaves range operands)
      (IntExpr.compileAll leaves range (IntExpr.normalAll operands))
  | [] => by
    rw [IntExpr.normalAll]
    exact refl _
  | value :: rest => by
    rw [IntExpr.normalAll, IntExpr.compileAll, IntExpr.compileAll]
    apply andThen value.compile_normal
    intro word
    exact next (IntExpr.compileAll_normal rest) _

theorem Decl.compileDomains_normal : ∀ declarations : List Decl,
    List.Forall₂ (Scope.Agrees.Domain Error.normal)
      (Decl.compileDomains leaves range declarations)
      (Decl.compileDomains leaves range (Decl.normalAll declarations))
  | [] => by
    rw [Decl.normalAll, Decl.compileDomains]
    exact .nil
  | .oneOf declared domain :: rest => by
    rw [Decl.normalAll, Decl.compileDomains, Decl.compileDomains]
    exact .cons ⟨rfl, domain.compile_normal⟩ (Decl.compileDomains_normal rest)

end

end

/-! ## Evaluation -/

section

variable {model : Instance} {range : IntRange}

theorem SetComparison.compute?_normal (op : SetComparison) (left right : Expr)
    (a b : TupleSet) :
    (op.compute? left right a b).mapError Error.normal =
      (op.compute? left.normal right.normal a b).mapError Error.normal := by
  simp only [SetComparison.compute?]
  split
  · exact mapError_normal _
  · rfl

theorem IntOp.compute?_normal (op : IntOp) (left right : IntExpr) (a b : Int) :
    (op.compute? range left right a b).mapError Error.normal =
      (op.compute? range left.normal right.normal a b).mapError Error.normal := by
  cases op with
  | divide | modulo =>
      rw [IntOp.compute?, IntOp.compute?]
      split
      · exact mapError_normal _
      · rfl
  | _ => rfl

mutual

theorem Expr.evaluate_normal : ∀ expr : Expr,
    Scope.Agrees Error.normal (expr.evaluate model range) (expr.normal.evaluate model range)
  | .relation leaf => by
    rw [Expr.normal]
    exact refl _
  | .variable leaf => by
    rw [Expr.normal]
    exact refl _
  | .constant leaf => by
    rw [Expr.normal]
    exact refl _
  | .binary op left right arity => by
    rw [Expr.normal, Expr.evaluate, Expr.evaluate]
    apply andThen left.evaluate_normal
    intro leftSet
    exact next right.evaluate_normal _
  | .union operands arity => by
    rw [Expr.normal, Expr.evaluate, Expr.evaluate]
    exact Expr.evaluateUnion_normal operands _
  | .ite condition thenExpr elseExpr arity => by
    rw [Expr.normal, Expr.evaluate, Expr.evaluate]
    apply andThen condition.evaluate_normal
    intro holds
    split
    · exact thenExpr.evaluate_normal
    · exact elseExpr.evaluate_normal
  | .ofInt cast value => by
    rw [Expr.normal, Expr.evaluate, Expr.evaluate]
    exact next value.evaluate_normal _

theorem Expr.evaluateUnion_normal : ∀ (operands : List Expr) (set : TupleSet),
    Scope.Agrees Error.normal (Expr.evaluateUnion model range set operands)
      (Expr.evaluateUnion model range set (Expr.normalAll operands))
  | [], _ => by
    rw [Expr.normalAll]
    exact refl _
  | operand :: rest, set => by
    rw [Expr.normalAll, Expr.evaluateUnion, Expr.evaluateUnion]
    apply andThen operand.evaluate_normal
    intro found
    apply andThen (refl _)
    intro result
    exact Expr.evaluateUnion_normal rest result

theorem Formula.evaluate_normal : ∀ formula : Formula,
    Scope.Agrees Error.normal (formula.evaluate model range)
      (formula.normal.evaluate model range)
  | .literal value => by
    rw [Formula.normal, Formula.evaluate, Formula.evaluate]
    exact refl _
  | .constant value => by
    rw [Formula.normal]
    exact refl _
  | .binary op left right => by
    rw [Formula.normal, Formula.evaluate, Formula.evaluate]
    apply andThen left.evaluate_normal
    intro a
    exact next right.evaluate_normal _
  | .nary op operands => by
    rw [Formula.normal, Formula.evaluate, Formula.evaluate]
    exact next (Formula.evaluateAll_normal operands) _
  | .not operand => by
    rw [Formula.normal, Formula.evaluate, Formula.evaluate]
    exact next operand.evaluate_normal _
  | .compare op left right => by
    rw [Formula.normal, Formula.evaluate, Formula.evaluate]
    apply andThen left.evaluate_normal
    intro leftSet
    apply andThen right.evaluate_normal
    intro rightSet
    exact except (op.compute?_normal left right leftSet rightSet)
  | .multiplicity amount operand => by
    rw [Formula.normal, Formula.evaluate, Formula.evaluate]
    exact next operand.evaluate_normal _
  | .quantified quantifier declarations body => by
    rw [Formula.normal, Formula.evaluate, Formula.evaluate]
    exact next (visited (Decl.evaluateDomains_normal declarations) body.evaluate_normal) _
  | .compareInts op left right => by
    rw [Formula.normal, Formula.evaluate, Formula.evaluate]
    apply andThen left.evaluate_normal
    intro a
    exact next right.evaluate_normal _

theorem Formula.evaluateAll_normal : ∀ operands : List Formula,
    Scope.Agrees Error.normal (Formula.evaluateAll model range operands)
      (Formula.evaluateAll model range (Formula.normalAll operands))
  | [] => by
    rw [Formula.normalAll]
    exact refl _
  | formula :: rest => by
    rw [Formula.normalAll, Formula.evaluateAll, Formula.evaluateAll]
    apply andThen formula.evaluate_normal
    intro value
    exact next (Formula.evaluateAll_normal rest) _

theorem IntExpr.evaluate_normal : ∀ value : IntExpr,
    Scope.Agrees Error.normal (value.evaluate model range) (value.normal.evaluate model range)
  | .constant value => by
    rw [IntExpr.normal]
    exact refl _
  | .binary op left right => by
    rw [IntExpr.normal, IntExpr.evaluate, IntExpr.evaluate]
    apply andThen left.evaluate_normal
    intro a
    apply andThen right.evaluate_normal
    intro b
    exact except (op.compute?_normal left right a b)
  | .unary op operand => by
    rw [IntExpr.normal, IntExpr.evaluate, IntExpr.evaluate]
    exact next operand.evaluate_normal _
  | .sum operands => by
    rw [IntExpr.normal, IntExpr.evaluate, IntExpr.evaluate]
    exact next (IntExpr.evaluateAll_normal operands) _
  | .count operand => by
    rw [IntExpr.normal, IntExpr.evaluate, IntExpr.evaluate]
    exact next operand.evaluate_normal _
  | .sumOver declarations term => by
    rw [IntExpr.normal, IntExpr.evaluate, IntExpr.evaluate]
    exact next (visited (Decl.evaluateDomains_normal declarations) term.evaluate_normal) _
  | .ite condition thenInt elseInt => by
    rw [IntExpr.normal, IntExpr.evaluate, IntExpr.evaluate]
    apply andThen condition.evaluate_normal
    intro holds
    split
    · exact thenInt.evaluate_normal
    · exact elseInt.evaluate_normal
  | .sumOf operand => by
    rw [IntExpr.normal, IntExpr.evaluate, IntExpr.evaluate, Expr.arity_normal]
    split
    · exact andThen (throw (Error.normal_normal _).symm) fun _ =>
        next operand.evaluate_normal _
    · exact next operand.evaluate_normal _

theorem IntExpr.evaluateAll_normal : ∀ operands : List IntExpr,
    Scope.Agrees Error.normal (IntExpr.evaluateAll model range operands)
      (IntExpr.evaluateAll model range (IntExpr.normalAll operands))
  | [] => by
    rw [IntExpr.normalAll]
    exact refl _
  | value :: rest => by
    rw [IntExpr.normalAll, IntExpr.evaluateAll, IntExpr.evaluateAll]
    apply andThen value.evaluate_normal
    intro number
    exact next (IntExpr.evaluateAll_normal rest) _

theorem Decl.evaluateDomains_normal : ∀ declarations : List Decl,
    List.Forall₂ (Scope.Agrees.Domain Error.normal)
      (Decl.evaluateDomains model range declarations)
      (Decl.evaluateDomains model range (Decl.normalAll declarations))
  | [] => by
    rw [Decl.normalAll, Decl.evaluateDomains]
    exact .nil
  | .oneOf declared domain :: rest => by
    rw [Decl.normalAll, Decl.evaluateDomains, Decl.evaluateDomains]
    exact .cons ⟨rfl, domain.evaluate_normal⟩ (Decl.evaluateDomains_normal rest)

end

end

/-! ## Alike terms -/

/-- The same value, or errors of one kind that are the same but for the way in which the terms in
them are written. -/
inductive SameOutcome {α : Type} : Except Error α → Except Error α → Prop
  | value (value : α) : SameOutcome (.ok value) (.ok value)
  | failure {left right : Error} (same : left.normal = right.normal)
      (kind : left.kind? = right.kind?) : SameOutcome (.error left) (.error right)

theorem sameOutcome_of_mapError {α : Type} {left right : Except Error α}
    (same : left.mapError Error.normal = right.mapError Error.normal) :
    SameOutcome left right := by
  rcases left with error | value <;> rcases right with error' | value'
  · have normal : error.normal = error'.normal := Except.error.inj same
    apply SameOutcome.failure normal
    rw [← error.kind?_normal, normal, error'.kind?_normal]
  · cases same
  · cases same
  · cases Except.ok.inj same
    exact .value value

/-- In any scope and after any gates, two compilations have the same outcome, make the same gates
and leave the same scope. -/
def SameCompilation {α : Type} (left right : Compile α) : Prop :=
  ∀ scope circuit,
    let first := (left.run.run scope).run circuit
    let second := (right.run.run scope).run circuit
    SameOutcome first.1.1 second.1.1 ∧ first.1.2 = second.1.2 ∧ first.2 = second.2

def SameEvaluation {α : Type} (left right : Evaluate α) : Prop :=
  ∀ scope,
    let first := left.run.run scope
    let second := right.run.run scope
    SameOutcome first.1 second.1 ∧ first.2 = second.2

theorem sameCompilation_of_agrees {α : Type} {left right : Compile α}
    (agrees : Scope.Agrees Error.normal left right) : SameCompilation left right := by
  intro scope circuit
  have runs := congrArg (fun action : Compile α => action.run.run scope) agrees
  simp only [Scope.Action.run_adapt] at runs
  have ends := congrArg (fun action => action.run circuit) runs
  injection ends with results circuits
  injection results with outcomes scopes
  exact ⟨sameOutcome_of_mapError outcomes, scopes, circuits⟩

theorem sameEvaluation_of_agrees {α : Type} {left right : Evaluate α}
    (agrees : Scope.Agrees Error.normal left right) : SameEvaluation left right := by
  intro scope
  have runs := congrArg (fun action : Evaluate α => action.run.run scope) agrees
  simp only [Scope.Action.run_adapt] at runs
  injection runs with outcomes scopes
  exact ⟨sameOutcome_of_mapError outcomes, scopes⟩

/-- Terms that are alike can take each other's place: in all bounds, scopes and circuits they are
compiled with the same gates to the same bit, matrix or word, on all instances they have the same
value, and where one of them fails, the other fails with an error of the same kind. -/
theorem alike_interchangeable :
    (∀ left right : Formula, left.alike right = true →
      (∀ leaves range, SameCompilation (left.compile leaves range) (right.compile leaves range)) ∧
      ∀ model range, SameEvaluation (left.evaluate model range) (right.evaluate model range)) ∧
    (∀ left right : Expr, left.alike right = true →
      (∀ leaves range, SameCompilation (left.compile leaves range) (right.compile leaves range)) ∧
      ∀ model range, SameEvaluation (left.evaluate model range) (right.evaluate model range)) ∧
    ∀ left right : IntExpr, left.alike right = true →
      (∀ leaves range, SameCompilation (left.compile leaves range) (right.compile leaves range)) ∧
      ∀ model range,
        SameEvaluation (left.evaluate model range) (right.evaluate model range) := by
  refine ⟨fun left right alike => ?_, fun left right alike => ?_, fun left right alike => ?_⟩
  · have same := (left.alike_iff right).mp alike
    exact ⟨fun leaves range => sameCompilation_of_agrees (of_normal Formula.compile_normal same),
      fun model range => sameEvaluation_of_agrees (of_normal Formula.evaluate_normal same)⟩
  · have same := (left.alike_iff right).mp alike
    exact ⟨fun leaves range => sameCompilation_of_agrees (of_normal Expr.compile_normal same),
      fun model range => sameEvaluation_of_agrees (of_normal Expr.evaluate_normal same)⟩
  · have same := (left.alike_iff right).mp alike
    exact ⟨fun leaves range => sameCompilation_of_agrees (of_normal IntExpr.compile_normal same),
      fun model range => sameEvaluation_of_agrees (of_normal IntExpr.evaluate_normal same)⟩

theorem alike_interchangeable_quotient :
    let someone : Variable := ⟨0, "someone", 1⟩
    let guests (truth : Formula) : Expr := .ite (.not truth) (.constant .none) (.constant .univ) 1
    let share (truth : Formula) : IntExpr :=
      .sumOver [.oneOf someone (guests truth)]
        (.binary .divide (.constant 4) (.ite truth (.constant 0) (.constant 2)))
    let fair (truth : Formula) : Formula := .compareInts .gt (share truth) (.constant 0)
    let model : Instance := .empty ⟨0, ["host", "guest"]⟩
    (share (.literal true)).alike (share (.constant true)) = true ∧
      (∀ leaves range, SameCompilation ((share (.literal true)).compile leaves range)
        ((share (.constant true)).compile leaves range)) ∧
      (∃ error, (((share (.constant true)).evaluate model ⟨4, by decide, by decide⟩).run.run
        .empty).1 = .error error ∧ error.kind? = some "DivisionByZero") ∧
    (guests (.literal false)).alike (guests (.constant false)) = true ∧
      SameEvaluation ((guests (.literal false)).evaluate model ⟨4, by decide, by decide⟩)
        ((guests (.constant false)).evaluate model ⟨4, by decide, by decide⟩) ∧
    (fair (.literal false)).alike (fair (.constant false)) = true ∧
      ∀ model range, SameEvaluation ((fair (.literal false)).evaluate model range)
        ((fair (.constant false)).evaluate model range) := by
  intro someone guests share fair model
  rcases alike_interchangeable with ⟨formulas, exprs, ints⟩
  have shares : (share (.literal true)).alike (share (.constant true)) = true := by decide
  have domains : (guests (.literal false)).alike (guests (.constant false)) = true := by decide
  have comparisons : (fair (.literal false)).alike (fair (.constant false)) = true := by decide
  refine ⟨shares, (ints _ _ shares).1, ?_, domains, (exprs _ _ domains).2 _ _, comparisons,
    (formulas _ _ comparisons).2⟩
  have outcomes := ((ints _ _ shares).2 model ⟨4, by decide, by decide⟩ .empty).1
  have failed : (((share (.literal true)).evaluate model ⟨4, by decide, by decide⟩).run.run
      .empty).1 = .error (.divisionByZero (.constant 4) .divide
        (.ite (.literal true) (.constant 0) (.constant 2))) := by
    cbv
  rw [failed] at outcomes
  generalize (((share (.constant true)).evaluate model ⟨4, by decide, by decide⟩).run.run
    .empty).1 = outcome at outcomes ⊢
  cases outcomes with
  | failure same kind => exact ⟨_, rfl, kind.symm⟩

end ModelFinder
