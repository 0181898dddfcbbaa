import Mathlib
import ModelFinder.Compile
import ModelFinder.Evaluate
/-!
Compiling and evaluating a term, whether it succeeds or fails anywhere inside, leaves the scope as
it was before: the same bindings in the same order.

Both run in a monad over one that holds no scope. An action restores the scope if its run is the
same run with the scope at the end replaced by the scope at the start. Nothing is said about the
term: it may hold any unbound variable, fail anywhere, and declare a variable again.
-/

namespace ModelFinder

abbrev Scope.Action (α ε : Type) (m : Type → Type) (β : Type) : Type :=
  ExceptT ε (StateT (Scope α) m) β

/-- Whatever its outcome, an action leaves the scope as it found it. -/
def Scope.Restores {α ε β : Type} {m : Type → Type} [Monad m] (action : Scope.Action α ε m β) :
    Prop :=
  ∀ scope, action.run.run scope = (fun result => (result.1, scope)) <$> action.run.run scope

section

variable {α ε β γ δ : Type} {m : Type → Type}

/-! ## Runs of actions -/

namespace Scope.Action

theorem ext {left right : Scope.Action α ε m β}
    (same : ∀ scope, left.run.run scope = right.run.run scope) : left = right :=
  funext same

variable [Monad m]

theorem run_bind (action : Scope.Action α ε m β) (next : β → Scope.Action α ε m γ)
    (scope : Scope α) :
    (action >>= next).run.run scope = action.run.run scope >>= fun result =>
      (ExceptT.bindCont next result.1).run result.2 :=
  rfl

variable [LawfulMonad m]

theorem run_ok_bind (value : β) (next : β → Scope.Action α ε m γ) (scope : Scope α) :
    ((liftM (Except.ok value : Except ε β) : Scope.Action α ε m β) >>= next).run.run scope =
      (next value).run.run scope :=
  pure_bind _ _

theorem run_error_bind (error : ε) (next : β → Scope.Action α ε m γ) (scope : Scope α) :
    ((liftM (Except.error error : Except ε β) : Scope.Action α ε m β) >>= next).run.run scope =
      Pure.pure (.error error, scope) :=
  pure_bind _ _

theorem run_modify_bind (change : Scope α → Scope α) (next : Scope.Action α ε m γ)
    (scope : Scope α) :
    ((modifyThe (Scope α) change : Scope.Action α ε m PUnit) >>= fun _ => next).run.run scope =
      next.run.run (change scope) := by
  rw [run_bind]
  exact (bind_assoc _ _ _).trans ((pure_bind _ _).trans (pure_bind _ _))

theorem run_binding (declared : Variable) (value : α) (action : Scope.Action α ε m β)
    (scope : Scope α) :
    (Scope.binding declared value action).run.run scope =
      (fun result => (result.1, result.2.pop)) <$>
        action.run.run (scope.extend declared value) := by
  rw [map_eq_pure_bind]
  simp [Scope.binding]

end Scope.Action

/-! ## Rules of restoring -/

namespace Scope.Restores

variable [Monad m] [LawfulMonad m]

theorem run_bind {action : Scope.Action α ε m β} (restores : Scope.Restores action)
    (scope : Scope α) (next : Except ε β × Scope α → m γ) :
    action.run.run scope >>= next =
      action.run.run scope >>= fun result => next (result.1, scope) := by
  conv_lhs => rw [restores scope]
  exact bind_map_left _ _ _

theorem run_next {action : Scope.Action α ε m β} (restores : Scope.Restores action)
    (next : β → Scope.Action α ε m γ) (scope : Scope α) :
    (action >>= next).run.run scope = action.run.run scope >>= fun result =>
      (ExceptT.bindCont next result.1).run scope := by
  rw [Scope.Action.run_bind, restores.run_bind]

theorem run_binding {action : Scope.Action α ε m β} (restores : Scope.Restores action)
    (declared : Variable) (value : α) (scope : Scope α) :
    (Scope.binding declared value action).run.run scope =
      (fun result => (result.1, scope)) <$> action.run.run (scope.extend declared value) := by
  rw [Scope.Action.run_binding, restores, Functor.map_map, Functor.map_map]
  rfl

theorem of_run {action : Scope.Action α ε m β} (inner : Scope α → m (Except ε β))
    (apart : ∀ scope, action.run.run scope = (fun outcome => (outcome, scope)) <$> inner scope) :
    Scope.Restores action := by
  intro scope
  rw [apart, Functor.map_map]

theorem pure (value : β) :
    Scope.Restores (Pure.pure value : Scope.Action α ε m β) := by
  apply of_run fun _ => Pure.pure (Except.ok value)
  intro scope
  rw [map_pure]
  rfl

theorem throw (error : ε) :
    Scope.Restores (MonadExcept.throw error : Scope.Action α ε m β) := by
  apply of_run fun _ => Pure.pure (Except.error error)
  intro scope
  rw [map_pure]
  rfl

theorem except (outcome : Except ε β) :
    Scope.Restores (liftM outcome : Scope.Action α ε m β) := by
  apply of_run fun _ => Pure.pure outcome
  intro scope
  rw [map_pure]
  rfl

theorem getScope :
    Scope.Restores (getThe (Scope α) : Scope.Action α ε m (Scope α)) := by
  apply of_run fun scope => Pure.pure (Except.ok scope)
  intro scope
  rw [map_pure]
  change (Pure.pure (scope, scope) : m _) >>= _ = _
  rw [pure_bind]

theorem bind {action : Scope.Action α ε m β} {next : β → Scope.Action α ε m γ}
    (first : Scope.Restores action) (second : ∀ value, Scope.Restores (next value)) :
    Scope.Restores (action >>= next) := by
  intro scope
  rw [first.run_next, map_bind]
  apply bind_congr
  intro result
  cases result.1 with
  | error error => exact throw error scope
  | ok value => exact second value scope

theorem map {action : Scope.Action α ε m β} {transform : β → γ}
    (first : Scope.Restores action) : Scope.Restores (do return transform (← action)) :=
  bind first fun value => pure (transform value)

theorem mapM {elements : List δ} {action : δ → Scope.Action α ε m β}
    (each : ∀ element, Scope.Restores (action element)) :
    Scope.Restores (elements.mapM action) := by
  induction elements with
  | nil => exact pure []
  | cons element rest hypothesis =>
      rw [List.mapM_cons]
      exact bind (each element) fun _ => map hypothesis

/-- The one rule in which the scope changes: what is added before an action is removed after it,
also after a failure. -/
theorem binding {declared : Variable} {value : α} {action : Scope.Action α ε m β}
    (restores : Scope.Restores action) :
    Scope.Restores (Scope.binding declared value action) := by
  intro scope
  rw [restores.run_binding, Functor.map_map]

/-! Gates are added apart from the scope. -/

theorem build (action : Build β) : Scope.Restores (liftM action : Compile β) := by
  apply of_run fun _ => Except.ok <$> action
  intro scope
  rfl

theorem tryBuild (action : TryBuild β) : Scope.Restores (liftM action : Compile β) := by
  apply of_run fun _ => action.run
  intro scope
  rfl

theorem grounded {domains : List (Variable × Compile Matrix)} {pending : List Bit}
    {visit : List Bit → Compile β} (restores : ∀ domain ∈ domains, Scope.Restores domain.2)
    (visits : ∀ memberships, Scope.Restores (visit memberships)) :
    Scope.Restores (ground domains pending visit) := by
  induction domains generalizing pending with
  | nil =>
      rw [ground]
      exact map (visits pending)
  | cons domain rest hypothesis =>
      rw [List.forall_mem_cons] at restores
      rw [ground]
      apply bind restores.1
      intro matrix
      apply map
      apply mapM
      intro entry
      exact binding (hypothesis restores.2)

theorem visited {domains : List (Variable × Evaluate TupleSet)} {visit : Evaluate β}
    (restores : ∀ domain ∈ domains, Scope.Restores domain.2) (visits : Scope.Restores visit) :
    Scope.Restores (visitGroundings domains visit) := by
  induction domains with
  | nil =>
      rw [visitGroundings]
      exact map visits
  | cons domain rest hypothesis =>
      rw [List.forall_mem_cons] at restores
      rw [visitGroundings]
      apply bind restores.1
      intro set
      apply map
      apply mapM
      intro index
      apply bind (except _)
      intro singleton
      exact binding (hypothesis restores.2)

theorem guarded {body : Compile β} (guard : Bit → β → Build β) (restores : Scope.Restores body)
    (memberships : List Bit) :
    Scope.Restores (do
      let value ← body
      let present ← (liftM (Build.all memberships) : Compile Bit)
      (liftM (guard present value) : Compile β)) := by
  apply bind restores
  intro value
  apply bind (build _)
  intro present
  exact build _

end Scope.Restores

end

open Scope.Restores

/-! ## Compilation -/

section

variable {leaves : Leaves} {range : IntRange}

mutual

theorem Expr.compile_restores : ∀ expr : Expr, Scope.Restores (expr.compile leaves range)
  | .relation leaf => by
    rw [Expr.compile]
    exact except _
  | .variable leaf => by
    rw [Expr.compile]
    refine bind getScope fun scope => ?_
    split
    · exact pure _
    · exact throw _
  | .constant leaf => by
    rw [Expr.compile]
    exact pure _
  | .binary op left right arity => by
    rw [Expr.compile]
    exact bind (except _) fun _ => bind left.compile_restores fun _ =>
      bind right.compile_restores fun _ => tryBuild _
  | .union operands arity => by
    rw [Expr.compile]
    exact Expr.compileUnion_restores operands arity _
  | .ite condition thenExpr elseExpr arity => by
    rw [Expr.compile]
    refine bind (except _) fun _ => bind condition.compile_restores fun bit => ?_
    split
    · exact thenExpr.compile_restores
    · exact elseExpr.compile_restores
    · exact bind thenExpr.compile_restores fun _ => bind elseExpr.compile_restores fun _ =>
        tryBuild _
  | .ofInt cast value => by
    rw [Expr.compile]
    apply bind value.compile_restores
    intro word
    cases cast with
    | value => exact build _
    | bitset => exact build _

theorem Expr.compileUnion_restores : ∀ (operands : List Expr) (arity : Nat) (matrix : Matrix),
    Scope.Restores (Expr.compileUnion leaves range arity matrix operands)
  | [], _, _ => by
    rw [Expr.compileUnion]
    exact pure _
  | operand :: rest, arity, matrix => by
    rw [Expr.compileUnion]
    have further := bind operand.compile_restores fun operandMatrix =>
      bind (tryBuild (matrix.union? operandMatrix)) fun result =>
        Expr.compileUnion_restores rest arity result
    split
    · exact bind (throw _) fun _ => further
    · exact further

theorem Formula.compile_restores : ∀ formula : Formula,
    Scope.Restores (formula.compile leaves range)
  | .literal value => by
    rw [Formula.compile]
    exact pure _
  | .constant value => by
    rw [Formula.compile]
    exact pure _
  | .binary op left right => by
    rw [Formula.compile]
    exact bind left.compile_restores fun _ => bind right.compile_restores fun _ => build _
  | .nary op operands => by
    rw [Formula.compile]
    exact bind (Formula.compileAll_restores operands) fun _ => tryBuild _
  | .not operand => by
    rw [Formula.compile]
    exact bind operand.compile_restores fun _ => build _
  | .compare op left right => by
    rw [Formula.compile]
    exact bind (except _) fun _ => bind left.compile_restores fun _ =>
      bind right.compile_restores fun _ => tryBuild _
  | .multiplicity amount operand => by
    rw [Formula.compile]
    exact bind operand.compile_restores fun _ => build _
  | .quantified quantifier declarations body => by
    have domains := Decl.compileDomains_restores declarations
    have visits := body.compile_restores
    rw [Formula.compile.eq_def]
    dsimp only
    cases quantifier with
    | some => exact bind (grounded domains (guarded Build.and visits)) fun _ => build _
    | all => exact bind (grounded domains (guarded Build.implies visits)) fun _ => build _
  | .compareInts op left right => by
    rw [Formula.compile]
    exact bind left.compile_restores fun _ => bind right.compile_restores fun _ => build _

theorem Formula.compileAll_restores : ∀ operands : List Formula,
    Scope.Restores (Formula.compileAll leaves range operands)
  | [] => by
    rw [Formula.compileAll]
    exact pure _
  | operand :: rest => by
    rw [Formula.compileAll]
    exact bind operand.compile_restores fun _ => map (Formula.compileAll_restores rest)

theorem IntExpr.compile_restores : ∀ value : IntExpr,
    Scope.Restores (value.compile leaves range)
  | .constant value => by
    rw [IntExpr.compile]
    exact pure _
  | .binary op left right => by
    rw [IntExpr.compile]
    exact bind left.compile_restores fun _ => bind right.compile_restores fun _ =>
      bind (except _) fun _ => build _
  | .unary op operand => by
    rw [IntExpr.compile]
    exact bind operand.compile_restores fun _ => build _
  | .sum operands => by
    rw [IntExpr.compile]
    exact bind (IntExpr.compileAll_restores operands) fun _ => tryBuild _
  | .count operand => by
    rw [IntExpr.compile]
    exact bind operand.compile_restores fun _ => tryBuild _
  | .sumOver declarations term => by
    have domains := Decl.compileDomains_restores declarations
    have visits := term.compile_restores
    rw [IntExpr.compile.eq_def]
    dsimp only
    exact bind (grounded domains (guarded
      (fun present value => Word.choice present value (Word.zero range.bitwidth)) visits))
      fun _ => tryBuild _
  | .ite condition thenInt elseInt => by
    rw [IntExpr.compile]
    apply bind condition.compile_restores
    intro bit
    split
    · exact thenInt.compile_restores
    · exact elseInt.compile_restores
    · exact bind thenInt.compile_restores fun _ => bind elseInt.compile_restores fun _ =>
        build _
  | .sumOf operand => by
    rw [IntExpr.compile]
    have summed := bind operand.compile_restores fun matrix =>
      bind (build (memberInts leaves range matrix)) fun words => tryBuild (Word.sumAll words)
    split
    · exact bind (throw _) fun _ => summed
    · exact summed

theorem IntExpr.compileAll_restores : ∀ operands : List IntExpr,
    Scope.Restores (IntExpr.compileAll leaves range operands)
  | [] => by
    rw [IntExpr.compileAll]
    exact pure _
  | operand :: rest => by
    rw [IntExpr.compileAll]
    exact bind operand.compile_restores fun _ => map (IntExpr.compileAll_restores rest)

theorem Decl.compileDomains_restores : ∀ declarations : List Decl,
    ∀ domain ∈ Decl.compileDomains leaves range declarations, Scope.Restores domain.2
  | [] => by
    rw [Decl.compileDomains]
    exact List.forall_mem_nil _
  | .oneOf declared domain :: rest => by
    rw [Decl.compileDomains, List.forall_mem_cons]
    exact ⟨domain.compile_restores, Decl.compileDomains_restores rest⟩

end

end

/-! ## Evaluation -/

section

variable {model : Instance} {range : IntRange}

mutual

theorem Expr.evaluate_restores : ∀ expr : Expr, Scope.Restores (expr.evaluate model range)
  | .relation leaf => by
    rw [Expr.evaluate]
    split
    · exact pure _
    · exact throw _
  | .variable leaf => by
    rw [Expr.evaluate]
    refine bind getScope fun scope => ?_
    split
    · exact pure _
    · exact throw _
  | .constant leaf => by
    rw [Expr.evaluate]
    exact except _
  | .binary op left right arity => by
    rw [Expr.evaluate]
    exact bind left.evaluate_restores fun _ => bind right.evaluate_restores fun _ => except _
  | .union operands arity => by
    rw [Expr.evaluate]
    exact Expr.evaluateUnion_restores operands _
  | .ite condition thenExpr elseExpr arity => by
    rw [Expr.evaluate]
    apply bind condition.evaluate_restores
    intro truth
    split
    · exact thenExpr.evaluate_restores
    · exact elseExpr.evaluate_restores
  | .ofInt cast value => by
    rw [Expr.evaluate]
    exact bind value.evaluate_restores fun _ => except _

theorem Expr.evaluateUnion_restores : ∀ (operands : List Expr) (set : TupleSet),
    Scope.Restores (Expr.evaluateUnion model range set operands)
  | [], _ => by
    rw [Expr.evaluateUnion]
    exact pure _
  | operand :: rest, set => by
    rw [Expr.evaluateUnion]
    exact bind operand.evaluate_restores fun _ => bind (except _) fun result =>
      Expr.evaluateUnion_restores rest result

theorem Formula.evaluate_restores : ∀ formula : Formula,
    Scope.Restores (formula.evaluate model range)
  | .literal value => by
    rw [Formula.evaluate]
    exact pure _
  | .constant value => by
    rw [Formula.evaluate]
    exact pure _
  | .binary op left right => by
    rw [Formula.evaluate]
    exact bind left.evaluate_restores fun _ => map right.evaluate_restores
  | .nary op operands => by
    rw [Formula.evaluate]
    exact bind (Formula.evaluateAll_restores operands) fun _ => except _
  | .not operand => by
    rw [Formula.evaluate]
    exact map operand.evaluate_restores
  | .compare op left right => by
    rw [Formula.evaluate]
    exact bind left.evaluate_restores fun _ => bind right.evaluate_restores fun _ => except _
  | .multiplicity amount operand => by
    rw [Formula.evaluate]
    exact map operand.evaluate_restores
  | .quantified quantifier declarations body => by
    have domains := Decl.evaluateDomains_restores declarations
    have visits := body.evaluate_restores
    rw [Formula.evaluate.eq_def]
    dsimp only
    cases quantifier with
    | some => exact map (visited domains visits)
    | all => exact map (visited domains visits)
  | .compareInts op left right => by
    rw [Formula.evaluate]
    exact bind left.evaluate_restores fun _ => map right.evaluate_restores

theorem Formula.evaluateAll_restores : ∀ operands : List Formula,
    Scope.Restores (Formula.evaluateAll model range operands)
  | [] => by
    rw [Formula.evaluateAll]
    exact pure _
  | operand :: rest => by
    rw [Formula.evaluateAll]
    exact bind operand.evaluate_restores fun _ => map (Formula.evaluateAll_restores rest)

theorem IntExpr.evaluate_restores : ∀ value : IntExpr,
    Scope.Restores (value.evaluate model range)
  | .constant value => by
    rw [IntExpr.evaluate]
    exact pure _
  | .binary op left right => by
    rw [IntExpr.evaluate]
    exact bind left.evaluate_restores fun _ => bind right.evaluate_restores fun _ => except _
  | .unary op operand => by
    rw [IntExpr.evaluate]
    exact map operand.evaluate_restores
  | .sum operands => by
    rw [IntExpr.evaluate]
    exact map (IntExpr.evaluateAll_restores operands)
  | .count operand => by
    rw [IntExpr.evaluate]
    exact map operand.evaluate_restores
  | .sumOver declarations term => by
    have domains := Decl.evaluateDomains_restores declarations
    have visits := term.evaluate_restores
    rw [IntExpr.evaluate.eq_def]
    dsimp only
    exact map (visited domains visits)
  | .ite condition thenInt elseInt => by
    rw [IntExpr.evaluate]
    apply bind condition.evaluate_restores
    intro truth
    split
    · exact thenInt.evaluate_restores
    · exact elseInt.evaluate_restores
  | .sumOf operand => by
    rw [IntExpr.evaluate]
    have summed := @map _ _ _ _ _ _ _ _ (fun set => range.sum (model.memberInts range set))
      operand.evaluate_restores
    split
    · exact bind (throw _) fun _ => summed
    · exact summed

theorem IntExpr.evaluateAll_restores : ∀ operands : List IntExpr,
    Scope.Restores (IntExpr.evaluateAll model range operands)
  | [] => by
    rw [IntExpr.evaluateAll]
    exact pure _
  | operand :: rest => by
    rw [IntExpr.evaluateAll]
    exact bind operand.evaluate_restores fun _ => map (IntExpr.evaluateAll_restores rest)

theorem Decl.evaluateDomains_restores : ∀ declarations : List Decl,
    ∀ domain ∈ Decl.evaluateDomains model range declarations, Scope.Restores domain.2
  | [] => by
    rw [Decl.evaluateDomains]
    exact List.forall_mem_nil _
  | .oneOf declared domain :: rest => by
    rw [Decl.evaluateDomains, List.forall_mem_cons]
    exact ⟨domain.evaluate_restores, Decl.evaluateDomains_restores rest⟩

end

end

end ModelFinder
