import Mathlib
import ModelFinder.Proofs.Scoping.Restoring
/-!
Runs that differ in their errors only. Two actions agree up to a renaming of errors if, in every
scope, they do the same until they succeed with the same value or fail with errors that have the
same new name. What an action does besides is not looked at, so an action agrees with itself, and
actions that are put together from agreeing parts agree.
-/

namespace ModelFinder

section

variable {α ε β γ δ : Type} {m n : Type → Type}

/-! ## Renamed errors -/

section

variable [Monad n] [LawfulMonad n] (rename : ε → ε)

theorem adapt_pure (value : β) : (pure value : ExceptT ε n β).adapt rename = pure value := by
  apply ExceptT.ext
  rw [ExceptT.run_adapt]
  exact map_pure _ _

theorem adapt_bind (action : ExceptT ε n β) (next : β → ExceptT ε n γ) :
    (action >>= next).adapt rename =
      action.adapt rename >>= fun value => (next value).adapt rename := by
  apply ExceptT.ext
  rw [ExceptT.run_adapt, ExceptT.run_bind, ExceptT.run_bind, ExceptT.run_adapt, map_bind,
    bind_map_left]
  apply bind_congr
  intro outcome
  cases outcome with
  | ok value =>
      rw [← ExceptT.run_adapt]
      rfl
  | error error => exact map_pure _ _

theorem adapt_mapM (action : δ → ExceptT ε n β) (elements : List δ) :
    (elements.mapM action).adapt rename =
      elements.mapM fun element => (action element).adapt rename := by
  induction elements with
  | nil => exact adapt_pure rename []
  | cons element rest hypothesis =>
      rw [List.mapM_cons, List.mapM_cons, adapt_bind]
      apply bind_congr
      intro first
      rw [adapt_bind, hypothesis]
      apply bind_congr
      intro others
      exact adapt_pure rename _

end

variable [Monad m] {rename : ε → ε}

/-- Two actions are the same but for their errors, which are the same after a renaming. -/
def Scope.Agrees (rename : ε → ε) (left right : Scope.Action α ε m β) : Prop :=
  ExceptT.adapt rename left = ExceptT.adapt rename right

theorem Scope.Agrees.refl (action : Scope.Action α ε m β) : Scope.Agrees rename action action :=
  rfl

/-- Terms with the same normal form agree if every term agrees with its normal form. -/
theorem Scope.Agrees.of_normal {τ : Type} {normal : τ → τ} {run : τ → Scope.Action α ε m β}
    (each : ∀ term, Scope.Agrees rename (run term) (run (normal term))) {left right : τ}
    (same : normal left = normal right) : Scope.Agrees rename (run left) (run right) := by
  rw [Scope.Agrees, each left, each right, same]

variable [LawfulMonad m]

namespace Scope.Action

theorem run_adapt (rename : ε → ε) (action : Scope.Action α ε m β) (scope : Scope α) :
    (action.adapt rename).run.run scope =
      (fun result => (result.1.mapError rename, result.2)) <$> action.run.run scope := by
  rw [ExceptT.run_adapt, StateT.run_map]

theorem adapt_binding (rename : ε → ε) (declared : Variable) (value : α)
    (action : Scope.Action α ε m β) :
    ExceptT.adapt rename (Scope.binding declared value action) =
      Scope.binding declared value (ExceptT.adapt rename action) := by
  apply ext
  intro scope
  rw [run_binding, run_adapt, run_adapt, run_binding, Functor.map_map, Functor.map_map]

end Scope.Action

/-! ## Rules of agreement -/

namespace Scope.Agrees

theorem except {left right : Except ε β}
    (same : left.mapError rename = right.mapError rename) :
    Scope.Agrees rename (liftM left : Scope.Action α ε m β) (liftM right) := by
  apply Scope.Action.ext
  intro scope
  rw [Scope.Action.run_adapt, Scope.Action.run_adapt]
  change _ <$> pure (left, scope) = _ <$> pure (right, scope)
  rw [map_pure, map_pure, same]

theorem throw {left right : ε} (same : rename left = rename right) :
    Scope.Agrees rename (MonadExcept.throw left : Scope.Action α ε m β)
      (MonadExcept.throw right) :=
  except (congrArg Except.error same)

theorem andThen {left right : Scope.Action α ε m β} {leftNext rightNext : β → Scope.Action α ε m γ}
    (first : Scope.Agrees rename left right)
    (second : ∀ value, Scope.Agrees rename (leftNext value) (rightNext value)) :
    Scope.Agrees rename (left >>= leftNext) (right >>= rightNext) := by
  rw [Scope.Agrees, adapt_bind, adapt_bind, first]
  apply bind_congr
  exact second

theorem next {left right : Scope.Action α ε m β} (first : Scope.Agrees rename left right)
    (following : β → Scope.Action α ε m γ) :
    Scope.Agrees rename (left >>= following) (right >>= following) :=
  andThen first fun value => refl (following value)

theorem mapM {left right : δ → Scope.Action α ε m β}
    (each : ∀ element, Scope.Agrees rename (left element) (right element)) (elements : List δ) :
    Scope.Agrees rename (elements.mapM left) (elements.mapM right) := by
  rw [Scope.Agrees, adapt_mapM, adapt_mapM]
  apply congrArg fun action => elements.mapM action
  funext element
  exact each element

theorem binding {left right : Scope.Action α ε m β} (same : Scope.Agrees rename left right)
    (declared : Variable) (value : α) :
    Scope.Agrees rename (Scope.binding declared value left)
      (Scope.binding declared value right) := by
  rw [Scope.Agrees, Scope.Action.adapt_binding, Scope.Action.adapt_binding, same]

def Domain (rename : ε → ε) (left right : Variable × Scope.Action α ε m α) : Prop :=
  left.1 = right.1 ∧ Scope.Agrees rename left.2 right.2

end Scope.Agrees

end

namespace Scope.Agrees

variable {β : Type} {rename : Error → Error}

theorem grounded {left right : List (Variable × Compile Matrix)} {pending : List Bit}
    {leftVisit rightVisit : List Bit → Compile β}
    (domains : List.Forall₂ (Domain rename) left right)
    (visits : ∀ memberships, Scope.Agrees rename (leftVisit memberships)
      (rightVisit memberships)) :
    Scope.Agrees rename (ground left pending leftVisit) (ground right pending rightVisit) := by
  induction domains generalizing pending with
  | nil =>
      rw [ground, ground]
      exact next (visits pending) _
  | @cons leftDomain rightDomain leftRest rightRest same _ hypothesis =>
      rcases leftDomain with ⟨declared, leftDomain⟩
      rcases rightDomain with ⟨_, rightDomain⟩
      rcases same with ⟨rfl, same⟩
      rw [ground, ground]
      apply andThen same
      intro matrix
      apply next
      apply mapM
      intro entry
      exact binding hypothesis _ _

theorem visited {left right : List (Variable × Evaluate TupleSet)}
    {leftVisit rightVisit : Evaluate β} (domains : List.Forall₂ (Domain rename) left right)
    (visits : Scope.Agrees rename leftVisit rightVisit) :
    Scope.Agrees rename (visitGroundings left leftVisit) (visitGroundings right rightVisit) := by
  induction domains with
  | nil =>
      rw [visitGroundings, visitGroundings]
      exact next visits _
  | @cons leftDomain rightDomain leftRest rightRest same _ hypothesis =>
      rcases leftDomain with ⟨declared, leftDomain⟩
      rcases rightDomain with ⟨_, rightDomain⟩
      rcases same with ⟨rfl, same⟩
      rw [visitGroundings, visitGroundings]
      apply andThen same
      intro set
      apply next
      apply mapM
      intro index
      apply andThen (refl _)
      intro singleton
      exact binding hypothesis _ _

end Scope.Agrees

end ModelFinder
