import ModelFinder.Syntax.Basic
/-!
Scopes: what the variables in force are bound to, innermost binding first. A later binding
of a variable hides the earlier ones until it is removed.
-/

namespace ModelFinder

structure Scope (α : Type) where
  bindings : List (Variable × α)

namespace Scope

variable {α : Type}

def empty : Scope α := ⟨[]⟩

def extend (scope : Scope α) (bound : Variable) (value : α) : Scope α :=
  ⟨(bound, value) :: scope.bindings⟩

def pop (scope : Scope α) : Scope α := ⟨scope.bindings.tail⟩

def lookup (scope : Scope α) (bound : Variable) : Option α :=
  (scope.bindings.find? fun binding => binding.1 == bound).map Prod.snd

def replaceFirst (bound : Variable) (value : α) : List (Variable × α) → List (Variable × α)
  | [] => []
  | binding :: rest =>
    if binding.1 == bound then (bound, value) :: rest
    else binding :: replaceFirst bound value rest

/-- Gives the innermost binding of a variable a new value; an unbound variable stays
unbound. -/
def set (scope : Scope α) (bound : Variable) (value : α) : Scope α :=
  ⟨replaceFirst bound value scope.bindings⟩

@[simp] theorem pop_extend (scope : Scope α) (bound : Variable) (value : α) :
    (scope.extend bound value).pop = scope := rfl

@[simp] theorem lookup_extend_self (scope : Scope α) (bound : Variable) (value : α) :
    (scope.extend bound value).lookup bound = some value := by
  simp [lookup, extend]

/-- Runs an action with one more binding in force. The binding is removed whether the action
succeeds or fails. -/
def binding {ε β : Type} {m : Type → Type} [Monad m] (bound : Variable) (value : α)
    (action : ExceptT ε (StateT (Scope α) m) β) : ExceptT ε (StateT (Scope α) m) β :=
  ExceptT.mk do
    modify (·.extend bound value)
    let outcome ← action.run
    modify Scope.pop
    return outcome

end Scope

end ModelFinder
