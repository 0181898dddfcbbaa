import Mathlib
import ModelFinder.Compile
import ModelFinder.Evaluate
import ModelFinder.Proofs.Circuit.Growth
/-!
Judgements about compilation and evaluation. Both leave the scope as they found it.

`Compile.Yields` says what holds of the result of a compilation that does not fail.
`Evaluate.Gives` says that an evaluation succeeds with a given result, or that it fails with a
division by zero where this is allowed; it never fails otherwise.
-/

namespace ModelFinder

/-! A term is compiled and evaluated as its head says. -/

attribute [simp] Expr.compile Expr.compileUnion Formula.compile Formula.compileAll
  IntExpr.compile IntExpr.compileAll Decl.compileDomains

attribute [simp] Expr.evaluate Expr.evaluateUnion Formula.evaluate Formula.evaluateAll
  IntExpr.evaluate IntExpr.evaluateAll Decl.evaluateDomains

/-- A compilation leads from a valid circuit to a valid later one and leaves the scope as it
was; if it does not fail, `post` holds of its result and the circuit. -/
def Compile.Yields {α : Type} (scope : Scope Matrix) (circuit : Circuit) (action : Compile α)
    (post : α → Circuit → Prop) : Prop :=
  Build.Yields circuit (action.run.run scope) fun result after =>
    result.2 = scope ∧ ∀ value, result.1 = .ok value → post value after

namespace Compile.Yields

variable {α β : Type} {scope : Scope Matrix} {circuit : Circuit}

theorem pure {value : α} {post : α → Circuit → Prop} (holds : post value circuit) :
    Compile.Yields scope circuit (Pure.pure value) post :=
  Build.Yields.pure ⟨rfl, fun _ same => Except.ok.inj same ▸ holds⟩

theorem throw {error : Error} {post : α → Circuit → Prop} :
    Compile.Yields scope circuit (MonadExcept.throw error) post :=
  Build.Yields.pure ⟨rfl, fun _ impossible => by cases impossible⟩

theorem except {outcome : Except Error α} {post : α → Circuit → Prop}
    (holds : ∀ value, outcome = .ok value → post value circuit) :
    Compile.Yields scope circuit (liftM outcome) post :=
  Build.Yields.pure ⟨rfl, holds⟩

theorem getScope {post : Scope Matrix → Circuit → Prop} (holds : post scope circuit) :
    Compile.Yields scope circuit (getThe (Scope Matrix)) post :=
  Build.Yields.pure ⟨rfl, fun _ same => Except.ok.inj same ▸ holds⟩

theorem build {action : Build α} {post : α → Circuit → Prop}
    (yields : Build.Yields circuit action post) :
    Compile.Yields scope circuit (liftM action) post := by
  change Build.Yields circuit (action >>= fun value => Pure.pure (Except.ok value, scope)) _
  exact Build.Yields.bind yields fun _ _ _ holds =>
    Build.Yields.pure ⟨rfl, fun _ same => Except.ok.inj same ▸ holds⟩

theorem tryBuild {action : TryBuild α} {post : α → Circuit → Prop}
    (yields : TryBuild.Yields circuit action post) :
    Compile.Yields scope circuit (liftM action) post := by
  change Build.Yields circuit (action.run >>= fun outcome => Pure.pure (outcome, scope)) _
  exact Build.Yields.bind yields fun _ _ _ holds => Build.Yields.pure ⟨rfl, holds⟩

theorem bind {action : Compile α} {next : α → Compile β} {middle : α → Circuit → Prop}
    {post : β → Circuit → Prop} (first : Compile.Yields scope circuit action middle)
    (second : ∀ value after, circuit.Extends after → middle value after →
      Compile.Yields scope after (next value) post) :
    Compile.Yields scope circuit (action >>= next) post := by
  change Build.Yields circuit (action.run.run scope >>= fun result =>
    (ExceptT.bindCont next result.1).run result.2) _
  refine Build.Yields.bind first fun result after grown holds => ?_
  rcases result with ⟨outcome, left⟩
  rcases holds with ⟨same, holds⟩
  dsimp only at same
  subst same
  cases outcome with
  | error error => exact throw
  | ok value => exact second value after grown (holds value rfl)

theorem weaken {action : Compile α} {strong weak : α → Circuit → Prop}
    (yields : Compile.Yields scope circuit action strong)
    (implies : ∀ value after, circuit.Extends after → strong value after → weak value after) :
    Compile.Yields scope circuit action weak :=
  Build.Yields.weaken yields fun _ after grown holds =>
    ⟨holds.1, fun value same => implies value after grown (holds.2 value same)⟩

theorem of_valid {action : Compile α} {post : α → Circuit → Prop}
    (yields : circuit.Valid → Compile.Yields scope circuit action post) :
    Compile.Yields scope circuit action post :=
  Build.Yields.of_valid yields

theorem binding {bound : Variable} {matrix : Matrix} {action : Compile α}
    {post : α → Circuit → Prop}
    (yields : Compile.Yields (scope.extend bound matrix) circuit action post) :
    Compile.Yields scope circuit (Scope.binding bound matrix action) post := by
  change Build.Yields circuit (action.run.run (scope.extend bound matrix) >>= fun result =>
    Pure.pure (result.1, result.2.pop)) _
  refine Build.Yields.bind yields fun result after _ holds => Build.Yields.pure ⟨?_, holds.2⟩
  dsimp only
  rw [holds.1, Scope.pop_extend]

end Compile.Yields

/-- An evaluation that succeeds with a result of which `post` holds, or divides by zero where it
may; success leaves the scope as it was. -/
def Evaluate.Gives {α : Type} (scope : Scope TupleSet) (mayFail : Prop) (action : Evaluate α)
    (post : α → Prop) : Prop :=
  (∃ value, action.run.run scope = (.ok value, scope) ∧ post value) ∨
    mayFail ∧ ∃ left op right,
      (action.run.run scope).1 = .error (.divisionByZero left op right)

namespace Evaluate.Gives

variable {α β : Type} {scope : Scope TupleSet} {mayFail : Prop}

theorem pure {value : α} {post : α → Prop} (holds : post value) :
    Evaluate.Gives scope mayFail (Pure.pure value) post :=
  .inl ⟨value, rfl, holds⟩

theorem except {outcome : Except Error α} {value : α} {post : α → Prop}
    (same : outcome = .ok value) (holds : post value) :
    Evaluate.Gives scope mayFail (liftM outcome) post := by
  subst same
  exact .inl ⟨value, rfl, holds⟩

theorem getScope {post : Scope TupleSet → Prop} (holds : post scope) :
    Evaluate.Gives scope mayFail MonadState.get post :=
  .inl ⟨scope, rfl, holds⟩

theorem division {left right : IntExpr} {op : IntOp} {outcome : Except Error α}
    {post : α → Prop} (allowed : mayFail)
    (same : outcome = .error (.divisionByZero left op right)) :
    Evaluate.Gives scope mayFail (liftM outcome) post := by
  subst same
  exact .inr ⟨allowed, left, op, right, rfl⟩

theorem bind {action : Evaluate α} {next : α → Evaluate β} {middle : α → Prop}
    {post : β → Prop} (first : Evaluate.Gives scope mayFail action middle)
    (second : ∀ value, middle value → Evaluate.Gives scope mayFail (next value) post) :
    Evaluate.Gives scope mayFail (action >>= next) post := by
  have unfolded : (action >>= next).run.run scope =
      (ExceptT.bindCont next (action.run.run scope).1).run (action.run.run scope).2 := rfl
  rcases first with ⟨value, ran, holds⟩ | ⟨allowed, left, op, right, failed⟩
  · rw [ran] at unfolded
    change (action >>= next).run.run scope = (next value).run.run scope at unfolded
    rw [Evaluate.Gives, unfolded]
    exact second value holds
  · rw [failed] at unfolded
    exact .inr ⟨allowed, left, op, right, by rw [unfolded]; rfl⟩

theorem weaken {action : Evaluate α} {strong weak : α → Prop}
    (gives : Evaluate.Gives scope mayFail action strong)
    (implies : ∀ value, strong value → weak value) :
    Evaluate.Gives scope mayFail action weak := by
  rcases gives with ⟨value, ran, holds⟩ | failed
  · exact .inl ⟨value, ran, implies value holds⟩
  · exact .inr failed

theorem binding {bound : Variable} {set : TupleSet} {action : Evaluate α} {post : α → Prop}
    (gives : Evaluate.Gives (scope.extend bound set) mayFail action post) :
    Evaluate.Gives scope mayFail (Scope.binding bound set action) post := by
  have unfolded : (Scope.binding bound set action).run.run scope =
      ((action.run.run (scope.extend bound set)).1,
        (action.run.run (scope.extend bound set)).2.pop) := rfl
  rcases gives with ⟨value, ran, holds⟩ | ⟨allowed, left, op, right, failed⟩
  · refine .inl ⟨value, ?_, holds⟩
    rw [unfolded, ran, Scope.pop_extend]
  · refine .inr ⟨allowed, left, op, right, ?_⟩
    rw [unfolded, failed]

end Evaluate.Gives

end ModelFinder
