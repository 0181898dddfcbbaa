import Mathlib
import ModelFinder.Proofs.Arities
import ModelFinder.Proofs.Scoping.Restoring
/-!
Groundings with bindings that are updated in place, and what a visit finds in scope.

`ground` and `visitGroundings` add a binding for every choice of a declared variable and remove it
again. The same groundings can be visited with one binding for each declaration, which is given
every choice in turn by a look-up of its variable, and with one list of pending conditions. Both
visit the same groundings, stop at the same failure, and have restored bindings and conditions by
then, because whatever runs in between restores the bindings.
-/

namespace ModelFinder

section

variable {α ε κ β γ δ : Type} {m : Type → Type} [Monad m]

/-! ## Groundings in general -/

/-- Visits every grounding of declared variables. The value of a domain offers choices, each of
them what the variable is bound to, if that can be had, and a condition. -/
def groundings (choices : α → List (Except ε α × κ)) :
    List (Variable × Scope.Action α ε m α) → List κ → (List κ → Scope.Action α ε m β) →
    Scope.Action α ε m (List β)
  | [], pending, visit => return [← visit pending]
  | (declared, domain) :: rest, pending, visit => do
    let value ← domain
    let results ← (choices value).mapM fun choice => do
      let single ← choice.1
      Scope.binding declared single (groundings choices rest (pending ++ [choice.2]) visit)
    return results.flatten

def Matrix.choices (matrix : Matrix) : List (Except Error Matrix × Bit) :=
  matrix.entries.map fun entry =>
    (.ok (Matrix.constant matrix.universeSize matrix.arity [entry.1]), entry.2)

def TupleSet.choices (set : TupleSet) : List (Except Error TupleSet × Unit) :=
  set.toList.map fun index => (TupleSet.ofIndices? set.univ set.arity [index], ())

theorem ground_eq_groundings (domains : List (Variable × Compile Matrix)) (pending : List Bit)
    (visit : List Bit → Compile β) :
    ground domains pending visit = groundings Matrix.choices domains pending visit := by
  induction domains generalizing pending with
  | nil => rfl
  | cons domain rest hypothesis =>
      rw [ground, groundings]
      apply bind_congr
      intro matrix
      rw [Matrix.choices, List.mapM_map]
      apply congrArg fun action : Compile (List (List β)) => List.flatten <$> action
      apply congrArg fun step => List.mapM step matrix.entries
      funext entry
      rw [Function.comp_apply, hypothesis]
      rfl

theorem visitGroundings_eq_groundings (domains : List (Variable × Evaluate TupleSet))
    (pending : List Unit) (visit : Evaluate β) :
    visitGroundings domains visit =
      groundings TupleSet.choices domains pending fun _ => visit := by
  induction domains generalizing pending with
  | nil => rfl
  | cons domain rest hypothesis =>
      rw [visitGroundings, groundings]
      apply bind_congr
      intro set
      rw [TupleSet.choices, List.mapM_map]
      apply congrArg fun action : Evaluate (List (List β)) => List.flatten <$> action
      apply congrArg fun step => List.mapM step set.toList
      funext index
      rw [Function.comp_apply, ← hypothesis]

/-! ## One binding for each declaration -/

theorem Scope.set_extend (scope : Scope α) (declared : Variable) (earlier value : α) :
    (scope.extend declared earlier).set declared value = scope.extend declared value := by
  simp [Scope.set, Scope.extend, Scope.replaceFirst]

variable [LawfulMonad m]

/-- Gives one binding every value in turn, before a body runs for it; the binding is removed at the
end or at the first failure. -/
def Scope.bindingEach (declared : Variable) (blank : α) (value : γ → Except ε α)
    (body : γ → Scope.Action α ε m β) (elements : List γ) : Scope.Action α ε m (List β) :=
  Scope.binding declared blank (elements.mapM fun element => do
    let single ← value element
    modifyThe (Scope α) (·.set declared single)
    body element)

/-- This is the same as a binding for every value: the binding that is looked up is the innermost
one, because everything that runs in between restores the scope. -/
theorem Scope.bindingEach_eq (declared : Variable) (blank : α) (value : γ → Except ε α)
    {body : γ → Scope.Action α ε m β} (restores : ∀ element, Scope.Restores (body element))
    (elements : List γ) :
    Scope.bindingEach declared blank value body elements = (elements.mapM fun element => do
      let single ← value element
      Scope.binding declared single (body element)) := by
  apply Scope.Action.ext
  intro scope
  rw [Scope.bindingEach, Scope.Action.run_binding]
  induction elements generalizing blank with
  | nil =>
      rw [List.mapM_nil, List.mapM_nil]
      exact map_pure _ _
  | cons element rest hypothesis =>
      rw [List.mapM_cons, List.mapM_cons, bind_assoc, bind_assoc]
      cases value element with
      | error error =>
          rw [Scope.Action.run_error_bind, Scope.Action.run_error_bind]
          exact map_pure _ _
      | ok single =>
          rw [Scope.Action.run_ok_bind, Scope.Action.run_ok_bind, bind_assoc,
            Scope.Action.run_modify_bind, Scope.set_extend, Scope.Action.run_bind,
            Scope.Action.run_bind, (restores element).run_binding, (restores element).run_bind,
            bind_map_left, map_bind]
          apply bind_congr
          intro result
          cases result.1 with
          | error error => exact map_pure _ _
          | ok first =>
              change _ <$> ((_ : Scope.Action α ε m (List β)) >>= _).run.run _ =
                ((_ : Scope.Action α ε m (List β)) >>= _).run.run scope
              rw [Scope.Action.run_bind, Scope.Action.run_bind, ← hypothesis single, map_bind,
                bind_map_left]
              apply bind_congr
              intro later
              cases later.1 with
              | error error => exact map_pure _ _
              | ok values => exact map_pure _ _

/-! ## One list of pending conditions -/

def Scope.Action.reading (action : List κ → Scope.Action α ε m β) :
    Scope.Action α ε (StateT (List κ) m) β :=
  ExceptT.mk fun scope pending => do
    let result ← (action pending).run.run scope
    return (result, pending)

def Scope.Action.pushing (condition : κ) (action : Scope.Action α ε (StateT (List κ) m) β) :
    Scope.Action α ε (StateT (List κ) m) β :=
  ExceptT.mk do
    modifyThe (List κ) (· ++ [condition])
    let outcome ← action.run
    modifyThe (List κ) List.dropLast
    return outcome

/-- Visits every grounding with one binding for each declaration and one list of conditions, both
of them updated in place. A binding holds `blank` before it holds a first choice. -/
def groundingsInPlace (blank : α → α) (choices : α → List (Except ε α × κ))
    (visit : List κ → Scope.Action α ε m β) :
    List (Variable × Scope.Action α ε m α) → Scope.Action α ε (StateT (List κ) m) (List β)
  | [] => return [← Scope.Action.reading visit]
  | (declared, domain) :: rest => do
    let value ← Scope.Action.reading fun _ => domain
    let results ← Scope.bindingEach declared (blank value) Prod.fst
      (fun choice => (groundingsInPlace blank choices visit rest).pushing choice.2) (choices value)
    return results.flatten

/-- An action that may use the pending conditions does what another one does that is given them,
and leaves them as they were. -/
def Scope.Action.Holds (held : Scope.Action α ε (StateT (List κ) m) β)
    (action : List κ → Scope.Action α ε m β) : Prop :=
  ∀ scope pending, (held.run.run scope).run pending =
    (fun result => (result, pending)) <$> (action pending).run.run scope

namespace Scope.Action.Holds

theorem run_modify (change : List κ → List κ) (scope : Scope α) (pending : List κ) :
    ((modifyThe (List κ) change : StateT (Scope α) (StateT (List κ) m) PUnit).run scope).run
      pending = Pure.pure ((PUnit.unit, scope), change pending) :=
  pure_bind _ _

theorem run_pushing (condition : κ) (held : Scope.Action α ε (StateT (List κ) m) β)
    (scope : Scope α) (pending : List κ) :
    ((held.pushing condition).run.run scope).run pending =
      (fun result => (result.1, result.2.dropLast)) <$>
        (held.run.run scope).run (pending ++ [condition]) := by
  rw [map_eq_pure_bind]
  simp only [Scope.Action.pushing, ExceptT.run_mk, StateT.run_bind, StateT.run_pure, run_modify,
    pure_bind]

theorem reading (action : List κ → Scope.Action α ε m β) : Holds (reading action) action := by
  intro scope pending
  rw [map_eq_pure_bind]
  rfl

theorem except (outcome : Except ε β) :
    Holds (liftM outcome : Scope.Action α ε (StateT (List κ) m) β) fun _ => liftM outcome := by
  intro scope pending
  change Pure.pure ((outcome, scope), pending) = _ <$> (Pure.pure (outcome, scope) : m _)
  rw [map_pure]

theorem bind {held : Scope.Action α ε (StateT (List κ) m) β}
    {heldNext : β → Scope.Action α ε (StateT (List κ) m) γ}
    {action : List κ → Scope.Action α ε m β} {next : List κ → β → Scope.Action α ε m γ}
    (first : Holds held action)
    (second : ∀ value, Holds (heldNext value) fun pending => next pending value) :
    Holds (held >>= heldNext) fun pending => action pending >>= next pending := by
  intro scope pending
  rw [Scope.Action.run_bind, Scope.Action.run_bind, StateT.run_bind, first scope pending,
    bind_map_left, map_bind]
  apply bind_congr
  intro result
  cases result.1 with
  | error error =>
      change Pure.pure ((Except.error error, result.2), pending) =
        _ <$> (Pure.pure (Except.error error, result.2) : m _)
      rw [map_pure]
  | ok value => exact second value result.2 pending

theorem pure (value : β) :
    Holds (Pure.pure value : Scope.Action α ε (StateT (List κ) m) β) fun _ => Pure.pure value :=
  except (.ok value)

theorem map {held : Scope.Action α ε (StateT (List κ) m) β} {transform : β → γ}
    {action : List κ → Scope.Action α ε m β} (first : Holds held action) :
    Holds (do return transform (← held)) fun pending => do return transform (← action pending) :=
  bind first fun value => pure (transform value)

theorem mapM {elements : List δ} {held : δ → Scope.Action α ε (StateT (List κ) m) β}
    {action : List κ → δ → Scope.Action α ε m β}
    (each : ∀ element, Holds (held element) fun pending => action pending element) :
    Holds (elements.mapM held) fun pending => elements.mapM (action pending) := by
  induction elements with
  | nil => exact pure []
  | cons element rest hypothesis =>
      simp only [List.mapM_cons]
      exact bind (each element) fun _ => map hypothesis

theorem binding {declared : Variable} {value : α}
    {held : Scope.Action α ε (StateT (List κ) m) β} {action : List κ → Scope.Action α ε m β}
    (holds : Holds held action) :
    Holds (Scope.binding declared value held) fun pending =>
      Scope.binding declared value (action pending) := by
  intro scope pending
  rw [Scope.Action.run_binding, Scope.Action.run_binding, StateT.run_map, holds, Functor.map_map,
    Functor.map_map]

theorem pushing {condition : κ} {held : Scope.Action α ε (StateT (List κ) m) β}
    {action : List κ → Scope.Action α ε m β} (holds : Holds held action) :
    Holds (held.pushing condition) fun pending => action (pending ++ [condition]) := by
  intro scope pending
  rw [run_pushing, holds, Functor.map_map]
  simp only [List.dropLast_concat]

theorem restores {held : Scope.Action α ε (StateT (List κ) m) β}
    {action : List κ → Scope.Action α ε m β} (holds : Holds held action)
    (each : ∀ pending, Scope.Restores (action pending)) : Scope.Restores held := by
  intro scope
  funext pending
  change (held.run.run scope).run pending = ((_ <$> held.run.run scope).run pending)
  rw [StateT.run_map, holds, each pending, Functor.map_map, Functor.map_map]

end Scope.Action.Holds

/-! ## Both in place -/

variable {choices : α → List (Except ε α × κ)} {visit : List κ → Scope.Action α ε m β}
  {domains : List (Variable × Scope.Action α ε m α)}

theorem Scope.Restores.groundings (restores : ∀ domain ∈ domains, Scope.Restores domain.2)
    (visits : ∀ conditions, Scope.Restores (visit conditions)) (pending : List κ) :
    Scope.Restores (groundings choices domains pending visit) := by
  induction domains generalizing pending with
  | nil => exact Scope.Restores.map (visits pending)
  | cons domain rest hypothesis =>
      rw [List.forall_mem_cons] at restores
      rw [ModelFinder.groundings]
      apply Scope.Restores.bind restores.1
      intro value
      apply Scope.Restores.map
      apply Scope.Restores.mapM
      intro choice
      apply Scope.Restores.bind (Scope.Restores.except _)
      intro single
      exact Scope.Restores.binding (hypothesis restores.2 _)

/-- Visiting in place gives what visiting with a binding and a list of conditions for every choice
gives, and the conditions are those from before. -/
theorem groundingsInPlace_holds (blank : α → α)
    (restores : ∀ domain ∈ domains, Scope.Restores domain.2)
    (visits : ∀ conditions, Scope.Restores (visit conditions)) :
    Scope.Action.Holds (groundingsInPlace blank choices visit domains) fun pending =>
      groundings choices domains pending visit := by
  induction domains with
  | nil =>
      simp only [groundingsInPlace, groundings]
      exact Scope.Action.Holds.map (Scope.Action.Holds.reading visit)
  | cons domain rest hypothesis =>
      rw [List.forall_mem_cons] at restores
      have further := hypothesis restores.2
      have pushed (choice : Except ε α × κ) : Scope.Action.Holds
          ((groundingsInPlace blank choices visit rest).pushing choice.2) fun pending =>
            groundings choices rest (pending ++ [choice.2]) visit :=
        further.pushing
      have restored (choice : Except ε α × κ) := (pushed choice).restores fun pending =>
        Scope.Restores.groundings restores.2 visits (pending ++ [choice.2])
      simp only [groundingsInPlace, groundings]
      apply Scope.Action.Holds.bind (Scope.Action.Holds.reading fun _ => domain.2)
      intro value
      apply Scope.Action.Holds.map
      rw [Scope.bindingEach_eq _ _ _ restored]
      apply Scope.Action.Holds.mapM
      intro choice
      apply Scope.Action.Holds.bind (Scope.Action.Holds.except _)
      intro single
      exact Scope.Action.Holds.binding (pushed choice)

end

/-! ## What a visit sees -/

section

variable {α ε κ : Type} {m : Type → Type}

def Scope.enter (scope : Scope α) (grounding : List (Variable × α × κ)) : Scope α :=
  ⟨(grounding.map fun bound => (bound.1, bound.2.1)).reverse ++ scope.bindings⟩

/-- The groundings of declared variables in a scope: every variable has one of the choices that
its domain's value offers, where the domain may have this value in the scope of the variables
before it. -/
inductive Grounds [MonadAttach m] (choices : α → List (Except ε α × κ)) :
    List (Variable × Scope.Action α ε m α) → Scope α → List (Variable × α × κ) → Prop
  | nil {scope : Scope α} : Grounds choices [] scope []
  | cons {declared : Variable} {domain : Scope.Action α ε m α}
      {rest : List (Variable × Scope.Action α ε m α)} {scope after : Scope α} {value single : α}
      {condition : κ} {grounding : List (Variable × α × κ)}
      (given : MonadAttach.CanReturn (domain.run.run scope) (.ok value, after))
      (chosen : (.ok single, condition) ∈ choices value)
      (further : Grounds choices rest (scope.extend declared single) grounding) :
      Grounds choices ((declared, domain) :: rest) scope
        ((declared, single, condition) :: grounding)

structure Grounds.Visited [MonadAttach m] (choices : α → List (Except ε α × κ))
    (domains : List (Variable × Scope.Action α ε m α)) (scope : Scope α) (pending : List κ)
    (inner : Scope α) (conditions : List κ) (grounding : List (Variable × α × κ)) : Prop where
  grounds : Grounds choices domains scope grounding
  declared : grounding.map Prod.fst = domains.map Prod.fst
  conditions_eq : conditions = pending ++ grounding.map fun bound => bound.2.2
  inner_eq : inner = scope.enter grounding
  /-- A declared variable is bound to its choice, to the last one if it is declared again. -/
  latest : ∀ earlier declared single condition later,
    grounding = earlier ++ (declared, single, condition) :: later →
    declared ∉ later.map Prod.fst → inner.lookup declared = some single
  others : ∀ leaf, leaf ∉ domains.map Prod.fst → inner.lookup leaf = scope.lookup leaf

theorem Scope.enter_cons (scope : Scope α) (declared : Variable) (single : α) (condition : κ)
    (grounding : List (Variable × α × κ)) :
    scope.enter ((declared, single, condition) :: grounding) =
      (scope.extend declared single).enter grounding := by
  simp [Scope.enter, Scope.extend]

private theorem find?_eq_none_of_notMem {entries : List (Variable × α)} {leaf : Variable}
    (absent : leaf ∉ entries.map Prod.fst) :
    entries.find? (fun binding => binding.1 == leaf) = none := by
  rw [List.find?_eq_none]
  intro binding member same
  exact absent (List.mem_map.mpr ⟨binding, member, eq_of_beq same⟩)

theorem Scope.lookup_enter_of_notMem {scope : Scope α} {grounding : List (Variable × α × κ)}
    {leaf : Variable} (absent : leaf ∉ grounding.map Prod.fst) :
    (scope.enter grounding).lookup leaf = scope.lookup leaf := by
  have apart : leaf ∉ ((grounding.map fun bound => (bound.1, bound.2.1)).reverse).map Prod.fst := by
    simpa using absent
  rw [Scope.lookup, Scope.enter, List.find?_append, find?_eq_none_of_notMem apart,
    Option.none_or, Scope.lookup]

theorem Scope.lookup_enter {scope : Scope α} {earlier later : List (Variable × α × κ)}
    {declared : Variable} {single : α} {condition : κ}
    (last : declared ∉ later.map Prod.fst) :
    (scope.enter (earlier ++ (declared, single, condition) :: later)).lookup declared =
      some single := by
  have split : scope.enter (earlier ++ (declared, single, condition) :: later) =
      ((scope.enter earlier).extend declared single).enter later := by
    simp [Scope.enter, Scope.extend]
  rw [split, Scope.lookup_enter_of_notMem last, Scope.lookup_extend_self]

example : (Scope.empty.enter [(keeper, 0, ()), (keeper, 1, ())]).lookup keeper = some 1 := by
  decide

variable [MonadAttach m] {choices : α → List (Except ε α × κ)}
  {domains : List (Variable × Scope.Action α ε m α)}

theorem Grounds.declared_eq {scope : Scope α} {grounding : List (Variable × α × κ)}
    (grounds : Grounds choices domains scope grounding) :
    grounding.map Prod.fst = domains.map Prod.fst := by
  induction grounds with
  | nil => rfl
  | cons given chosen further hypothesis => simp [hypothesis]

theorem Grounds.visited {scope : Scope α} {grounding : List (Variable × α × κ)}
    (grounds : Grounds choices domains scope grounding) (pending : List κ) :
    Grounds.Visited choices domains scope pending (scope.enter grounding)
      (pending ++ grounding.map fun bound => bound.2.2) grounding where
  grounds := grounds
  declared := grounds.declared_eq
  conditions_eq := rfl
  inner_eq := rfl
  latest earlier declared single condition later same last := by
    rw [same]
    exact Scope.lookup_enter last
  others leaf absent := by
    rw [← grounds.declared_eq] at absent
    exact Scope.lookup_enter_of_notMem absent

end

section

variable {α ε κ β γ : Type} {m : Type → Type} [Monad m] [LawfulMonad m]
  {choices : α → List (Except ε α × κ)} {visit : List κ → Scope.Action α ε m β}
  {domains : List (Variable × Scope.Action α ε m α)}

theorem Scope.Restores.run_bind_congr [MonadAttach m] [WeaklyLawfulMonadAttach m]
    {action : Scope.Action α ε m β} (restores : Scope.Restores action)
    {first second : β → Scope.Action α ε m γ} {scope : Scope α}
    (same : ∀ value after, MonadAttach.CanReturn (action.run.run scope) (.ok value, after) →
      (first value).run.run scope = (second value).run.run scope) :
    (action >>= first).run.run scope = (action >>= second).run.run scope := by
  rw [restores.run_next, restores.run_next,
    ← @WeaklyLawfulMonadAttach.map_attach m _ _ _ _ (action.run.run scope), bind_map_left,
    bind_map_left]
  apply bind_congr
  intro attached
  rcases attached with ⟨⟨outcome, after⟩, returned⟩
  cases outcome with
  | error error => rfl
  | ok value => exact same value after returned

theorem Scope.Restores.run_mapM_congr {first second : γ → Scope.Action α ε m β}
    (restores : ∀ element, Scope.Restores (first element)) {elements : List γ} {scope : Scope α}
    (same : ∀ element ∈ elements,
      (first element).run.run scope = (second element).run.run scope) :
    (elements.mapM first).run.run scope = (elements.mapM second).run.run scope := by
  induction elements with
  | nil => rw [List.mapM_nil, List.mapM_nil]
  | cons element rest hypothesis =>
      rw [List.forall_mem_cons] at same
      rw [List.mapM_cons, List.mapM_cons, (restores element).run_next]
      conv_rhs => rw [Scope.Action.run_bind, ← same.1, (restores element).run_bind]
      apply bind_congr
      intro result
      cases result.1 with
      | error error => rfl
      | ok value =>
          change ((_ : Scope.Action α ε m (List β)) >>= _).run.run scope =
            ((_ : Scope.Action α ε m (List β)) >>= _).run.run scope
          rw [Scope.Action.run_bind, Scope.Action.run_bind, hypothesis same.2]

/-- Visits that do the same in the scope of every grounding make no difference. -/
theorem groundings_congr [MonadAttach m] [WeaklyLawfulMonadAttach m]
    (restores : ∀ domain ∈ domains, Scope.Restores domain.2)
    (visits : ∀ conditions, Scope.Restores (visit conditions))
    {other : List κ → Scope.Action α ε m β} {scope : Scope α} {pending : List κ}
    (same : ∀ grounding, Grounds choices domains scope grounding →
      (visit (pending ++ grounding.map fun bound => bound.2.2)).run.run (scope.enter grounding) =
        (other (pending ++ grounding.map fun bound => bound.2.2)).run.run
          (scope.enter grounding)) :
    (groundings choices domains pending visit).run.run scope =
      (groundings choices domains pending other).run.run scope := by
  induction domains generalizing scope pending with
  | nil =>
      have here := same [] .nil
      rw [List.map_nil, List.append_nil] at here
      rw [groundings, groundings, Scope.Action.run_bind, Scope.Action.run_bind]
      exact congrArg (· >>= _) here
  | cons domain rest hypothesis =>
      rw [List.forall_mem_cons] at restores
      rw [groundings, groundings]
      apply restores.1.run_bind_congr
      intro value after given
      rw [Scope.Action.run_bind, Scope.Action.run_bind]
      apply congrArg (· >>= _)
      apply Scope.Restores.run_mapM_congr
      · intro choice
        apply Scope.Restores.bind (Scope.Restores.except _)
        intro single
        exact Scope.Restores.binding (Scope.Restores.groundings restores.2 visits _)
      · intro choice member
        rcases choice with ⟨outcome, condition⟩
        cases outcome with
        | error error => rw [Scope.Action.run_error_bind, Scope.Action.run_error_bind]
        | ok single =>
            rw [Scope.Action.run_ok_bind, Scope.Action.run_ok_bind, Scope.Action.run_binding,
              Scope.Action.run_binding]
            apply congrArg ((_ : Except ε (List β) × Scope α → _) <$> ·)
            apply hypothesis restores.2
            intro grounding grounds
            have visited := same _ (.cons given member grounds)
            rw [Scope.enter_cons, List.map_cons, ← List.singleton_append, ← List.append_assoc]
              at visited
            exact visited

structure Grounds.Scoped [MonadAttach m] (blank : α → α) (choices : α → List (Except ε α × κ))
    (domains : List (Variable × Scope.Action α ε m α)) (visit : List κ → Scope.Action α ε m β)
    (run : List κ → Scope.Action α ε m (List β)) : Prop where
  /-- Bindings and conditions that are updated in place lead to the same outcome, and are
  afterwards what they were before. -/
  restored : ∀ scope pending,
    ((groundingsInPlace blank choices visit domains).run.run scope).run pending =
      (fun result => ((result.1, scope), pending)) <$> (run pending).run.run scope
  /-- Every visit is one of a grounding: visits that do the same in the scope and under the
  conditions of every grounding are not told apart. -/
  visited : ∀ scope pending (other : List κ → Scope.Action α ε m β),
    (∀ inner conditions grounding,
      Grounds.Visited choices domains scope pending inner conditions grounding →
      (visit conditions).run.run inner = (other conditions).run.run inner) →
    (run pending).run.run scope = (groundings choices domains pending other).run.run scope

theorem groundings_scoped [MonadAttach m] [WeaklyLawfulMonadAttach m] (blank : α → α)
    (restores : ∀ domain ∈ domains, Scope.Restores domain.2)
    (visits : ∀ conditions, Scope.Restores (visit conditions)) :
    Grounds.Scoped blank choices domains visit fun pending =>
      groundings choices domains pending visit where
  restored scope pending := by
    have grounded : Scope.Restores (groundings choices domains pending visit) :=
      Scope.Restores.groundings restores visits pending
    rw [groundingsInPlace_holds blank restores visits, grounded, Functor.map_map,
      Functor.map_map]
  visited scope pending other same := by
    apply groundings_congr restores visits
    intro grounding grounds
    exact same _ _ _ (grounds.visited pending)

end

/-- Compilation and evaluation of any term, raw nodes included, end with the scope that they began
with, whatever their outcome. Both ground declared variables as they would with one binding for
each declaration and one list of conditions that are updated in place: bindings and conditions are
restored on every path, and a visit finds every declared variable bound to what the grounding
chose for it last. -/
theorem scoping_restored (leaves : Leaves) (range : IntRange) (model : Instance) :
    (∀ (formula : Formula) (scope : Scope Matrix) (circuit : Circuit),
      (((formula.compile leaves range).run.run scope).run circuit).1.2 = scope) ∧
    (∀ (expr : Expr) (scope : Scope Matrix) (circuit : Circuit),
      (((expr.compile leaves range).run.run scope).run circuit).1.2 = scope) ∧
    (∀ (value : IntExpr) (scope : Scope Matrix) (circuit : Circuit),
      (((value.compile leaves range).run.run scope).run circuit).1.2 = scope) ∧
    (∀ (formula : Formula) (scope : Scope TupleSet),
      ((formula.evaluate model range).run.run scope).run.2 = scope) ∧
    (∀ (expr : Expr) (scope : Scope TupleSet),
      ((expr.evaluate model range).run.run scope).run.2 = scope) ∧
    (∀ (value : IntExpr) (scope : Scope TupleSet),
      ((value.evaluate model range).run.run scope).run.2 = scope) ∧
    (∀ {β : Type} (declarations : List Decl) (visit : List Bit → Compile β),
      (∀ conditions, Scope.Restores (visit conditions)) →
      Grounds.Scoped (fun matrix => Matrix.empty matrix.universeSize matrix.arity) Matrix.choices
        (Decl.compileDomains leaves range declarations) visit fun pending =>
          ground (Decl.compileDomains leaves range declarations) pending visit) ∧
    (∀ {β : Type} (declarations : List Decl) (visit : Evaluate β), Scope.Restores visit →
      Grounds.Scoped (fun set => TupleSet.empty set.univ set.arity) TupleSet.choices
        (Decl.evaluateDomains model range declarations) (fun _ => visit) fun _ =>
          visitGroundings (Decl.evaluateDomains model range declarations) visit) := by
  have compiled {β : Type} {action : Compile β} (restores : Scope.Restores action)
      (scope : Scope Matrix) (circuit : Circuit) :
      ((action.run.run scope).run circuit).1.2 = scope := by
    rw [restores]
    rfl
  have evaluated {β : Type} {action : Evaluate β} (restores : Scope.Restores action)
      (scope : Scope TupleSet) : (action.run.run scope).run.2 = scope := by
    rw [restores]
    rfl
  refine ⟨fun formula => compiled formula.compile_restores,
    fun expr => compiled expr.compile_restores, fun value => compiled value.compile_restores,
    fun formula => evaluated formula.evaluate_restores,
    fun expr => evaluated expr.evaluate_restores, fun value => evaluated value.evaluate_restores,
    ?_, ?_⟩
  · intro β declarations visit visits
    simp only [ground_eq_groundings]
    exact groundings_scoped _ (Decl.compileDomains_restores declarations) visits
  · intro β declarations visit visits
    have same : (fun _ : List Unit =>
        visitGroundings (Decl.evaluateDomains model range declarations) visit) = fun pending =>
          groundings TupleSet.choices (Decl.evaluateDomains model range declarations) pending
            fun _ => visit :=
      funext fun pending => visitGroundings_eq_groundings _ pending visit
    rw [same]
    exact groundings_scoped _ (Decl.evaluateDomains_restores declarations) fun _ => visits

def keptTwice : List Decl := [.oneOf keeper (.constant .univ), .oneOf keeper (.variable keeper)]

def keptPets : IntExpr := .sumOver keptTwice (.count kept)

theorem scoping_restored_keeper :
    (∀ circuit, ((((Formula.quantified .some keptTwice (.multiplicity .some kept)).compile petLeaves
      fourBits).run.run catAlone).run circuit).1.2 = catAlone) ∧
    (∀ circuit, ((((Expr.ofInt .value keptPets).compile petLeaves fourBits).run.run catAlone).run
      circuit).1.2 = catAlone) ∧
    (∀ circuit, (((keptPets.compile petLeaves fourBits).run.run catAlone).run circuit).1.2 =
      catAlone) ∧
    (((Formula.quantified .some keptTwice (.multiplicity .some kept)).evaluate foodChain
      fourBits).run.run catHunts).run.2 = catHunts ∧
    (((Expr.ofInt .value keptPets).evaluate foodChain fourBits).run.run catHunts).run.2 =
      catHunts ∧
    ((keptPets.evaluate foodChain fourBits).run.run catHunts).run.2 = catHunts ∧
    Grounds.Scoped (fun matrix => Matrix.empty matrix.universeSize matrix.arity) Matrix.choices
      (Decl.compileDomains petLeaves fourBits keptTwice)
      (fun conditions => (liftM (Build.all conditions) : Compile Bit)) (fun pending =>
        ground (Decl.compileDomains petLeaves fourBits keptTwice) pending
          fun conditions => liftM (Build.all conditions)) ∧
    Grounds.Scoped (fun set => TupleSet.empty set.univ set.arity) TupleSet.choices
      (Decl.evaluateDomains foodChain fourBits keptTwice)
      (fun _ => kept.evaluate foodChain fourBits) fun _ =>
        visitGroundings (Decl.evaluateDomains foodChain fourBits keptTwice)
          (kept.evaluate foodChain fourBits) := by
  rcases scoping_restored petLeaves fourBits foodChain with
    ⟨formulas, exprs, values, truths, sets, numbers, compiled, evaluated⟩
  exact ⟨formulas _ _, exprs _ _, values _ _, truths _ _, sets _ _, numbers _ _,
    compiled _ _ fun _ => Scope.Restores.build _, evaluated _ _ kept.evaluate_restores⟩

end ModelFinder
