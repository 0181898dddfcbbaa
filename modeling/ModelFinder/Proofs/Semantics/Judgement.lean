import Mathlib
import ModelFinder.Evaluate
import ModelFinder.Proofs.Semantics.Sets
/-!
Judgements about evaluation and denotation. Both have results, one of which means the other, or
fail with the same error; evaluation leaves the scope as it found it, even if it fails. The scope
is a stack of sets of one tuple each, and the environment a function to sequences.
-/

namespace ModelFinder

/-- Two outcomes are results of which one means the other, or the same error. -/
inductive Agree {α β : Type} (means : α → β → Prop) : Except Error α → Except Error β → Prop
  | ok {value : α} {meaning : β} : means value meaning → Agree means (.ok value) (.ok meaning)
  | error (error : Error) : Agree means (.error error) (.error error)

theorem agree_iff_eq_map {α β : Type} {convert : β → α} {outcome : Except Error α}
    {denoted : Except Error β} :
    Agree (fun value meaning => value = convert meaning) outcome denoted ↔
      outcome = denoted.map convert := by
  constructor
  · rintro (same | _)
    · exact congrArg Except.ok same
    · rfl
  · rintro rfl
    cases denoted with
    | ok meaning => exact .ok rfl
    | error error => exact .error error

theorem agree_iff_eq {α : Type} {outcome denoted : Except Error α} :
    Agree (· = ·) outcome denoted ↔ outcome = denoted := by
  have converted := @agree_iff_eq_map α α id outcome denoted
  have unconverted : denoted.map id = denoted := by cases denoted <;> rfl
  rw [unconverted] at converted
  exact converted

/-- A run from a scope agrees with a denotation and leaves the scope as it was. -/
structure Evaluate.Implements {α β : Type} (scope : Scope TupleSet) (means : α → β → Prop)
    (evaluated : Evaluate α) (denoted : Except Error β) : Prop where
  agree : Agree means (evaluated.run.run scope).1 denoted
  scope_eq : (evaluated.run.run scope).2 = scope

namespace Evaluate.Implements

variable {α β α' β' : Type} {scope : Scope TupleSet} {means : α → β → Prop}
  {means' : α' → β' → Prop} {evaluated : Evaluate α} {denoted : Except Error β}

theorem pure {value : α} {meaning : β} (holds : means value meaning) :
    Implements scope means (Pure.pure value) (Pure.pure meaning) :=
  ⟨.ok holds, rfl⟩

theorem throw (error : Error) :
    Implements scope means (MonadExcept.throw error) (MonadExcept.throw error) :=
  ⟨.error error, rfl⟩

theorem except {outcome : Except Error α} (agree : Agree means outcome denoted) :
    Implements scope means (liftM outcome) denoted :=
  ⟨agree, rfl⟩

theorem bind {next : α → Evaluate α'} {next' : β → Except Error β'}
    (first : Implements scope means evaluated denoted)
    (second : ∀ value meaning, means value meaning →
      Implements scope means' (next value) (next' meaning)) :
    Implements scope means' (evaluated >>= next) (denoted >>= next') := by
  rcases first with ⟨agree, scope_eq⟩
  have run : (evaluated >>= next).run.run scope =
      (ExceptT.bindCont next (evaluated.run.run scope).1).run scope :=
    congrArg (ExceptT.bindCont next (evaluated.run.run scope).1).run scope_eq
  cases outcome : (evaluated.run.run scope).1 with
  | ok value =>
      rw [outcome] at agree run
      cases agree with
      | ok holds =>
          rcases second _ _ holds with ⟨agree, scope_eq⟩
          exact ⟨by rw [run]; exact agree, by rw [run]; exact scope_eq⟩
  | error error =>
      rw [outcome] at agree run
      cases agree
      exact ⟨by rw [run]; exact .error error, by rw [run]; rfl⟩

theorem reading {next : Scope TupleSet → Evaluate α}
    (implements : Implements scope means (next scope) denoted) :
    Implements scope means (MonadState.get >>= next) denoted :=
  ⟨implements.agree, implements.scope_eq⟩

theorem checked {outcome : Except Error α'} {value : α'} {next : α' → Evaluate α}
    (same : outcome = .ok value) (implements : Implements scope means (next value) denoted) :
    Implements scope means (liftM outcome >>= next) denoted := by
  subst same
  exact implements

theorem mapM {ε ε' : Type} {related : ε → ε' → Prop} {elements : List ε} {elements' : List ε'}
    {action : ε → Evaluate α} {action' : ε' → Except Error β}
    (relates : List.Forall₂ related elements elements')
    (each : ∀ element element', related element element' →
      Implements scope means (action element) (action' element')) :
    Implements scope (List.Forall₂ means) (elements.mapM action) (elements'.mapM action') := by
  induction relates with
  | nil => exact pure .nil
  | cons first _ hypothesis =>
      rw [List.mapM_cons, List.mapM_cons]
      exact (each _ _ first).bind fun _ _ holds => hypothesis.bind fun _ _ rest =>
        pure (.cons holds rest)

theorem binding {declared : Variable} {set : TupleSet}
    (implements : Implements (scope.extend declared set) means evaluated denoted) :
    Implements scope means (Scope.binding declared set evaluated) denoted := by
  rcases implements with ⟨agree, scope_eq⟩
  have run : (Scope.binding declared set evaluated).run.run scope =
      ((evaluated.run.run (scope.extend declared set)).1,
        (evaluated.run.run (scope.extend declared set)).2.pop) := rfl
  refine ⟨by rw [run]; exact agree, ?_⟩
  rw [run, scope_eq, Scope.pop_extend]

end Evaluate.Implements

def Scope.Represents (scope : Scope TupleSet) (univ : Universe) (env : Environment) : Prop :=
  ∀ leaf : Variable, Option.Rel (fun set sequence => set.Reads univ leaf.arity {sequence})
    (scope.lookup leaf) (env leaf)

theorem Scope.represents_empty (univ : Universe) :
    Scope.Represents .empty univ fun _ => none :=
  fun _ => .none

theorem Scope.Represents.extend {scope : Scope TupleSet} {univ : Universe} {env : Environment}
    (represents : scope.Represents univ env) {declared : Variable} {set : TupleSet}
    {sequence : List Nat} (reads : set.Reads univ declared.arity {sequence}) :
    (scope.extend declared set).Represents univ
      (Function.update env declared (some sequence)) := by
  intro leaf
  by_cases same : leaf = declared
  · subst same
    rw [Scope.lookup_extend_self, Function.update_self]
    exact .some reads
  · have hidden : (scope.extend declared set).lookup leaf = scope.lookup leaf := by
      rw [Scope.lookup, Scope.extend, List.find?_cons_of_neg (by simpa using Ne.symm same)]
      rfl
    rw [hidden, Function.update_of_ne same]
    exact represents leaf

/-- An evaluation agrees with a denotation in every scope and leaves it as it was. -/
def Evaluate.Realizes {α β : Type} (univ : Universe) (means : α → β → Prop)
    (evaluated : Evaluate α) (denoted : Environment → Except Error β) : Prop :=
  ∀ (scope : Scope TupleSet) (env : Environment), scope.Represents univ env →
    Evaluate.Implements scope means evaluated (denoted env)

structure Evaluate.RealizesDomain (univ : Universe) (evaluated : Variable × Evaluate TupleSet)
    (denoted : Variable × (Environment → Except Error (Finset (List Nat)))) : Prop where
  declared_eq : evaluated.1 = denoted.1
  small : univ.size ^ denoted.1.arity < Index.limit
  realizes : Evaluate.Realizes univ
    (fun set sequences => set.Reads univ denoted.1.arity sequences) evaluated.2 denoted.2

/-- Groundings are visited in the order of the choices of sequences. -/
theorem Evaluate.Realizes.groundings {α β : Type} {univ : Universe} {means : α → β → Prop}
    (positive : 0 < univ.size) {visit : Evaluate α} {term : Environment → Except Error β}
    (body : Evaluate.Realizes univ means visit term) {domains : List (Variable × Evaluate TupleSet)}
    {domains' : List (Variable × (Environment → Except Error (Finset (List Nat))))}
    (realizes : List.Forall₂ (Evaluate.RealizesDomain univ) domains domains') :
    Evaluate.Realizes univ (List.Forall₂ means) (visitGroundings domains visit)
      (forEach domains' term) := by
  induction realizes with
  | nil =>
      intro scope env represents
      exact (body scope env represents).bind fun _ _ holds => .pure (.cons holds .nil)
  | @cons domain domain' rest rest' first _ hypothesis =>
      rcases domain with ⟨declared, domain⟩
      rcases domain' with ⟨declared', domain'⟩
      rcases first with ⟨rfl, small, realizes⟩
      intro scope env represents
      refine (realizes scope env represents).bind fun set sequences reads => ?_
      have decoded : List.Forall₂
          (fun index sequence => index < univ.size ^ declared.arity ∧
            Index.decode univ.size declared.arity index = sequence)
          set.toList (sequences.sort (· ≤ ·)) := by
        rcases reads with ⟨rfl, arity_eq, inRange, rfl⟩
        rw [inRange.sort_sequences, List.forall₂_map_right_iff, List.forall₂_same]
        intro index member
        dsimp only at arity_eq
        rw [← arity_eq]
        exact ⟨inRange index (TupleSet.mem_toList.mp member), rfl⟩
      refine (Evaluate.Implements.mapM decoded fun index sequence related => ?_).bind
        fun _ _ all => .pure (List.rel_flatten all)
      rcases related with ⟨inRange, rfl⟩
      have within := Index.within_decode inRange
      rcases @TupleSet.ofIndices?_reads univ declared.arity
        [Index.decode univ.size declared.arity index] [index] positive small
        (List.forall_mem_singleton.mpr within.1) (by rw [List.map_singleton, within.2]) with
        ⟨singleton, made, singletonReads⟩
      have arity : set.arity = declared.arity := reads.arity_eq
      rw [reads.univ_eq, arity]
      exact .checked made (.binding (hypothesis _ _ (represents.extend singletonReads)))

end ModelFinder
