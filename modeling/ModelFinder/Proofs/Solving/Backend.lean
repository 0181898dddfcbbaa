import Mathlib
import ModelFinder.Backend.Basic
import ModelFinder.Proofs.Cnf.Clauses
/-!
What is asked of a backend. A backend is a machine with states of its own, so what its
answers mean is said through a relation between the states and the clauses that they hold.
-/

namespace ModelFinder

def Clause.Satisfiable (clauses : List Clause) : Prop :=
  ∃ assignment, clauses.all (Clause.holds assignment) = true

theorem Cnf.holds_eq_all (assignment : Nat → Bool) (cnf : Cnf) :
    cnf.holds assignment = cnf.clauses.toList.all (Clause.holds assignment) := by
  rw [Cnf.holds, ← Array.all_toList]

theorem Clause.holds_congr {left right : Nat → Bool} {bound : Nat} {clause : Clause}
    (agree : ∀ number ≤ bound, left number = right number)
    (bounded : ∀ literal ∈ clause, literal.natAbs ≤ bound) :
    clause.holds left = clause.holds right := by
  induction clause with
  | nil => rfl
  | cons literal rest hypothesis =>
      rw [List.forall_mem_cons] at bounded
      have first : Literal.holds left literal = Literal.holds right literal := by
        rw [Literal.holds, Literal.holds, agree _ bounded.1]
      have others := hypothesis bounded.2
      rw [Clause.holds] at others ⊢
      rw [List.any_cons, first, others]
      rfl

namespace Solving

variable {σ α β : Type}

theorem run_bind (action : Solving σ α) (next : α → Solving σ β) (state : σ) :
    (action >>= next).run.run state =
      match action.run.run state with
      | (.ok value, after) => (next value).run.run after
      | (.error error, after) => (.error error, after) := by
  change (ExceptT.bindCont next (action.run.run state).1).run (action.run.run state).2 = _
  rcases action.run.run state with ⟨outcome, after⟩
  cases outcome <;> rfl

theorem run_bind_ok {action : Solving σ α} {state after : σ} {value : α}
    (ran : action.run.run state = (.ok value, after)) (next : α → Solving σ β) :
    (action >>= next).run.run state = (next value).run.run after := by
  rw [run_bind, ran]

theorem of_run_bind {action : Solving σ α} {next : α → Solving σ β} {state after : σ} {value : β}
    (ran : (action >>= next).run.run state = (.ok value, after)) :
    ∃ made middle, action.run.run state = (.ok made, middle) ∧
      (next made).run.run middle = (.ok value, after) := by
  rw [run_bind] at ran
  rcases found : action.run.run state with ⟨outcome, middle⟩
  rw [found] at ran
  cases outcome with
  | error error => cases ran
  | ok made => exact ⟨made, middle, rfl, ran⟩

theorem run_lift {action : StateM σ α} {state after : σ} {value : α}
    (ran : action.run state = (value, after)) :
    (action : Solving σ α).run.run state = (.ok value, after) := by
  change ((.ok (action.run state).1 : Except Error α), (action.run state).2) = _
  rw [ran]

theorem of_run_lift {action : StateM σ α} {state after : σ} {value : α}
    (ran : (action : Solving σ α).run.run state = (.ok value, after)) :
    action.run state = (value, after) := by
  injection ran with same sameState
  exact Prod.ext (Except.ok.inj same) sameState

end Solving

namespace Backend

variable {σ : Type}

/-- A backend decides the clauses that its states hold: it starts without any, keeps the ones
that it accepts, answers positively exactly if they are satisfiable, and tells the values of
an assignment that satisfies them. -/
structure Decides (backend : Backend σ) (Holds : σ → List Clause → Prop) : Prop where
  created : ∀ {state after}, backend.create.run.run state = (.ok (), after) → Holds after []
  announced : ∀ {count state after clauses}, Holds state clauses →
    (backend.addVariables count).run.run state = (.ok (), after) → Holds after clauses
  accepted : ∀ {clause state after clauses}, Holds state clauses →
    (backend.addClause clause).run state = (true, after) → Holds after (clauses ++ [clause])
  answered : ∀ {state after answer clauses}, Holds state clauses →
    backend.solve.run.run state = (answer, after) →
      (answer = .ok true ↔ Clause.Satisfiable clauses)
  satisfied : ∀ {state after clauses}, Holds state clauses →
    backend.solve.run.run state = (.ok true, after) →
      Holds after clauses ∧ clauses.all (Clause.holds (backend.value after)) = true

def Accepts (backend : Backend σ) (Holds : σ → List Clause → Prop) : Prop :=
  ∀ {clause state clauses}, Holds state clauses → clause ≠ [] →
    ∃ after, (backend.addClause clause).run state = (true, after)

/-- A backend refuses a nonempty clause only if it contradicts the clauses that the backend holds,
and then the backend holds a contradiction. -/
def Detects (backend : Backend σ) (Holds : σ → List Clause → Prop) : Prop :=
  ∀ {clause state after clauses}, Holds state clauses → clause ≠ [] →
    (backend.addClause clause).run state = (false, after) →
    Holds after (clauses ++ [clause]) ∧ ¬Clause.Satisfiable (clauses ++ [clause])

/-- A backend notices contradictions at once: it takes a clause only if the clauses can still be
satisfied. -/
def Prompt (backend : Backend σ) (Holds : σ → List Clause → Prop) : Prop :=
  ∀ {clause state after clauses}, Holds state clauses →
    (backend.addClause clause).run state = (true, after) →
    Clause.Satisfiable (clauses ++ [clause])

/-- A backend can be started with some number of variables, and never fails to answer. -/
structure Answers (backend : Backend σ) (Holds : σ → List Clause → Prop) (count : Nat) :
    Prop where
  started : ∀ state, ∃ after,
    (do backend.create; backend.addVariables count : Solving σ Unit).run.run state =
      (.ok (), after)
  solved : ∀ {state clauses}, Holds state clauses →
    ∃ answer after, backend.solve.run.run state = (.ok answer, after)

variable {backend : Backend σ} {Holds : σ → List Clause → Prop}

theorem Accepts.detects (accepts : backend.Accepts Holds) : backend.Detects Holds := by
  intro clause state after clauses holds some refused
  rcases accepts holds some with ⟨middle, accepted⟩
  cases accepted.symm.trans refused

theorem offer_run (decides : backend.Decides Holds) (accepts : backend.Accepts Holds)
    {offered : List Clause} (nonempty : ∀ clause ∈ offered, clause ≠ [])
    {state : σ} {clauses : List Clause} (holds : Holds state clauses) :
    ∃ after, (backend.offer offered).run.run state = (.ok (), after) ∧
      Holds after (clauses ++ offered) := by
  induction offered generalizing state clauses with
  | nil => exact ⟨state, rfl, by rwa [List.append_nil]⟩
  | cons clause rest hypothesis =>
      rw [List.forall_mem_cons] at nonempty
      rcases accepts holds nonempty.1 with ⟨middle, added⟩
      rcases hypothesis nonempty.2 (decides.accepted holds added) with ⟨after, ran, held⟩
      refine ⟨after, ?_, by rwa [List.append_assoc] at held⟩
      rw [offer, Solving.run_bind_ok (Solving.run_lift added)]
      exact ran

theorem offer_holds (decides : backend.Decides Holds) {offered : List Clause}
    (nonempty : ∀ clause ∈ offered, clause ≠ []) {state after : σ} {clauses : List Clause}
    (holds : Holds state clauses) (ran : (backend.offer offered).run.run state = (.ok (), after)) :
    Holds after (clauses ++ offered) := by
  induction offered generalizing state clauses with
  | nil =>
      cases ran
      rwa [List.append_nil]
  | cons clause rest hypothesis =>
      rw [List.forall_mem_cons] at nonempty
      rcases Solving.of_run_bind ran with ⟨accepted, middle, added, ran⟩
      cases accepted with
      | false =>
          have some : clause.isEmpty = false := by simpa using nonempty.1
          rw [some] at ran
          cases ran
      | true =>
          have accepted := decides.accepted holds (Solving.of_run_lift added)
          have held := hypothesis nonempty.2 accepted ran
          rwa [List.append_assoc] at held

theorem load_holds (decides : backend.Decides Holds) {cnf : Cnf} {further : List Clause}
    (nonempty : ∀ clause ∈ cnf.clauses.toList ++ further, clause ≠ []) {state after : σ}
    (ran : (backend.load cnf further).run.run state = (.ok (), after)) :
    Holds after (cnf.clauses.toList ++ further) := by
  rcases Solving.of_run_bind ran with ⟨_, created, createdRun, rest⟩
  rcases Solving.of_run_bind rest with ⟨_, announced, announcedRun, offered⟩
  exact offer_holds decides nonempty
    (decides.announced (decides.created createdRun) announcedRun) offered

theorem load_run (decides : backend.Decides Holds) (accepts : backend.Accepts Holds)
    {cnf : Cnf} (answers : backend.Answers Holds cnf.variableCount) {further : List Clause}
    (nonempty : ∀ clause ∈ cnf.clauses.toList ++ further, clause ≠ []) (state : σ) :
    ∃ after, (backend.load cnf further).run.run state = (.ok (), after) ∧
      Holds after (cnf.clauses.toList ++ further) := by
  rcases answers.started state with ⟨announced, started⟩
  rcases Solving.of_run_bind started with ⟨_, created, createdRun, announcedRun⟩
  have holds := decides.announced (decides.created createdRun) announcedRun
  rcases offer_run decides accepts nonempty holds with ⟨after, ran, held⟩
  refine ⟨after, ?_, held⟩
  rw [load, Solving.run_bind_ok createdRun, Solving.run_bind_ok announcedRun]
  exact ran

/-! A reference backend, which tries all assignments -/

def largestVariable (clauses : List Clause) : Nat := (Cnf.empty.addAll clauses).variableCount

def exhaust (clauses : List Clause) : Option Nat :=
  (List.range (2 ^ (largestVariable clauses + 1))).find? fun code =>
    clauses.all (Clause.holds code.testBit)

theorem exhaust_isSome_iff (clauses : List Clause) :
    (exhaust clauses).isSome = true ↔ Clause.Satisfiable clauses := by
  rw [exhaust, List.find?_isSome]
  constructor
  · rintro ⟨code, -, holds⟩
    exact ⟨code.testBit, holds⟩
  · rintro ⟨assignment, holds⟩
    have bounded := (@Cnf.variableCount_addAll_le Cnf.empty clauses _).mp le_rfl
    refine ⟨Nat.ofBits fun index : Fin (largestVariable clauses + 1) => assignment index,
      List.mem_range.mpr (Nat.ofBits_lt_two_pow _), ?_⟩
    rw [List.all_eq_true] at holds ⊢
    intro clause member
    rw [← holds clause member]
    refine Clause.holds_congr (fun number le => ?_) (bounded.2 clause member)
    exact Nat.testBit_ofBits_lt _ _ (Nat.lt_succ_of_le le)

/-- A backend whose states are the clauses offered so far and the code of an assignment. -/
def exhaustive (incremental : Bool) : Backend (List Clause × Nat) where
  name := "exhaustive"
  incremental := incremental
  create := set (([], 0) : List Clause × Nat)
  addVariables _ := return
  addClause clause := fun state => (true, state.1 ++ [clause], state.2)
  solve := ExceptT.mk fun state =>
    match exhaust state.1 with
    | some code => (.ok true, state.1, code)
    | none => (.ok false, state)
  value state := state.2.testBit
  variableCount _ := 0
  clauseCount state := state.1.length

def Listed (state : List Clause × Nat) (clauses : List Clause) : Prop := state.1 = clauses

variable (incremental : Bool)

theorem exhaustive_solve (state : List Clause × Nat) :
    (exhaustive incremental).solve.run.run state =
      match exhaust state.1 with
      | some code => (.ok true, state.1, code)
      | none => (.ok false, state) := rfl

theorem exhaustive_decides : (exhaustive incremental).Decides Listed where
  created ran := by cases ran; rfl
  announced holds ran := by cases ran; exact holds
  accepted holds ran := by cases ran; exact congrArg (· ++ [_]) holds
  answered := by
    rintro state after answer clauses rfl ran
    rw [exhaustive_solve] at ran
    rw [← exhaust_isSome_iff]
    cases found : exhaust state.1 with
    | some code =>
        rw [found] at ran
        cases ran
        simp
    | none =>
        rw [found] at ran
        cases ran
        simp
  satisfied := by
    rintro state after clauses rfl ran
    rw [exhaustive_solve] at ran
    cases found : exhaust state.1 with
    | some code =>
        rw [found] at ran
        cases ran
        have satisfies := List.find?_some found
        exact ⟨rfl, satisfies⟩
    | none =>
        rw [found] at ran
        cases ran

theorem exhaustive_accepts : (exhaustive incremental).Accepts Listed :=
  fun _ _ => ⟨_, rfl⟩

theorem exhaustive_answers (count : Nat) : (exhaustive incremental).Answers Listed count where
  started _ := ⟨_, rfl⟩
  solved := by
    intro state clauses _
    rw [exhaustive_solve]
    cases exhaust state.1 with
    | some code => exact ⟨_, _, rfl⟩
    | none => exact ⟨_, _, rfl⟩

end Backend

end ModelFinder
