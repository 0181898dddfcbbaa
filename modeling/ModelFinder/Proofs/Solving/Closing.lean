import Mathlib
import ModelFinder.Proofs.Solving.Backend
/-!
Closing backends. A backend may be closed: then it takes no clause once it has
answered, until it is started afresh. It still decides the clauses that it took.
-/

namespace ModelFinder

variable {σ : Type}

namespace Backend

/-- After a positive answer a backend takes any further clause that is not empty. -/
def Extends (backend : Backend σ) (Holds : σ → List Clause → Prop) : Prop :=
  ∀ {clause state asked clauses}, Holds state clauses →
    backend.solve.run.run state = (.ok true, asked) → clause ≠ [] →
    ∃ after, (backend.addClause clause).run asked = (true, after)

def DropsRefused (backend : Backend σ) (Holds : σ → List Clause → Prop) : Prop :=
  ∀ clause state after clauses, Holds state clauses →
    (backend.addClause clause).run state = (false, after) → Holds after clauses

variable {backend : Backend σ}

/-! A backend that takes no clause once it has answered, until it is started afresh -/

def marked {α : Type} (mark : Bool → Bool) (action : Solving σ α) : Solving (σ × Bool) α :=
  ExceptT.mk fun state =>
    ((action.run.run state.1).1, (action.run.run state.1).2, mark state.2)

/-- A backend that marks when it has answered, and then refuses all clauses. -/
def closing (backend : Backend σ) : Backend (σ × Bool) where
  name := backend.name
  incremental := backend.incremental
  create := marked (fun _ => false) backend.create
  addVariables count := marked id (backend.addVariables count)
  addClause clause := fun state =>
    if state.2 then (false, state)
    else
      (((backend.addClause clause).run state.1).1,
        ((backend.addClause clause).run state.1).2, false)
  solve := marked (fun _ => true) backend.solve
  value state := backend.value state.1
  variableCount state := backend.variableCount state.1
  clauseCount state := backend.clauseCount state.1

variable {Holds : σ → List Clause → Prop}

theorem run_marked {α : Type} (mark : Bool → Bool) {action : Solving σ α} {state : σ × Bool}
    {after : σ} {outcome : Except Error α} (ran : action.run.run state.1 = (outcome, after)) :
    (marked mark action).run.run state = (outcome, after, mark state.2) := by
  change ((action.run.run state.1).1, (action.run.run state.1).2, mark state.2) = _
  rw [ran]

theorem of_marked {α : Type} (mark : Bool → Bool) {action : Solving σ α} {state after : σ × Bool}
    {outcome : Except Error α} (ran : (marked mark action).run.run state = (outcome, after)) :
    action.run.run state.1 = (outcome, after.1) := by
  rcases Prod.mk.inj ran with ⟨same, rfl⟩
  exact Prod.ext same rfl

theorem addClause_closing (clause : Clause) (state : σ × Bool) :
    (backend.closing.addClause clause).run state =
      if state.2 then (false, state)
      else (((backend.addClause clause).run state.1).1,
        ((backend.addClause clause).run state.1).2, false) := rfl

theorem Decides.closing (decides : backend.Decides Holds) :
    backend.closing.Decides fun state => Holds state.1 where
  created ran := decides.created (of_marked (fun _ => false) ran)
  announced holds ran := decides.announced holds (of_marked id ran)
  accepted := by
    intro clause state after clauses holds ran
    rw [addClause_closing] at ran
    split at ran
    · cases ran
    · rcases Prod.mk.inj ran with ⟨accepted, rfl⟩
      exact decides.accepted holds (Prod.ext accepted rfl)
  answered holds ran := decides.answered holds (of_marked (fun _ => true) ran)
  satisfied holds ran := decides.satisfied holds (of_marked (fun _ => true) ran)

theorem DropsRefused.closing (drops : backend.DropsRefused Holds) :
    backend.closing.DropsRefused fun state => Holds state.1 := by
  intro clause state after clauses holds ran
  rw [addClause_closing] at ran
  split at ran
  · cases ran
    exact holds
  · rcases Prod.mk.inj ran with ⟨refused, rfl⟩
    exact drops _ _ _ _ holds (Prod.ext refused rfl)

theorem offer_closing {offered : List Clause} {state after : σ}
    (ran : (backend.offer offered).run.run state = (.ok (), after)) :
    (backend.closing.offer offered).run.run (state, false) = (.ok (), after, false) := by
  induction offered generalizing state with
  | nil =>
      cases ran
      rfl
  | cons clause rest hypothesis =>
      rcases Solving.of_run_bind ran with ⟨accepted, middle, added, ran⟩
      have closingAdded : (backend.closing.addClause clause).run (state, false) =
          (accepted, middle, false) := by
        rw [addClause_closing, Solving.of_run_lift added]
        rfl
      rw [offer, Solving.run_bind_ok (Solving.run_lift closingAdded)]
      split at ran
      · cases ran
      · rename_i goesOn
        rw [if_neg goesOn]
        exact hypothesis ran

theorem load_closing {cnf : Cnf} {further : List Clause} {state : σ × Bool} {after : σ}
    (ran : (backend.load cnf further).run.run state.1 = (.ok (), after)) :
    (backend.closing.load cnf further).run.run state = (.ok (), after, false) := by
  rcases Solving.of_run_bind ran with ⟨_, created, creates, ran⟩
  rcases Solving.of_run_bind ran with ⟨_, announced, announces, offers⟩
  have closingCreates : backend.closing.create.run.run state = (.ok (), created, false) :=
    run_marked (fun _ => false) creates
  have closingAnnounces : (backend.closing.addVariables cnf.variableCount).run.run
      (created, false) = (.ok (), announced, false) := run_marked id announces
  rw [load, Solving.run_bind_ok closingCreates, Solving.run_bind_ok closingAnnounces]
  exact offer_closing offers

theorem exhaustive_dropsRefused (incremental : Bool) :
    (exhaustive incremental).DropsRefused Listed := by
  intro clause state after clauses _ ran
  cases ran

theorem exhaustive_again {incremental : Bool} {state asked : List Clause × Nat}
    (solved : (exhaustive incremental).solve.run.run state = (.ok true, asked)) :
    (exhaustive incremental).solve.run.run asked = (.ok true, asked) := by
  rw [exhaustive_solve] at solved ⊢
  cases found : exhaust state.1 with
  | none =>
      rw [found] at solved
      cases solved
  | some code =>
      rw [found] at solved
      cases solved
      rw [found]

end Backend

end ModelFinder
