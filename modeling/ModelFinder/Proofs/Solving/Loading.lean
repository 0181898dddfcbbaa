import Mathlib
import ModelFinder.Proofs.Solving.Backend
/-!
Loading. Whatever a backend does, loading it either succeeds, and then every clause that is not
empty was taken, or fails in one of three ways. Nothing is assumed of the backend here.
-/

namespace ModelFinder

variable {σ α β : Type}

theorem Solving.run_bind_error {action : Solving σ α} {state after : σ} {error : Error}
    (ran : action.run.run state = (.error error, after)) (next : α → Solving σ β) :
    (action >>= next).run.run state = (.error error, after) := by
  rw [run_bind, ran]

namespace Backend

/-- Offered some clauses, a backend accepts all of them that are not empty, in order. -/
inductive Takes (backend : Backend σ) : List Clause → σ → σ → Prop
  | nil {state : σ} : backend.Takes [] state state
  | cons {clause : Clause} {rest : List Clause} {accepted : Bool} {state middle after : σ} :
      (backend.addClause clause).run state = (accepted, middle) →
      (accepted = true ∨ clause = []) → backend.Takes rest middle after →
      backend.Takes (clause :: rest) state after

/-- Offered some clauses, a backend comes to one that is not empty and refuses it. -/
inductive Refuses (backend : Backend σ) (clause : Clause) : List Clause → σ → σ → Prop
  | first {rest : List Clause} {state after : σ} :
      (backend.addClause clause).run state = (false, after) → clause ≠ [] →
      backend.Refuses clause (clause :: rest) state after
  | later {earlier : Clause} {rest : List Clause} {accepted : Bool} {state middle after : σ} :
      (backend.addClause earlier).run state = (accepted, middle) →
      (accepted = true ∨ earlier = []) → backend.Refuses clause rest middle after →
      backend.Refuses clause (earlier :: rest) state after

inductive Loads (backend : Backend σ) (cnf : Cnf) (further : List Clause) (state loaded : σ) : Prop
  | intro {created announced : σ} :
      backend.create.run.run state = (.ok (), created) →
      (backend.addVariables cnf.variableCount).run.run created = (.ok (), announced) →
      backend.Takes (cnf.clauses.toList ++ further) announced loaded →
      backend.Loads cnf further state loaded

inductive FailsToLoad (backend : Backend σ) (cnf : Cnf) (further : List Clause) (state : σ) :
    Error → σ → Prop
  | creating {error : Error} {after : σ} :
      backend.create.run.run state = (.error error, after) →
      backend.FailsToLoad cnf further state error after
  | announcing {created : σ} {error : Error} {after : σ} :
      backend.create.run.run state = (.ok (), created) →
      (backend.addVariables cnf.variableCount).run.run created = (.error error, after) →
      backend.FailsToLoad cnf further state error after
  | refusing {created announced : σ} {clause : Clause} {after : σ} :
      backend.create.run.run state = (.ok (), created) →
      (backend.addVariables cnf.variableCount).run.run created = (.ok (), announced) →
      backend.Refuses clause (cnf.clauses.toList ++ further) announced after →
      backend.FailsToLoad cnf further state (.aborted (.refusedClause backend.name clause)) after

variable {backend : Backend σ}

theorem Refuses.mem {clause : Clause} {offered : List Clause} {state after : σ}
    (refuses : backend.Refuses clause offered state after) : clause ∈ offered ∧ clause ≠ [] := by
  induction refuses with
  | first _ some => exact ⟨List.mem_cons_self, some⟩
  | later _ _ _ hypothesis => exact ⟨List.mem_cons_of_mem _ hypothesis.1, hypothesis.2⟩

theorem Refuses.of_takes {clause : Clause} {taken rest : List Clause} {state middle after : σ}
    (takes : backend.Takes taken state middle)
    (refuses : backend.Refuses clause rest middle after) :
    backend.Refuses clause (taken ++ rest) state after := by
  induction takes with
  | nil => exact refuses
  | cons added goesOn _ hypothesis => exact .later added goesOn (hypothesis refuses)

theorem offer_cons {clause : Clause} {rest : List Clause} {accepted : Bool} {state middle : σ}
    (added : (backend.addClause clause).run state = (accepted, middle))
    (goesOn : accepted = true ∨ clause = []) :
    (backend.offer (clause :: rest)).run.run state = (backend.offer rest).run.run middle := by
  have skipped : (!accepted && !clause.isEmpty) = false := by
    rcases goesOn with rfl | rfl
    · rfl
    · exact Bool.and_false _
  rw [offer, Solving.run_bind_ok (Solving.run_lift added), skipped]
  rfl

theorem offer_of_takes {offered : List Clause} {state after : σ}
    (takes : backend.Takes offered state after) :
    (backend.offer offered).run.run state = (.ok (), after) := by
  induction takes with
  | nil => rfl
  | cons added goesOn _ hypothesis => rw [offer_cons added goesOn, hypothesis]

theorem offer_of_refuses {clause : Clause} {offered : List Clause} {state after : σ}
    (refuses : backend.Refuses clause offered state after) :
    (backend.offer offered).run.run state =
      (.error (.aborted (.refusedClause backend.name clause)), after) := by
  induction refuses with
  | first refused some =>
      have isEmpty : clause.isEmpty = false := by simpa using some
      rw [offer, Solving.run_bind_ok (Solving.run_lift refused), isEmpty]
      rfl
  | later added goesOn _ hypothesis => rw [offer_cons added goesOn, hypothesis]

theorem takes_or_refuses (offered : List Clause) (state : σ) :
    (∃ after, backend.Takes offered state after) ∨
      ∃ clause after, backend.Refuses clause offered state after := by
  induction offered generalizing state with
  | nil => exact .inl ⟨state, .nil⟩
  | cons clause rest hypothesis =>
      rcases added : (backend.addClause clause).run state with ⟨accepted, middle⟩
      by_cases goesOn : accepted = true ∨ clause = []
      · rcases hypothesis middle with ⟨after, takes⟩ | ⟨refused, after, refuses⟩
        · exact .inl ⟨after, .cons added goesOn takes⟩
        · exact .inr ⟨refused, after, .later added goesOn refuses⟩
      · push Not at goesOn
        have isFalse : accepted = false := Bool.eq_false_iff.mpr goesOn.1
        subst isFalse
        exact .inr ⟨clause, middle, .first added goesOn.2⟩

variable {cnf : Cnf} {further : List Clause} {state : σ}

theorem load_of_loads {loaded : σ} (loads : backend.Loads cnf further state loaded) :
    (backend.load cnf further).run.run state = (.ok (), loaded) := by
  rcases loads with ⟨creates, announces, takes⟩
  rw [load, Solving.run_bind_ok creates, Solving.run_bind_ok announces, offer_of_takes takes]

theorem load_of_fails {error : Error} {after : σ}
    (fails : backend.FailsToLoad cnf further state error after) :
    (backend.load cnf further).run.run state = (.error error, after) := by
  cases fails with
  | creating creates => rw [load, Solving.run_bind_error creates]
  | announcing creates announces =>
      rw [load, Solving.run_bind_ok creates, Solving.run_bind_error announces]
  | refusing creates announces refuses =>
      rw [load, Solving.run_bind_ok creates, Solving.run_bind_ok announces,
        offer_of_refuses refuses]

theorem loads_or_fails (backend : Backend σ) (cnf : Cnf) (further : List Clause) (state : σ) :
    (∃ loaded, backend.Loads cnf further state loaded) ∨
      ∃ error after, backend.FailsToLoad cnf further state error after := by
  rcases creates : backend.create.run.run state with ⟨outcome, created⟩
  cases outcome with
  | error error => exact .inr ⟨error, created, .creating creates⟩
  | ok _ =>
      rcases announces : (backend.addVariables cnf.variableCount).run.run created with
        ⟨outcome, announced⟩
      cases outcome with
      | error error => exact .inr ⟨error, announced, .announcing creates announces⟩
      | ok _ =>
          rcases takes_or_refuses (cnf.clauses.toList ++ further) announced with
            ⟨after, takes⟩ | ⟨clause, after, refuses⟩
          · exact .inl ⟨after, creates, announces, takes⟩
          · exact .inr ⟨_, after, .refusing creates announces refuses⟩

theorem load_eq_ok_iff {loaded : σ} :
    (backend.load cnf further).run.run state = (.ok (), loaded) ↔
      backend.Loads cnf further state loaded := by
  refine ⟨fun ran => ?_, load_of_loads⟩
  rcases loads_or_fails backend cnf further state with ⟨other, loads⟩ | ⟨error, other, fails⟩
  · cases ran.symm.trans (load_of_loads loads)
    exact loads
  · cases ran.symm.trans (load_of_fails fails)

variable {Holds : σ → List Clause → Prop}

/-- A backend that notices contradictions at once is loaded with clauses that can be
satisfied. -/
theorem satisfiable_of_takes (decides : backend.Decides Holds) (prompt : backend.Prompt Holds)
    {offered clauses : List Clause} {state after : σ} (takes : backend.Takes offered state after)
    (nonempty : ∀ clause ∈ offered, clause ≠ []) (holds : Holds state clauses)
    (satisfiable : Clause.Satisfiable clauses) : Clause.Satisfiable (clauses ++ offered) := by
  induction takes generalizing clauses with
  | nil => rwa [List.append_nil]
  | @cons clause rest accepted state middle after added goesOn _ hypothesis =>
      rw [List.forall_mem_cons] at nonempty
      have isTrue : accepted = true := goesOn.resolve_right nonempty.1
      subst isTrue
      have held := hypothesis nonempty.2 (decides.accepted holds added) (prompt holds added)
      rwa [List.append_assoc] at held

theorem satisfiable_of_loads (decides : backend.Decides Holds) (prompt : backend.Prompt Holds)
    (nonempty : ∀ clause ∈ cnf.clauses.toList ++ further, clause ≠ []) {loaded : σ}
    (loads : backend.Loads cnf further state loaded) :
    Clause.Satisfiable (cnf.clauses.toList ++ further) := by
  rcases loads with ⟨creates, announces, takes⟩
  have holds := decides.announced (decides.created creates) announces
  have satisfiable : Clause.Satisfiable ([] ++ (cnf.clauses.toList ++ further)) :=
    satisfiable_of_takes decides prompt takes nonempty holds ⟨fun _ => false, rfl⟩
  exact satisfiable

/-! A backend that refuses a clause only if it contradicts the ones before -/

section

variable (decides : backend.Decides Holds) (detects : backend.Detects Holds)

include decides detects

theorem Refuses.detected {clause : Clause} {offered clauses : List Clause} {state after : σ}
    (refuses : backend.Refuses clause offered state after)
    (nonempty : ∀ clause ∈ offered, clause ≠ []) (holds : Holds state clauses) :
    ¬Clause.Satisfiable (clauses ++ offered) ∧ ¬backend.Accepts Holds := by
  induction refuses generalizing clauses with
  | @first rest state after refused some =>
      constructor
      · rintro ⟨assignment, satisfied⟩
        apply (detects holds some refused).2
        refine ⟨assignment, ?_⟩
        simp only [List.all_append, List.all_cons, Bool.and_eq_true] at satisfied ⊢
        exact ⟨satisfied.1, satisfied.2.1, rfl⟩
      · intro accepts
        rcases accepts holds some with ⟨middle, accepted⟩
        cases accepted.symm.trans refused
  | @later earlier rest accepted state middle after added goesOn _ hypothesis =>
      rw [List.forall_mem_cons] at nonempty
      have isTrue : accepted = true := goesOn.resolve_right nonempty.1
      subst isTrue
      have rejected := hypothesis nonempty.2 (decides.accepted holds added)
      rwa [List.append_assoc] at rejected

/-- Loading makes a backend hold all clauses, unless it refuses one because they are
contradictory. -/
theorem load_detects {cnf : Cnf} (answers : backend.Answers Holds cnf.variableCount)
    {further : List Clause}
    (nonempty : ∀ clause ∈ cnf.clauses.toList ++ further, clause ≠ []) (state : σ) :
    (∃ loaded, (backend.load cnf further).run.run state = (.ok (), loaded) ∧
      Holds loaded (cnf.clauses.toList ++ further)) ∨
    ∃ clause ∈ cnf.clauses.toList ++ further, ∃ after,
      (backend.load cnf further).run.run state =
        (.error (.aborted (.refusedClause backend.name clause)), after) ∧
      ¬Clause.Satisfiable (cnf.clauses.toList ++ further) ∧ ¬backend.Accepts Holds := by
  rcases answers.started state with ⟨started, starts⟩
  rcases Solving.of_run_bind starts with ⟨_, created, creates, announces⟩
  have holds := decides.announced (decides.created creates) announces
  rcases takes_or_refuses (cnf.clauses.toList ++ further) started with
    ⟨loaded, takes⟩ | ⟨clause, after, refuses⟩
  · have loads := load_of_loads ⟨creates, announces, takes⟩
    exact .inl ⟨loaded, loads, load_holds decides nonempty loads⟩
  · have fails := load_of_fails (.refusing creates announces refuses)
    exact .inr ⟨clause, refuses.mem.1, after, fails,
      refuses.detected decides detects nonempty holds⟩

end

end Backend

end ModelFinder
