import Mathlib
import ModelFinder.Proofs.Solving.Failure
import ModelFinder.Proofs.Solving.Folding
/-!
Early contradictions. A backend may notice that the clauses are contradictory as soon as it is
offered the last of them, and refuse it. One that is kept does so without consequence. One that
is loaded is taken to have failed, although the same clauses would have had a negative answer.
-/

namespace ModelFinder

variable {σ : Type}

/-- A backend that gives a negative answer did not notice at once that the clauses it was loaded
with are contradictory. -/
theorem Problem.Poses.not_prompt_of_solve {problem : Problem} {made : (Nat → Bool) → Instance}
    {wanted : (Nat → Bool) → Bool} (poses : problem.Poses made wanted) {backend : Backend σ}
    {Holds : σ → List Clause → Prop} (decides : backend.Decides Holds)
    (unfolded : problem.trivial = none) {state : σ} {solution : Solution}
    (ran : ((problem.solve backend).run.run state).1 = .ok solution)
    (isUnsat : solution.outcome = .unsatisfiable) : ¬backend.Prompt Holds := by
  intro prompt
  rcases of_solve_unsat unfolded ran (by rw [isUnsat]; rfl) with ⟨loaded, after, loads, solved⟩
  have nonempty : ∀ clause ∈ problem.cnf.clauses.toList ++ [], clause ≠ [] := by
    rw [List.append_nil]
    exact poses.nonempty
  have satisfiable := Backend.satisfiable_of_loads decides prompt nonempty loads
  have holds := Backend.load_holds decides nonempty (Backend.load_of_loads loads)
  cases (decides.answered holds solved).mpr satisfiable

theorem Problem.Poses.solve_detects {problem : Problem} {made : (Nat → Bool) → Instance}
    {wanted : (Nat → Bool) → Bool} (poses : problem.Poses made wanted) {backend : Backend σ}
    {Holds : σ → List Clause → Prop} (decides : backend.Decides Holds)
    (detects : backend.Detects Holds)
    (answers : backend.Answers Holds problem.cnf.variableCount) (state : σ) :
    (∃ solution, ((problem.solve backend).run.run state).1 = .ok solution ∧
      Answered made wanted solution ∧
      (solution.outcome = .unsatisfiable → ¬backend.Prompt Holds)) ∨
    ∃ error, ((problem.solve backend).run.run state).1 = .error error ∧
      problem.Contradicts wanted backend Holds [] error := by
  cases folded : problem.trivial with
  | some answer =>
      rcases poses.solve_folded folded with ⟨solution, outcome, solved⟩
      have ran := solved backend state
      refine .inl ⟨solution, by rw [ran], poses.answered_of_solve decides ran, fun isUnsat => ?_⟩
      rw [isUnsat] at outcome
      cases answer <;> cases outcome
  | none =>
      have start := Found.start problem wanted backend Holds state
      have first := @solve_eq_ask _ problem backend state folded
      rw [← Enumeration.step_eq_ask_of_unfolded folded] at first
      rcases poses.advances_step decides detects answers start with
        ⟨solution, after, middle, ran, advanced⟩ | ⟨error, middle, ran, contradicts⟩
      · rw [ran] at first
        refine .inl ⟨solution, first, ?_, fun isUnsat =>
          poses.not_prompt_of_solve decides folded first isUnsat⟩
        rcases advanced with
          ⟨isSat, assignment, isModel, found⟩ | ⟨isUnsat, missing, exhausted, -⟩
        · exact .inl ⟨isSat, assignment, found.wanted assignment (List.mem_singleton_self _),
            isModel⟩
        · refine .inr ⟨isUnsat, missing, fun assignment => Bool.eq_false_iff.mpr fun isWanted => ?_⟩
          rcases exhausted assignment isWanted with ⟨_, impossible, -⟩
          cases impossible
      · rw [ran] at first
        exact .inr ⟨error, first, contradicts⟩

section

variable {formula : Formula} {bounds : Bounds} {bitwidth : Nat} (made : bounds.Made)
  (inRange : bounds.InRange) (labels : (bounds.openCount : Int) ≤ Circuit.maxLabel)
  (countable : bounds.Countable)
  {compiled : Compiled Bit} (ran : formula.compiled? bounds bitwidth = .ok compiled)
  {backend : Backend σ} {Holds : σ → List Clause → Prop} (decides : backend.Decides Holds)
  (detects : backend.Detects Holds) (answers : ∀ count, backend.Answers Holds count)

include made inRange labels countable ran decides detects answers

/-- What becomes of contradictions that a backend notices early. Solving gives the right verdict,
or an error that names a refused clause, and then the formula has no instance. Enumeration meets
all instances of the formula once, kept or not, and then it gives a negative answer, or an error
that names a refused clause. A backend that is kept gives such an error only if there are no
instances; one that is rebuilt and notices contradictions at once always does. -/
theorem Formula.contradiction_reported (state : σ) :
    ((∃ solution, ((formula.solve bounds bitwidth backend).run.run state).1 = .ok solution ∧
        Problem.Answered compiled.leaves.decoded compiled.value.eval solution ∧
        (solution.outcome = .unsatisfiable → ¬backend.Prompt Holds)) ∨
      (∃ clause, ((formula.solve bounds bitwidth backend).run.run state).1 =
        .error (.aborted (.refusedClause backend.name clause))) ∧
      (∀ holds, compiled.value.eval holds = false) ∧ ¬backend.Accepts Holds) ∧
    ∃ enumeration, formula.enumerate? bounds bitwidth = .ok enumeration ∧
    ∃ (solutions : List Solution) (models : List Instance) (last : Except Error Solution),
      enumeration.Gives backend state (solutions.map .ok ++ [last]) ∧
      (∀ solution ∈ solutions, solution.outcome.isSat = true) ∧
      solutions.map Solution.model = models.map some ∧ models.Nodup ∧
      (∀ model, model ∈ models ↔ ∃ holds, compiled.value.eval holds = true ∧
        decodeInstance? bounds compiled.leaves.layout holds = .ok model) ∧
      ((∃ solution, last = .ok solution ∧ solution.outcome.isSat = false ∧
          solution.model = none ∧ (models ≠ [] → 0 < compiled.leaves.primary →
            backend.incremental = false → ¬backend.Prompt Holds)) ∨
        (∃ clause, last = .error (.aborted (.refusedClause backend.name clause))) ∧
        (backend.incremental = true → models = []) ∧ ¬backend.Accepts Holds) := by
  rcases formula.poses made labels inRange countable ran with ⟨-, -, poses⟩
  let problem := Problem.ofCompiled bounds compiled
  have solves : (formula.solve bounds bitwidth backend).run.run state =
      (problem.solve backend).run.run state := by
    rw [Formula.solve, Problem.ofFormula?_eq, ran]
    rfl
  constructor
  · rw [solves]
    rcases poses.solve_detects decides detects (answers _) state with
      answered | ⟨error, failed, ⟨clause, -, rfl⟩, exhausted, -, refuses⟩
    · exact .inl answered
    · refine .inr ⟨⟨clause, failed⟩, fun holds => Bool.eq_false_iff.mpr fun isWanted => ?_, refuses⟩
      rcases exhausted holds isWanted with ⟨_, impossible, -⟩
      cases impossible
  · refine ⟨.ofProblem problem, by rw [enumerate?, Problem.ofFormula?_eq, ran]; rfl, ?_⟩
    have start := Problem.Found.start problem compiled.value.eval backend Holds state
    rcases poses.exists_run decides detects (answers _) start with
      ⟨found, solutions, last, areSat, models, wanted, distinct, exhausted, ends, gives⟩
    rw [List.nil_append] at wanted distinct exhausted ends
    rcases poses.models_exact wanted distinct exhausted with ⟨nodup, complete⟩
    refine ⟨solutions, found.map compiled.leaves.decoded, last, gives, areSat,
      models.trans List.map_map.symm, nodup, complete, ?_⟩
    rcases ends with
      ⟨solution, rfl, isUnsat, missing, -, late⟩ | ⟨_, rfl, ⟨clause, -, rfl⟩, -, kept, refuses⟩
    · refine .inl ⟨solution, rfl, isUnsat, missing, fun some => late ?_⟩
      intro folded
      rcases List.exists_mem_of_ne_nil found fun none => some (by rw [none]; rfl) with
        ⟨assignment, member⟩
      cases (poses.folded folded assignment).symm.trans (wanted assignment member)
    · exact .inr ⟨⟨clause, rfl⟩, fun incremental => List.map_eq_nil_iff.mpr (kept incremental),
        refuses⟩

end

namespace Backend

/-! A reference backend that notices contradictions at once -/

/-- A backend that tries all assignments whenever it is offered a clause, and refuses the clause
if there is none left. -/
def prompt (incremental : Bool) : Backend (List Clause × Nat) :=
  { exhaustive incremental with
    name := "prompt"
    addClause := fun clause state =>
      ((exhaust (state.1 ++ [clause])).isSome, state.1 ++ [clause], state.2) }

variable (incremental : Bool)

theorem prompt_decides : (prompt incremental).Decides Listed where
  created := (exhaustive_decides incremental).created
  announced holds ran := by
    cases ran
    exact holds
  accepted holds ran := by
    cases (Prod.mk.inj ran).2
    exact congrArg (· ++ [_]) holds
  answered := (exhaustive_decides incremental).answered
  satisfied := (exhaustive_decides incremental).satisfied

theorem prompt_detects : (prompt incremental).Detects Listed := by
  rintro clause state after clauses rfl some ran
  rcases Prod.mk.inj ran with ⟨refused, rfl⟩
  constructor
  · rfl
  · rw [← exhaust_isSome_iff, refused]
    exact Bool.false_ne_true

theorem prompt_prompt : (prompt incremental).Prompt Listed := by
  rintro clause state after clauses rfl ran
  rw [← exhaust_isSome_iff]
  exact (Prod.mk.inj ran).1

theorem prompt_answers (count : Nat) : (prompt incremental).Answers Listed count where
  started := (exhaustive_answers incremental count).started
  solved := (exhaustive_answers incremental count).solved

end Backend

theorem contradiction_reported_pet :
    ∃ (compiled : Compiled Bit) (enumeration : Enumeration) (models : List Instance),
    onePet.compiled? petBounds 4 = .ok compiled ∧
    onePet.enumerate? petBounds 4 = .ok enumeration ∧
    (∃ (solutions : List Solution) (last : Except Error Solution),
      enumeration.Gives (Backend.prompt true) ([], 0) (solutions.map .ok ++ [last]) ∧
      solutions.map Solution.model = models.map some ∧
      ∃ solution, last = .ok solution ∧ solution.outcome.isSat = false) ∧
    compiled.leaves.decoded (· == 1) ∈ models := by
  have labels : (petBounds.openCount : Int) ≤ Circuit.maxLabel := by decide +kernel
  have value : (onePet.compiled? petBounds 4).toOption.map (fun compiled =>
      compiled.value.eval (· == 1)) = some true := by decide +kernel
  rcases Except.exists_ok_of_map value with ⟨compiled, compiles, isTrue⟩
  rcases Formula.contradiction_reported petBounds_made petBounds_inRange labels petBounds_countable
    compiles (Backend.prompt_decides true) (Backend.prompt_detects true)
    (Backend.prompt_answers true) ([], 0) with
    ⟨-, enumeration, starts, solutions, models, last, gives, -, found, -, complete, ends⟩
  have poses := (onePet.poses petBounds_made labels petBounds_inRange petBounds_countable
    compiles).2.2
  have cat := (complete _).mpr ⟨_, isTrue, poses.decoded _⟩
  refine ⟨compiled, enumeration, models, compiles, starts, ⟨solutions, last, gives, found, ?_⟩, cat⟩
  rcases ends with ⟨solution, isLast, isUnsat, -⟩ | ⟨-, none, -⟩
  · exact ⟨solution, isLast, isUnsat⟩
  · rw [none rfl] at cat
    cases cat

/-- A backend that is rebuilt and notices contradictions at once ends an enumeration with an
error in place of the negative answer, although it decides all clauses. -/
theorem contradiction_aborts :
    (Backend.prompt false).Decides Backend.Listed ∧ (Backend.prompt false).Detects Backend.Listed ∧
    (∀ count, (Backend.prompt false).Answers Backend.Listed count) ∧
    ∃ (enumeration : Enumeration) (solutions : List Solution) (clause : Clause),
      onePet.enumerate? petBounds 4 = .ok enumeration ∧ solutions ≠ [] ∧
      enumeration.Gives (Backend.prompt false) ([], 0) (solutions.map .ok ++
        [.error (.aborted (.refusedClause "prompt" clause))]) := by
  refine ⟨Backend.prompt_decides false, Backend.prompt_detects false, Backend.prompt_answers false,
    ?_⟩
  have labels : (petBounds.openCount : Int) ≤ Circuit.maxLabel := by decide +kernel
  have facts : (onePet.compiled? petBounds 4).toOption.map (fun compiled =>
      (compiled.leaves.primary, compiled.value.eval (· == 1))) = some (2, true) := by
    decide +kernel
  rcases Except.exists_ok_of_map facts with ⟨compiled, compiles, facts⟩
  rcases Prod.mk.inj facts with ⟨two, isTrue⟩
  have poses := (onePet.poses petBounds_made labels petBounds_inRange petBounds_countable
    compiles).2.2
  let problem := Problem.ofCompiled petBounds compiled
  have start := Problem.Found.start problem compiled.value.eval (Backend.prompt false)
    Backend.Listed ([], 0)
  rcases poses.exists_run (Backend.prompt_decides false) (Backend.prompt_detects false)
    (Backend.prompt_answers false _) start with
    ⟨found, solutions, last, -, models, -, -, exhausted, ends, gives⟩
  rcases exhausted _ isTrue with ⟨assignment, member, -⟩
  have starts : onePet.enumerate? petBounds 4 = .ok (.ofProblem problem) := by
    rw [Formula.enumerate?, Problem.ofFormula?_eq, compiles]
    rfl
  have met : solutions ≠ [] := by
    rintro rfl
    rw [List.nil_append, List.map_eq_nil_iff.mp models.symm] at member
    cases member
  rcases ends with ⟨solution, -, -, -, -, late⟩ | ⟨_, rfl, ⟨clause, -, rfl⟩, -⟩
  · have notFalse : problem.trivial ≠ some false := by
      intro folded
      cases (poses.folded folded _).symm.trans isTrue
    have positive : 0 < problem.primary := by
      change 0 < compiled.leaves.primary
      rw [two]
      decide
    exact (late notFalse positive rfl (Backend.prompt_prompt false)).elim
  · exact ⟨.ofProblem problem, solutions, clause, starts, met, gives⟩

end ModelFinder
