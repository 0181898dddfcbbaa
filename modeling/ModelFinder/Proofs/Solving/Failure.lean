import Mathlib
import ModelFinder.Backend.Scripted
import ModelFinder.Proofs.Solving.Enumeration
import ModelFinder.Proofs.Solving.Loading
/-!
Failures. Nothing is assumed of a backend here. Whatever it does, a failure of its is reported
as an error, and never as a verdict: there is a negative answer only if the backend took all
clauses and then gave one itself. An enumeration reports at most one failure, and nothing
after it.
-/

namespace ModelFinder

variable {σ : Type}

namespace Enumeration

/-- A backend comes to be asked for the next answer: it was kept, or it is loaded with all
clauses. -/
inductive Readies (enumeration : Enumeration) (backend : Backend σ) (state : σ) : σ → Prop
  | kept : (enumeration.loaded && backend.incremental) = true →
      enumeration.Readies backend state state
  | loaded {ready : σ} : (enumeration.loaded && backend.incremental) = false →
      backend.Loads enumeration.problem.cnf enumeration.blocking state ready →
      enumeration.Readies backend state ready

/-- How the next answer can fail: the backend is not loaded, does not answer, or its values
cannot be decoded. -/
inductive Fails (enumeration : Enumeration) (backend : Backend σ) (state : σ) :
    Error → σ → Prop
  | loading {error : Error} {after : σ} : (enumeration.loaded && backend.incremental) = false →
      backend.FailsToLoad enumeration.problem.cnf enumeration.blocking state error after →
      enumeration.Fails backend state error after
  | solving {ready : σ} {error : Error} {after : σ} : enumeration.Readies backend state ready →
      backend.solve.run.run ready = (.error error, after) →
      enumeration.Fails backend state error after
  | decoding {ready : σ} {error : Error} {after : σ} : enumeration.Readies backend state ready →
      backend.solve.run.run ready = (.ok true, after) →
      enumeration.problem.decode? (backend.value after) = .error error →
      enumeration.Fails backend state error after

def Final : Except Error Solution → Prop
  | .ok solution => solution.outcome.isSat = false ∧ solution.model = none
  | .error _ => True

variable {enumeration : Enumeration} {backend : Backend σ} {state : σ}

theorem readies_or_fails (enumeration : Enumeration) (backend : Backend σ) (state : σ) :
    (∃ ready, enumeration.Readies backend state ready) ∨
      ∃ error after, enumeration.Fails backend state error after := by
  cases kept : enumeration.loaded && backend.incremental with
  | true => exact .inl ⟨state, .kept kept⟩
  | false =>
      rcases Backend.loads_or_fails backend enumeration.problem.cnf enumeration.blocking state with
        ⟨ready, loads⟩ | ⟨error, after, fails⟩
      · exact .inl ⟨ready, .loaded kept loads⟩
      · exact .inr ⟨error, after, .loading kept fails⟩

theorem ask_of_readies {ready : σ} (readies : enumeration.Readies backend state ready) :
    (enumeration.ask backend).run.run state = (enumeration.answer backend).run.run ready := by
  rw [ask_eq]
  cases readies with
  | kept kept => rw [if_pos kept]
  | loaded fresh loads =>
      rw [fresh, if_neg Bool.false_ne_true, Solving.run_bind_ok (Backend.load_of_loads loads)]

theorem answer_of_unsat {after : σ} (solved : backend.solve.run.run state = (.ok false, after)) :
    (enumeration.answer backend).run.run state =
      (.ok (enumeration.problem.unsatisfiable, enumeration), after) := by
  rw [answer, Solving.run_bind_ok solved]
  rfl

theorem answer_of_error {error : Error} {after : σ}
    (solved : backend.solve.run.run state = (.error error, after)) :
    (enumeration.answer backend).run.run state = (.error error, after) := by
  rw [answer, Solving.run_bind_error solved]

theorem answer_of_undecoded {error : Error} {after : σ}
    (solved : backend.solve.run.run state = (.ok true, after))
    (undecoded : enumeration.problem.decode? (backend.value after) = .error error) :
    (enumeration.answer backend).run.run state = (.error error, after) := by
  have read : (get : Solving σ σ).run.run after = (.ok after, after) := rfl
  have decodes : ((enumeration.problem.satisfiable? (backend.value after) :
      Except Error Solution) : Solving σ Solution).run.run after = (.error error, after) := by
    change (enumeration.problem.satisfiable? (backend.value after), after) = _
    rw [Problem.satisfiable?, undecoded]
    rfl
  rw [answer, Solving.run_bind_ok solved, if_pos rfl, Solving.run_bind_ok read,
    Solving.run_bind_error decodes]

theorem ask_of_fails {error : Error} {after : σ}
    (fails : enumeration.Fails backend state error after) :
    (enumeration.ask backend).run.run state = (.error error, after) := by
  cases fails with
  | loading fresh fails =>
      rw [ask_eq, fresh, if_neg Bool.false_ne_true,
        Solving.run_bind_error (Backend.load_of_fails fails)]
  | solving readies solved => rw [ask_of_readies readies, answer_of_error solved]
  | decoding readies solved undecoded =>
      rw [ask_of_readies readies, answer_of_undecoded solved undecoded]

theorem fails_or_answers (enumeration : Enumeration) (backend : Backend σ) (state : σ) :
    (∃ error after, enumeration.Fails backend state error after) ∨
    (∃ ready after, enumeration.Readies backend state ready ∧
      backend.solve.run.run ready = (.ok false, after) ∧
      (enumeration.ask backend).run.run state =
        (.ok (enumeration.problem.unsatisfiable, enumeration), after)) ∨
    ∃ ready asked model, enumeration.Readies backend state ready ∧
      backend.solve.run.run ready = (.ok true, asked) ∧
      enumeration.problem.decode? (backend.value asked) = .ok model ∧
      (enumeration.ask backend).run.run state =
        (.ok (⟨.satisfiable, some model, enumeration.problem.statistics⟩,
          enumeration.ruleOut backend (backend.value asked)),
          offered enumeration.problem backend asked) := by
  rcases enumeration.readies_or_fails backend state with ⟨ready, readies⟩ | fails
  · rcases solved : backend.solve.run.run ready with ⟨answer, asked⟩
    cases answer with
    | error error => exact .inl ⟨error, asked, .solving readies solved⟩
    | ok isSat =>
        cases isSat with
        | false =>
            refine .inr (.inl ⟨ready, asked, readies, solved, ?_⟩)
            rw [ask_of_readies readies, answer_of_unsat solved]
        | true =>
            cases decodes : enumeration.problem.decode? (backend.value asked) with
            | error error => exact .inl ⟨error, asked, .decoding readies solved decodes⟩
            | ok model =>
                refine .inr (.inr ⟨ready, asked, model, readies, solved, decodes, ?_⟩)
                rw [ask_of_readies readies]
                apply answer_of_sat solved
                rw [Problem.satisfiable?, decodes]
                rfl
  · exact .inl fails

theorem step_eq_ask_of_unfolded (unfolded : enumeration.problem.trivial = none) :
    enumeration.step backend = enumeration.ask backend := by
  unfold step
  simp only [unfolded]

section

variable (unfolded : enumeration.problem.trivial = none) (waiting : enumeration.done = false)

include unfolded waiting

theorem next_of_fails {error : Error} {after : σ}
    (fails : enumeration.Fails backend state error after) :
    (enumeration.next backend).run state =
      ((some (.error error), { enumeration with done := true }), after) := by
  apply next_of_failure waiting
  rw [step_eq_ask_of_unfolded unfolded, ask_of_fails fails]

theorem next_final_or_sat (backend : Backend σ) (state : σ) :
    (∃ final after middle, (enumeration.next backend).run state = ((some final, after), middle) ∧
      Final final ∧ after.done = true) ∨
    ∃ solution after middle,
      (enumeration.next backend).run state = ((some (.ok solution), after), middle) ∧
      solution.outcome.isSat = true ∧ after.problem = enumeration.problem ∧
      after.done = false := by
  rcases enumeration.fails_or_answers backend state with
    ⟨error, after, fails⟩ | ⟨_, after, -, -, asked⟩ | ⟨_, asked, model, -, -, -, answered⟩
  · exact .inl ⟨_, _, _, next_of_fails unfolded waiting fails, trivial, rfl⟩
  · rw [← step_eq_ask_of_unfolded unfolded] at asked
    exact .inl ⟨_, _, _, next_of_step waiting asked, ⟨rfl, rfl⟩, rfl⟩
  · rw [← step_eq_ask_of_unfolded unfolded] at answered
    exact .inr ⟨_, _, _, next_of_sat waiting answered rfl waiting, rfl, rfl, waiting⟩

theorem of_next_unsat {solution : Solution} {after : Enumeration} {final : σ}
    (ran : (enumeration.next backend).run state = ((some (.ok solution), after), final))
    (isUnsat : solution.outcome.isSat = false) :
    ∃ ready, enumeration.Readies backend state ready ∧
      backend.solve.run.run ready = (.ok false, final) := by
  rcases enumeration.fails_or_answers backend state with
    ⟨error, _, fails⟩ | ⟨ready, _, readies, solved, asked⟩ | ⟨_, asked, model, -, -, -, answered⟩
  · cases ran.symm.trans (next_of_fails unfolded waiting fails)
  · rw [← step_eq_ask_of_unfolded unfolded] at asked
    cases ran.symm.trans (next_of_step waiting asked)
    exact ⟨ready, readies, solved⟩
  · rw [← step_eq_ask_of_unfolded unfolded] at answered
    cases ran.symm.trans (next_of_sat waiting answered rfl waiting)
    cases isUnsat

/-- However many answers are asked for, they are positive ones and at most one final answer, after
which there is nothing any more. -/
theorem take_reports (limit : Nat) : ∃ (solutions : List Solution)
    (finals : List (Except Error Solution)) (last : Enumeration) (middle : σ),
    (enumeration.take backend limit).run state =
      ((solutions.map .ok ++ finals, last), middle) ∧
    (∀ solution ∈ solutions, solution.outcome.isSat = true) ∧
    ((finals = [] ∧ solutions.length = limit) ∨
      (∃ final, finals = [final] ∧ Final final) ∧
        ∀ later, (last.next backend).run later = ((none, last), later)) := by
  induction limit generalizing enumeration state with
  | zero => exact ⟨[], [], enumeration, state, rfl, List.forall_mem_nil _, .inl ⟨rfl, rfl⟩⟩
  | succ limit hypothesis =>
      rcases next_final_or_sat unfolded waiting backend state with
        ⟨final, after, middle, next, isFinal, done⟩ |
        ⟨solution, after, middle, next, isSat, same, goesOn⟩
      · refine ⟨[], [final], after, middle, ?_, List.forall_mem_nil _,
          .inr ⟨⟨final, rfl, isFinal⟩, fun later => next_of_done done⟩⟩
        rw [take_of_next next (take_of_done done limit)]
        rfl
      · rcases hypothesis (by rw [same, unfolded]) goesOn with
          ⟨solutions, finals, last, final, taken, areSat, ends⟩
        refine ⟨solution :: solutions, finals, last, final, take_of_next next taken,
          List.forall_mem_cons.mpr ⟨isSat, areSat⟩, ?_⟩
        rcases ends with ⟨none, length⟩ | ended
        · exact .inl ⟨none, by rw [List.length_cons, length]⟩
        · exact .inr ended

end

end Enumeration

namespace Problem

variable {problem : Problem} {backend : Backend σ} {state : σ}
  (unfolded : problem.trivial = none)

include unfolded

theorem solve_eq_ask : ((problem.solve backend).run.run state).1 =
    (((Enumeration.ofProblem problem).ask backend).run.run state).1.map Prod.fst := by
  let start := Enumeration.ofProblem problem
  have fresh : ¬(start.loaded && backend.incremental) = true := Bool.false_ne_true
  unfold solve
  simp only [unfolded]
  rw [Enumeration.ask_eq, if_neg fresh]
  rcases loads : (backend.load problem.cnf []).run.run state with ⟨outcome, loaded⟩
  have started : (backend.load start.problem.cnf start.blocking).run.run state =
      (outcome, loaded) := loads
  cases outcome with
  | error error =>
      rw [Solving.run_bind_error loads, Solving.run_bind_error started]
      rfl
  | ok _ =>
      rw [Solving.run_bind_ok loads, Solving.run_bind_ok started]
      rcases solved : backend.solve.run.run loaded with ⟨answer, asked⟩
      cases answer with
      | error error =>
          rw [Solving.run_bind_error solved, Enumeration.answer_of_error solved]
          rfl
      | ok isSat =>
          rw [Solving.run_bind_ok solved]
          cases isSat with
          | false =>
              rw [Enumeration.answer_of_unsat solved]
              rfl
          | true =>
              change problem.satisfiable? (backend.value asked) = _
              rw [satisfiable?]
              cases decodes : problem.decode? (backend.value asked) with
              | error error =>
                  rw [Enumeration.answer_of_undecoded solved decodes]
                  rfl
              | ok model =>
                  have decoded : start.problem.satisfiable? (backend.value asked) =
                      .ok ⟨.satisfiable, some model, problem.statistics⟩ := by
                    change problem.satisfiable? (backend.value asked) = _
                    rw [satisfiable?, decodes]
                    rfl
                  rw [Enumeration.answer_of_sat solved decoded]
                  rfl

theorem solve_of_fails {error : Error} {after : σ}
    (fails : (Enumeration.ofProblem problem).Fails backend state error after) :
    ((problem.solve backend).run.run state).1 = .error error := by
  rw [solve_eq_ask unfolded, Enumeration.ask_of_fails fails]
  rfl

theorem of_solve_unsat {solution : Solution}
    (ran : ((problem.solve backend).run.run state).1 = .ok solution)
    (isUnsat : solution.outcome.isSat = false) :
    ∃ loaded after, backend.Loads problem.cnf [] state loaded ∧
      backend.solve.run.run loaded = (.ok false, after) := by
  rw [solve_eq_ask unfolded] at ran
  rcases (Enumeration.ofProblem problem).fails_or_answers backend state with
    ⟨error, _, fails⟩ | ⟨ready, after, readies, solved, -⟩ | ⟨_, asked, model, -, -, -, answered⟩
  · rw [Enumeration.ask_of_fails fails] at ran
    cases ran
  · cases readies with
    | kept impossible => cases impossible
    | loaded _ loads => exact ⟨ready, after, loads, solved⟩
  · rw [answered] at ran
    cases ran
    cases isUnsat

end Problem

section

variable {formula : Formula} {bounds : Bounds} {bitwidth : Nat} {compiled : Compiled Bit}
  (ran : formula.compiled? bounds bitwidth = .ok compiled)
  (unfolded : compiled.value.const? = none)

include ran unfolded

/-- Failures are reported, once, and never become a verdict. Whatever a backend does, a negative
solution is an answer of the backend after it took all clauses, and everything that fails is an
error. The same holds for every step of an enumeration, from any state of the backend. The
answers of an enumeration are positive ones and at most one final answer, a failure or a
negative one, after which there is nothing any more. -/
theorem Formula.failures_reported (backend : Backend σ) (state : σ) :
    ∃ problem, Problem.ofFormula? formula bounds bitwidth = .ok problem ∧
      formula.enumerate? bounds bitwidth = .ok (.ofProblem problem) ∧ problem.cnf.Nonempty ∧
      (∀ solution after,
        (formula.solve bounds bitwidth backend).run.run state = (.ok solution, after) →
        solution.outcome.isSat = false →
        ∃ loaded after, backend.Loads problem.cnf [] state loaded ∧
          backend.solve.run.run loaded = (.ok false, after)) ∧
      (∀ error after, (Enumeration.ofProblem problem).Fails backend state error after →
        ((formula.solve bounds bitwidth backend).run.run state).1 = .error error) ∧
      (∀ enumeration : Enumeration, enumeration.problem = problem → enumeration.done = false →
        ∀ state,
        (∀ solution after final,
          (enumeration.next backend).run state = ((some (.ok solution), after), final) →
          solution.outcome.isSat = false →
          ∃ ready, enumeration.Readies backend state ready ∧
            backend.solve.run.run ready = (.ok false, final)) ∧
        ∀ error after, enumeration.Fails backend state error after →
          (enumeration.next backend).run state =
            ((some (.error error), { enumeration with done := true }), after)) ∧
      ∀ limit, ∃ (solutions : List Solution) (finals : List (Except Error Solution))
        (last : Enumeration) (middle : σ),
        ((Enumeration.ofProblem problem).take backend limit).run state =
          ((solutions.map .ok ++ finals, last), middle) ∧
        (∀ solution ∈ solutions, solution.outcome.isSat = true) ∧
        ((finals = [] ∧ solutions.length = limit) ∨
          (∃ final, finals = [final] ∧ Enumeration.Final final) ∧
            ∀ later, (last.next backend).run later = ((none, last), later)) := by
  let problem := Problem.ofCompiled bounds compiled
  have posed : Problem.ofFormula? formula bounds bitwidth = .ok problem := by
    rw [Problem.ofFormula?_eq, ran]
    rfl
  have solves : (formula.solve bounds bitwidth backend).run.run state =
      (problem.solve backend).run.run state := by
    rw [Formula.solve, posed]
    rfl
  have isOpen : problem.trivial = none := unfolded
  refine ⟨problem, posed, ?_, Problem.nonempty_ofCompiled bounds compiled, ?_, ?_, ?_, ?_⟩
  · rw [enumerate?, posed]
    rfl
  · intro solution after solved isUnsat
    apply Problem.of_solve_unsat isOpen _ isUnsat
    rw [← solves, solved]
  · intro error after fails
    rw [solves, Problem.solve_of_fails isOpen fails]
  · intro enumeration same waiting state
    have unfolded : enumeration.problem.trivial = none := by rw [same, isOpen]
    constructor
    · intro solution after final next isUnsat
      exact Enumeration.of_next_unsat unfolded waiting next isUnsat
    · intro error after fails
      exact Enumeration.next_of_fails unfolded waiting fails
  · intro limit
    exact @Enumeration.take_reports _ (.ofProblem problem) backend state isOpen rfl limit

end

theorem failures_reported_pet :
    let error : Error := .aborted (.scripted "not started")
    let backend := Backend.scripted "mute" true [] (some error)
    let script := Script.ofAnswers [.unsatisfiable]
    ∃ enumeration after, onePet.enumerate? petBounds 4 = .ok enumeration ∧
      ((onePet.solve petBounds 4 backend).run.run script).1 = .error error ∧
      (enumeration.next backend).run script =
        ((some (.error error), { enumeration with done := true }), after) := by
  intro error backend script
  have folded : (onePet.compiled? petBounds 4).toOption.map (fun compiled =>
      compiled.value.const?) = some none := by decide +kernel
  cases compiles : onePet.compiled? petBounds 4 with
  | error error =>
      rw [compiles] at folded
      cases folded
  | ok compiled =>
      rw [compiles] at folded
      rcases Formula.failures_reported compiles (Option.some.inj folded) backend script with
        ⟨problem, -, starts, -, -, solving, enumerating, -⟩
      have fails : (Enumeration.ofProblem problem).Fails backend script error
          (Script.create (some error) |>.run.run script).2 := .loading rfl (.creating rfl)
      exact ⟨.ofProblem problem, _, starts, solving _ _ fails,
        (enumerating _ rfl rfl script).2 _ _ fails⟩

end ModelFinder
