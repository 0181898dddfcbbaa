import Mathlib
import ModelFinder.Proofs.Solving.Closing
import ModelFinder.Proofs.Solving.Enumeration
import ModelFinder.Proofs.Solving.Loading
/-!
Refused clauses. A clause rules out each instance that an enumeration has met, and only the
backend sees to it that the instance is not met again. A backend that is started afresh fails
when it refuses such a clause. One that is kept is offered the clause once, and nothing happens
if it refuses: then it may give the same instance again, and again.
-/

namespace ModelFinder

variable {σ : Type}

namespace Enumeration

variable {backend : Backend σ} {enumeration after : Enumeration} {state middle asked : σ}
  {solution : Solution}

def models (answers : List (Except Error Solution)) : List Instance :=
  answers.filterMap fun answer => answer.toOption.bind Solution.model

/-- If a backend that is started afresh fails to load, as it does when it refuses a clause, the
enumeration ends with its error. -/
theorem next_of_failsToLoad {error : Error} {failed : σ} (waiting : enumeration.done = false)
    (possible : enumeration.problem.trivial ≠ some false)
    (positive : 0 < enumeration.problem.primary)
    (fresh : (enumeration.loaded && backend.incremental) = false)
    (fails : backend.FailsToLoad enumeration.problem.cnf enumeration.blocking state error failed) :
    (enumeration.next backend).run state =
      ((some (.error error), { enumeration with done := true }), failed) := by
  refine next_of_failure waiting ?_
  rw [step_eq_ask possible positive, ask_eq, if_neg (by rw [fresh]; exact Bool.false_ne_true),
    Solving.run_bind_error (Backend.load_of_fails fails)]

theorem next_of_answer (possible : enumeration.problem.trivial ≠ some false)
    (positive : 0 < enumeration.problem.primary) (waiting : enumeration.done = false)
    (ready : (enumeration.loaded && backend.incremental) = true ∧ state = middle ∨
      (enumeration.loaded && backend.incremental) = false ∧
        (backend.load enumeration.problem.cnf enumeration.blocking).run.run state =
          (.ok (), middle))
    (solved : backend.solve.run.run middle = (.ok true, asked))
    (decoded : enumeration.problem.satisfiable? (backend.value asked) = .ok solution) :
    (enumeration.next backend).run state =
      ((some (.ok solution), enumeration.ruleOut backend (backend.value asked)),
        offered enumeration.problem backend asked) := by
  have isSat : solution.outcome.isSat = true := by
    rcases Except.bind_eq_ok_iff.mp decoded with ⟨model, -, made⟩
    cases made
    rfl
  refine next_of_sat waiting ?_ isSat waiting
  rw [step_eq_ask possible positive, ask_eq]
  rcases ready with ⟨kept, rfl⟩ | ⟨fresh, loads⟩
  · rw [if_pos kept, answer_of_sat solved decoded]
  · rw [if_neg (by rw [fresh]; exact Bool.false_ne_true), Solving.run_bind_ok loads,
      answer_of_sat solved decoded]

end Enumeration

namespace Problem

variable {problem : Problem} {made : (Nat → Bool) → Instance} {backend : Backend σ}
  {Holds : σ → List Clause → Prop}

/-- The instances of a problem tell the values of its primary variables apart, and there is one
unless the problem is trivial; none of its clauses is empty. -/
structure Distinguishes (problem : Problem) (made : (Nat → Bool) → Instance) : Prop where
  decoded : ∀ {assignment model}, problem.decode? assignment = .ok model → model = made assignment
  distinguished : ∀ first second,
    made first = made second ↔ AgreeUpTo problem.primary first second
  nonempty : problem.cnf.Nonempty
  unfolded : problem.trivial = none → 0 < problem.primary

def Proceeds (problem : Problem) (made : (Nat → Bool) → Instance) (backend : Backend σ)
    (Holds : σ → List Clause → Prop) (found : List (Nat → Bool)) (solution : Solution)
    (after : Enumeration) (state : σ) : Prop :=
  (solution.outcome.isSat = true ∧ ∃ assignment, solution.model = some (made assignment) ∧
    problem.Found (fun _ => true) backend Holds (found ++ [assignment]) after state) ∨
  (solution.outcome.isSat = false ∧ solution.model = none)

namespace Distinguishes

variable (distinguishes : problem.Distinguishes made)

include distinguishes

theorem of_satisfiable? {holds : Nat → Bool} {solution : Solution}
    (ran : problem.satisfiable? holds = .ok solution) :
    solution = ⟨.satisfiable, some (made holds), problem.statistics⟩ := by
  rcases Except.bind_eq_ok_iff.mp ran with ⟨model, decoded, made⟩
  cases made
  rw [distinguishes.decoded decoded]

variable (decides : backend.Decides Holds)
  (extensible : backend.incremental = true → backend.Extends Holds) {found : List (Nat → Bool)}
  {enumeration after : Enumeration} {state middle : σ} {solution : Solution}
  (progress : problem.Found (fun _ => true) backend Holds found enumeration state)

include decides extensible progress

private theorem proceeds_of_answer (positive : 0 < problem.primary) {loaded : σ}
    (holds : Holds loaded (problem.cnf.clauses.toList ++ enumeration.blocking))
    (ran : (enumeration.answer backend).run.run loaded = (.ok (solution, after), middle)) :
    problem.Proceeds made backend Holds found solution after middle := by
  have same := progress.problem_eq
  subst same
  rcases Enumeration.of_answer ran with ⟨-, rfl, -⟩ | ⟨asked, solved, decoded, rfl, rfl⟩
  · exact .inr ⟨rfl, rfl⟩
  · have isFound := distinguishes.of_satisfiable? decoded
    subst isFound
    refine .inl ⟨rfl, _, rfl, progress.ruleOut decides holds solved rfl fun kept held => ?_⟩
    rcases extensible kept holds solved (blockingClause_ne_nil positive _) with ⟨added, accepted⟩
    have after := decides.accepted held accepted
    rwa [accepted]

private theorem proceeds_of_ask (positive : 0 < problem.primary)
    (ran : (enumeration.ask backend).run.run state = (.ok (solution, after), middle)) :
    problem.Proceeds made backend Holds found solution after middle := by
  rw [Enumeration.ask_eq] at ran
  split at ran
  · rename_i kept
    exact distinguishes.proceeds_of_answer decides extensible progress positive
      (progress.held positive kept) ran
  · have nonempty : ∀ clause ∈ problem.cnf.clauses.toList ++ enumeration.blocking,
        clause ≠ [] := by
      rw [progress.blocking_eq, List.forall_mem_append, List.forall_mem_map]
      exact ⟨distinguishes.nonempty, fun _ _ => blockingClause_ne_nil positive _⟩
    rcases Solving.of_run_bind ran with ⟨_, loaded, loads, answers⟩
    rw [progress.problem_eq] at loads
    exact distinguishes.proceeds_of_answer decides extensible progress positive
      (Backend.load_holds decides nonempty loads) answers

omit decides extensible in
private theorem proceeds_single (none : problem.primary = 0)
    (ran : (do
        let after := { enumeration with blocking := enumeration.blocking ++ [[]] }
        if enumeration.blocking.isEmpty then return (← problem.triviallySatisfiable?, after)
        else return (problem.triviallyUnsatisfiable, after) :
        Solving σ (Solution × Enumeration)).run.run state = (.ok (solution, after), middle)) :
    problem.Proceeds made backend Holds found solution after middle := by
  dsimp only at ran
  split at ran
  · rename_i first
    have isFirst : found = [] := by
      rw [progress.blocking_eq] at first
      simpa using first
    subst isFirst
    rcases Solving.of_run_bind ran with ⟨answer, _, decoded, ran⟩
    cases ran
    rcases Prod.mk.inj decoded with ⟨decodes, rfl⟩
    rcases Except.bind_eq_ok_iff.mp decodes with ⟨model, modelDecodes, made⟩
    cases made
    have clause : problem.blockingClause (fun _ => false) = [] := by
      rw [blockingClause, none]
      rfl
    rw [distinguishes.decoded modelDecodes]
    refine .inl ⟨rfl, fun _ => false, rfl, progress.concat rfl (List.forall_mem_nil _)
      progress.problem_eq progress.waiting (by rw [clause]) (fun positive => ?_)
      fun positive => ?_⟩
    all_goals omega
  · cases ran
    exact .inr ⟨rfl, rfl⟩

theorem proceeds_of_step
    (ran : (enumeration.step backend).run.run state = (.ok (solution, after), middle)) :
    problem.Proceeds made backend Holds found solution after middle := by
  have same := progress.problem_eq
  subst same
  unfold Enumeration.step at ran
  dsimp only at ran
  split at ran
  · cases ran
    exact .inr ⟨rfl, rfl⟩
  · split at ran
    · rename_i none
      exact distinguishes.proceeds_single progress none ran
    · rename_i some
      exact distinguishes.proceeds_of_ask decides extensible progress (Nat.pos_of_ne_zero some) ran
  · rename_i unfolded
    exact distinguishes.proceeds_of_ask decides extensible progress
      (distinguishes.unfolded unfolded) ran

/-- However many answers are asked for, their instances belong to assignments that disagree in
pairs, also with those that were found before. If the enumeration goes on, it has found these. -/
theorem exists_distinct (limit : Nat) : ∃ others,
    Enumeration.models ((Enumeration.take backend limit enumeration).run state).1.1 =
      others.map made ∧
    ((found ++ others).Pairwise fun first second => ¬AgreeUpTo problem.primary first second) ∧
    (((Enumeration.take backend limit enumeration).run state).1.2.done = false →
      problem.Found (fun _ => true) backend Holds (found ++ others)
        ((Enumeration.take backend limit enumeration).run state).1.2
        ((Enumeration.take backend limit enumeration).run state).2) := by
  induction limit generalizing found enumeration state with
  | zero =>
      refine ⟨[], rfl, ?_, fun _ => ?_⟩ <;> rw [List.append_nil]
      · exact progress.distinct
      · exact progress
  | succ limit hypothesis =>
      rcases ran : (enumeration.step backend).run.run state with ⟨outcome, middle⟩
      cases outcome with
      | error error =>
          have next := Enumeration.next_of_failure progress.waiting ran
          rw [Enumeration.take_of_next next (Enumeration.take_of_done rfl limit)]
          exact ⟨[], rfl, by rw [List.append_nil]; exact progress.distinct,
            fun goesOn => by cases goesOn⟩
      | ok answer =>
          rcases answer with ⟨solution, after⟩
          rcases distinguishes.proceeds_of_step decides extensible progress ran with
            ⟨isSat, assignment, isModel, further⟩ | ⟨isUnsat, missing⟩
          · have next := Enumeration.next_of_sat progress.waiting ran isSat further.waiting
            rcases hypothesis further with ⟨others, models, distinct, goesOn⟩
            rw [List.append_assoc] at distinct goesOn
            rw [Enumeration.take_of_next next rfl]
            refine ⟨assignment :: others, ?_, distinct, goesOn⟩
            rw [List.map_cons, ← models, Enumeration.models, List.filterMap_cons]
            simp only [Except.toOption, Option.bind_some, isModel]
            rfl
          · have next := Enumeration.next_of_step progress.waiting ran
            have done : (!solution.outcome.isSat) = true := by rw [isUnsat]; rfl
            rw [Enumeration.take_of_next next (Enumeration.take_of_done done limit)]
            refine ⟨[], ?_, by rw [List.append_nil]; exact progress.distinct, fun goesOn => ?_⟩
            · rw [Enumeration.models, List.filterMap_cons]
              simp only [Except.toOption, Option.bind_some, missing]
              rfl
            · cases done.symm.trans goesOn

end Distinguishes

end Problem

section

variable {formula : Formula} {bounds : Bounds} {bitwidth : Nat} (made : bounds.Made)

include made

theorem Formula.distinguishes {compiled : Compiled Bit}
    (ran : formula.compiled? bounds bitwidth = .ok compiled) :
    (Problem.ofCompiled bounds compiled).Distinguishes compiled.leaves.decoded := by
  rcases Compiled.of_run? ran with ⟨-, -, -, allocated, -⟩
  have labelled := Leaves.labelled_of_ofBounds? made.sound allocated
  obtain rfl := (Leaves.of_ofBounds? allocated).1
  refine ⟨Leaves.eq_decoded_of_decodeInstance? labelled.sound.distinct, labelled.decoded_eq_iff,
    Problem.nonempty_ofCompiled _ compiled,
    fun unfolded => Nat.pos_iff_ne_zero.mpr fun closed => ?_⟩
  rcases formula.folded_of_closed made ran closed with ⟨value, constant⟩
  change compiled.value.const? = none at unfolded
  rw [constant] at unfolded
  cases unfolded

variable {enumeration : Enumeration} (starts : formula.enumerate? bounds bitwidth = .ok enumeration)
  {backend : Backend σ} {Holds : σ → List Clause → Prop} (decides : backend.Decides Holds)
  (extensible : backend.incremental = true → backend.Extends Holds)

include starts decides extensible

/-- No instance is met twice, whichever clauses a backend refuses, if the backend is started
afresh for every answer. A backend that is kept must take further clauses after its answers.
One that is started afresh and refuses a clause, be it of the formula or for an instance that was
met, ends the enumeration with an error that names the clause. -/
theorem Formula.enumerated_distinct (state : σ) (limit : Nat) :
    (Enumeration.models ((enumeration.take backend limit).run state).1.1).Nodup ∧
    ∀ {answers : List (Except Error Solution)} {after : Enumeration} {middle failed : σ}
      {clause : Clause},
      (enumeration.take backend limit).run state = ((answers, after), middle) →
      after.done = false → backend.incremental = false → 0 < enumeration.problem.primary →
      enumeration.problem.trivial ≠ some false →
      (∃ created announced, backend.create.run.run middle = (.ok (), created) ∧
        (backend.addVariables enumeration.problem.cnf.variableCount).run.run created =
          (.ok (), announced) ∧
        backend.Refuses clause (enumeration.problem.cnf.clauses.toList ++ after.blocking)
          announced failed) →
      (after.next backend).run middle =
        ((some (.error (.aborted (.refusedClause backend.name clause))),
          { after with done := true }), failed) := by
  rw [Formula.enumerate?, Problem.ofFormula?_eq] at starts
  rcases Except.map_eq_ok_iff.mp starts with ⟨problem, posed, rfl⟩
  rcases Except.map_eq_ok_iff.mp posed with ⟨compiled, compiles, rfl⟩
  have distinguishes := formula.distinguishes made compiles
  rcases distinguishes.exists_distinct decides extensible (.start _ _ backend Holds state) limit
    with ⟨others, models, distinct, goesOn⟩
  constructor
  · rw [models]
    refine List.pairwise_map.mpr (distinct.imp fun differ same => differ ?_)
    exact (distinguishes.distinguished _ _).mp same
  · rintro answers after middle failed clause ran waiting fresh positive possible
      ⟨created, announced, creates, announces, refuses⟩
    rw [ran] at goesOn
    have same := (goesOn waiting).problem_eq
    refine Enumeration.next_of_failsToLoad waiting (by rwa [same]) (by rwa [same])
      (by rw [fresh, Bool.and_false]) ?_
    rw [same]
    exact .refusing creates announces refuses

end

namespace Backend

/-! A reference backend with room for some clauses -/

/-- A backend that stores a number of clauses at most and refuses the others. -/
def roomFor (capacity : Nat) : Backend (List Clause × Nat) :=
  { exhaustive false with
    addClause := fun clause state =>
      if state.1.length < capacity then (true, state.1 ++ [clause], state.2) else (false, state) }

variable {capacity : Nat}

theorem roomFor_addClause (clause : Clause) (state : List Clause × Nat) :
    ((roomFor capacity).addClause clause).run state =
      if state.1.length < capacity then (true, state.1 ++ [clause], state.2)
      else (false, state) := rfl

theorem roomFor_decides (capacity : Nat) : (roomFor capacity).Decides Listed where
  created := (exhaustive_decides false).created
  announced holds ran := by
    cases ran
    exact holds
  accepted holds ran := by
    rw [roomFor_addClause] at ran
    split at ran
    · cases ran
      exact congrArg (· ++ [_]) holds
    · cases ran
  answered := (exhaustive_decides false).answered
  satisfied := (exhaustive_decides false).satisfied

theorem roomFor_takes {code : Nat} : ∀ {offered listed : List Clause},
    listed.length + offered.length ≤ capacity →
      (roomFor capacity).Takes offered (listed, code) (listed ++ offered, code)
  | [], listed, _ => by
      rw [List.append_nil]
      exact .nil
  | clause :: rest, listed, room => by
      rw [List.length_cons] at room
      have stored : listed.length < capacity := by omega
      rw [List.append_cons listed clause rest]
      refine .cons ((roomFor_addClause _ _).trans (if_pos stored)) (.inl rfl) (roomFor_takes ?_)
      change (listed ++ [clause]).length + rest.length ≤ capacity
      rw [List.length_append, List.length_singleton]
      omega

end Backend

/-- A backend with room for the clauses of a problem finds an assignment, and then it has no room
for the clause that rules the assignment out. -/
theorem Problem.Poses.take_roomFor {problem : Problem} {made : (Nat → Bool) → Instance}
    {wanted : (Nat → Bool) → Bool} (poses : problem.Poses made wanted)
    (possible : problem.trivial ≠ some false) (positive : 0 < problem.primary) {capacity code : Nat}
    (full : problem.cnf.clauses.toList.length = capacity)
    (found : Backend.exhaust problem.cnf.clauses.toList = some code) :
    ∃ solution after,
      ((Enumeration.ofProblem problem).take (Backend.roomFor capacity) 1).run ([], 0) =
        (([.ok solution], after), problem.cnf.clauses.toList, code) ∧
      after.done = false ∧
      (Backend.roomFor capacity).Refuses (problem.blockingClause code.testBit)
        (problem.cnf.clauses.toList ++ after.blocking) ([], 0) (problem.cnf.clauses.toList, 0) := by
  have takes : (Backend.roomFor capacity).Takes problem.cnf.clauses.toList ([], 0)
      (problem.cnf.clauses.toList, 0) :=
    Backend.roomFor_takes (by rw [full, List.length_nil, Nat.zero_add])
  have loads : ((Backend.roomFor capacity).load problem.cnf []).run.run ([], 0) =
      (.ok (), problem.cnf.clauses.toList, 0) :=
    Backend.load_of_loads ⟨rfl, rfl, by rwa [List.append_nil]⟩
  have solved : (Backend.roomFor capacity).solve.run.run (problem.cnf.clauses.toList, 0) =
      (.ok true, problem.cnf.clauses.toList, code) := by
    change (Backend.exhaustive false).solve.run.run _ = _
    rw [Backend.exhaustive_solve, found]
  have next := (Enumeration.ofProblem problem).next_of_answer possible positive rfl
    (.inr ⟨rfl, loads⟩) solved (poses.satisfiable?_eq _)
  refine ⟨_, _, Enumeration.take_of_next next rfl, rfl, .of_takes takes (.first ?_ ?_)⟩
  · rw [Backend.roomFor_addClause, if_neg (by rw [full]; exact Nat.lt_irrefl _)]
  · exact Problem.blockingClause_ne_nil positive _

theorem enumerated_distinct_pet : ∃ enumeration solution after middle clause failed,
    onePet.enumerate? petBounds 4 = .ok enumeration ∧
    (enumeration.take (Backend.roomFor 12) 1).run ([], 0) = (([.ok solution], after), middle) ∧
    (Enumeration.models [.ok solution]).Nodup ∧
    (after.next (Backend.roomFor 12)).run middle =
      ((some (.error (.aborted (.refusedClause "exhaustive" clause))),
        { after with done := true }), failed) := by
  have labels : (petBounds.openCount : Int) ≤ Circuit.maxLabel := by decide +kernel
  have facts : (onePet.compiled? petBounds 4).toOption.map (fun compiled =>
      let problem := Problem.ofCompiled petBounds compiled
      (problem.trivial, problem.primary, problem.cnf.clauses.toList.length,
        Backend.exhaust problem.cnf.clauses.toList)) = some (none, 2, 12, some 108) := by
    decide +kernel
  rcases Except.exists_ok_of_map facts with ⟨compiled, compiles, facts⟩
  have poses := (onePet.poses petBounds_made labels petBounds_inRange petBounds_countable
    compiles).2.2
  have starts : onePet.enumerate? petBounds 4 =
      .ok (.ofProblem (.ofCompiled petBounds compiled)) := by
    rw [Formula.enumerate?, Problem.ofFormula?_eq, compiles]
    rfl
  generalize Problem.ofCompiled petBounds compiled = problem at facts poses starts
  simp only [Prod.mk.injEq] at facts
  rcases facts with ⟨unfolded, primary, full, found⟩
  have possible : problem.trivial ≠ some false := by
    rw [unfolded]
    simp
  have positive : 0 < problem.primary := by
    rw [primary]
    decide
  rcases poses.take_roomFor possible positive full found with
    ⟨solution, after, taken, waiting, refuses⟩
  have distinct := onePet.enumerated_distinct petBounds_made starts (Backend.roomFor_decides 12)
    (fun impossible => by cases impossible) ([], 0) 1
  have first := distinct.1
  rw [taken] at first
  exact ⟨_, solution, after, _, _, _, starts, taken, first,
    distinct.2 taken waiting rfl positive possible ⟨([], 0), ([], 0), rfl, rfl, refuses⟩⟩

namespace Enumeration

variable {backend : Backend σ} {enumeration : Enumeration} {asked : σ} {solution : Solution}

theorem take_repeats (possible : enumeration.problem.trivial ≠ some false)
    (positive : 0 < enumeration.problem.primary) (waiting : enumeration.done = false)
    (loaded : enumeration.loaded = true) (kept : backend.incremental = true)
    (refuses : ∀ clause, (backend.addClause clause).run asked = (false, asked))
    (again : backend.solve.run.run asked = (.ok true, asked))
    (decoded : enumeration.problem.satisfiable? (backend.value asked) = .ok solution)
    (limit : Nat) :
    ((enumeration.take backend limit).run asked).1.1 = List.replicate limit (.ok solution) := by
  induction limit generalizing enumeration with
  | zero => rfl
  | succ limit hypothesis =>
      have next := next_of_answer possible positive waiting
        (.inl ⟨by rw [loaded, kept]; rfl, rfl⟩) again decoded
      have same : offered enumeration.problem backend asked = asked := by
        rw [offered, if_pos kept, refuses]
      have others := @hypothesis (enumeration.ruleOut backend (backend.value asked)) possible
        positive waiting kept decoded
      rw [same] at next
      rw [take_of_next next rfl, List.replicate_succ]
      exact congrArg (Except.ok solution :: ·) others

end Enumeration

theorem Problem.Poses.exists_solved {problem : Problem} {made : (Nat → Bool) → Instance}
    {wanted : (Nat → Bool) → Bool} (poses : problem.Poses made wanted)
    (notFalse : problem.trivial ≠ some false) (possible : ∃ holds, wanted holds = true)
    {backend : Backend σ} {Holds : σ → List Clause → Prop} (decides : backend.Decides Holds)
    (accepts : backend.Accepts Holds)
    (answers : backend.Answers Holds problem.cnf.variableCount) (state : σ) :
    ∃ loaded asked, (backend.load problem.cnf []).run.run state = (.ok (), loaded) ∧
      backend.solve.run.run loaded = (.ok true, asked) := by
  have nonempty : ∀ clause ∈ problem.cnf.clauses.toList ++ [], clause ≠ [] := by
    rw [List.append_nil]
    exact poses.nonempty
  rcases Backend.load_run decides accepts answers nonempty state with ⟨loaded, loads, holds⟩
  rcases answers.solved holds with ⟨answer, asked, solved⟩
  rw [List.append_nil] at holds
  have isSat : answer = true := Except.ok.inj ((decides.answered holds solved).mpr
    ((poses.satisfiable_iff notFalse).mpr possible))
  subst isSat
  exact ⟨loaded, asked, loads, solved⟩

section

variable {formula : Formula} {bounds : Bounds} {bitwidth : Nat} (made : bounds.Made)
  (inRange : bounds.InRange) (labels : (bounds.openCount : Int) ≤ Circuit.maxLabel)
  (countable : bounds.Countable)
  {compiled : Compiled Bit} (ran : formula.compiled? bounds bitwidth = .ok compiled)
  (unfolded : compiled.value.const? = none) (possible : ∃ holds, compiled.value.eval holds = true)
  {backend : Backend σ} {Holds : σ → List Clause → Prop} (kept : backend.incremental = true)
  (decides : backend.Decides Holds) (accepts : backend.Accepts Holds)
  (answers : ∀ count, backend.Answers Holds count)
  (again : ∀ {state asked}, backend.solve.run.run state = (.ok true, asked) →
    backend.solve.run.run asked = (.ok true, asked))

include made inRange labels countable ran unfolded possible kept decides accepts answers again

/-- A backend that is kept but takes no clause once it has answered gives the first instance of a
formula again and again, although it decides the clauses that it took. -/
theorem Formula.enumeration_repeats (state : σ × Bool) :
    ∃ enumeration model, formula.enumerate? bounds bitwidth = .ok enumeration ∧
      ∀ limit, Enumeration.models ((enumeration.take backend.closing limit).run state).1.1 =
        List.replicate limit model := by
  rcases formula.poses made labels inRange countable ran with ⟨-, -, poses⟩
  let problem := Problem.ofCompiled bounds compiled
  have nontrivial : problem.trivial = none := unfolded
  have notFalse : problem.trivial ≠ some false := by rw [nontrivial]; simp
  rcases poses.exists_solved notFalse possible decides accepts (answers _) state.1 with
    ⟨loaded, asked, loads, solved⟩
  -- once the backend has answered, neither clauses nor questions change its state
  let start := Enumeration.ofProblem problem
  let solution : Solution :=
    ⟨.satisfiable, some (compiled.leaves.decoded (backend.value asked)), problem.statistics⟩
  have decoded : problem.satisfiable? (backend.value asked) = .ok solution :=
    poses.satisfiable?_eq _
  have refuses (clause : Clause) :
      (backend.closing.addClause clause).run (asked, true) = (false, asked, true) := rfl
  have closingSolved : backend.closing.solve.run.run (loaded, false) = (.ok true, asked, true) :=
    Backend.run_marked (fun _ => true) solved
  have closingAgain : backend.closing.solve.run.run (asked, true) = (.ok true, asked, true) :=
    Backend.run_marked (fun _ => true) (again solved)
  have next := start.next_of_answer notFalse (poses.unfolded nontrivial) rfl
    (.inr ⟨rfl, Backend.load_closing loads⟩) closingSolved decoded
  have same : Enumeration.offered start.problem backend.closing (asked, true) = (asked, true) := by
    rw [Enumeration.offered, refuses, ite_self]
  rw [same] at next
  have closingKept : backend.closing.incremental = true := kept
  refine ⟨start, compiled.leaves.decoded (backend.value asked), ?_, fun limit => ?_⟩
  · rw [enumerate?, Problem.ofFormula?_eq, ran]
    rfl
  · have repeated : ((start.take backend.closing limit).run state).1.1 =
        List.replicate limit (.ok solution) := by
      cases limit with
      | zero => rfl
      | succ limit =>
          have others := (start.ruleOut backend.closing (backend.value asked)).take_repeats
            notFalse (poses.unfolded nontrivial) rfl kept closingKept refuses closingAgain decoded
            limit
          rw [Enumeration.take_of_next next rfl, List.replicate_succ]
          exact congrArg (Except.ok solution :: ·) others
    rw [repeated, Enumeration.models, List.filterMap_replicate]
    rfl

end

/-- A backend that is kept gives one pet twice. It decides the clauses that it takes, and does not
store the ones that it refuses. -/
theorem pet_repeated :
    ((Backend.exhaustive true).closing.Decides fun state => Backend.Listed state.1) ∧
    ((Backend.exhaustive true).closing.DropsRefused fun state => Backend.Listed state.1) ∧
    ∃ enumeration model, onePet.enumerate? petBounds 4 = .ok enumeration ∧
      Enumeration.models ((enumeration.take (Backend.exhaustive true).closing 2).run
        (([], 0), false)).1.1 = [model, model] := by
  refine ⟨(Backend.exhaustive_decides true).closing,
    (Backend.exhaustive_dropsRefused true).closing, ?_⟩
  have labels : (petBounds.openCount : Int) ≤ Circuit.maxLabel := by decide +kernel
  have facts : (onePet.compiled? petBounds 4).toOption.map (fun compiled =>
      (compiled.value.const?, compiled.value.eval (· == 1))) = some (none, true) := by
    decide +kernel
  rcases Except.exists_ok_of_map facts with ⟨compiled, compiles, facts⟩
  rcases Prod.mk.inj facts with ⟨unfolded, isTrue⟩
  rcases onePet.enumeration_repeats petBounds_made petBounds_inRange labels petBounds_countable
    compiles unfolded ⟨_, isTrue⟩ rfl (Backend.exhaustive_decides true)
    (Backend.exhaustive_accepts true) (Backend.exhaustive_answers true)
    Backend.exhaustive_again (([], 0), false) with ⟨enumeration, model, starts, repeats⟩
  exact ⟨enumeration, model, starts, repeats 2⟩

end ModelFinder
