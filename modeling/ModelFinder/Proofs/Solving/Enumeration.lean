import Mathlib
import ModelFinder.Proofs.Compile.Closure
import ModelFinder.Proofs.Solving.Loading
import ModelFinder.Proofs.Solving.Verdict
import ModelFinder.Proofs.Correspondence
/-!
Enumerations. Each answer of a backend is ruled out by a clause before the backend is asked
again, so an enumeration meets every wanted assignment of the primary variables exactly once.
There are finitely many of them, hence it ends.
-/

namespace ModelFinder

namespace Problem

variable {problem : Problem}

theorem holds_blockingClause (found assignment : Nat → Bool) :
    (problem.blockingClause found).holds assignment = true ↔
      ¬AgreeUpTo problem.primary found assignment := by
  have literal : ∀ index : Nat, Literal.holds assignment
      (if found (index + 1) then -((index + 1 : Nat) : Int) else ((index + 1 : Nat) : Int)) =
        true ↔ found (index + 1) ≠ assignment (index + 1) := by
    intro index
    have number : ((index + 1 : Nat) : Int).natAbs = index + 1 := Int.natAbs_natCast _
    cases value : found (index + 1) with
    | true =>
        have negative : -((index + 1 : Nat) : Int) < 0 := by omega
        rw [if_pos rfl, Literal.holds, if_pos negative, Int.natAbs_neg, number]
        cases assignment (index + 1) <;> decide
    | false =>
        have positive : ¬((index + 1 : Nat) : Int) < 0 := by omega
        rw [if_neg Bool.false_ne_true, Literal.holds, if_neg positive, number]
        cases assignment (index + 1) <;> decide
  rw [Clause.holds, blockingClause, List.any_map, List.any_eq_true]
  constructor
  · rintro ⟨index, member, holds⟩ agree
    exact (literal index).mp holds
      (agree (index + 1) (Nat.succ_pos _) (List.mem_range.mp member))
  · intro differ
    by_contra none
    refine differ fun number positive le => ?_
    by_contra different
    have restored : number - 1 + 1 = number := Nat.sub_add_cancel positive
    refine none ⟨number - 1, List.mem_range.mpr (by omega), (literal (number - 1)).mpr ?_⟩
    rwa [restored]

theorem blockingClause_ne_nil (positive : 0 < problem.primary) (found : Nat → Bool) :
    problem.blockingClause found ≠ [] := by
  rw [blockingClause, Ne, List.map_eq_nil_iff, List.range_eq_nil]
  exact positive.ne'

theorem length_le_of_distinct {found : List (Nat → Bool)}
    (distinct : found.Pairwise fun first second => ¬AgreeUpTo problem.primary first second) :
    found.length ≤ 2 ^ problem.primary := by
  let values (assignment : Nat → Bool) (index : Fin problem.primary) : Bool :=
    assignment (index + 1)
  have nodup : (found.map values).Nodup := by
    refine List.pairwise_map.mpr (distinct.imp fun differ same => differ ?_)
    intro number positive le
    have restored : number - 1 + 1 = number := Nat.sub_add_cancel positive
    have here := congrFun same ⟨number - 1, by omega⟩
    simpa only [values, restored] using here
  have bounded := nodup.length_le_card
  rwa [List.length_map, Fintype.card_fun, Fintype.card_bool, Fintype.card_fin] at bounded

end Problem

variable {σ : Type}

namespace Enumeration

/-- From a state of a backend, an enumeration gives some answers: the first ones of them,
however many are asked for, and after the last one nothing, whatever becomes of the
backend. -/
def Gives (backend : Backend σ) (enumeration : Enumeration) (state : σ)
    (answers : List (Except Error Solution)) : Prop :=
  ∀ limit, ∃ last after, (take backend limit enumeration).run state =
      ((answers.take limit, last), after) ∧
    (answers.length ≤ limit → ∀ later, (last.next backend).run later = ((none, last), later))

variable {backend : Backend σ} {enumeration after : Enumeration} {state middle : σ}

theorem next_of_done (done : enumeration.done = true) :
    (enumeration.next backend).run state = ((none, enumeration), state) := by
  rw [next, if_pos done]
  rfl

theorem take_of_done (done : enumeration.done = true) (limit : Nat) :
    (take backend limit enumeration).run state = (([], enumeration), state) := by
  cases limit with
  | zero => rfl
  | succ limit =>
      change StateT.run ((enumeration.next backend) >>= _) state = _
      rw [StateT.run_bind, next_of_done done]
      rfl

theorem take_of_next {answer : Except Error Solution}
    (first : (enumeration.next backend).run state = ((some answer, after), middle))
    {limit : Nat} {answers : List (Except Error Solution)} {last : Enumeration} {final : σ}
    (others : (take backend limit after).run middle = ((answers, last), final)) :
    (take backend (limit + 1) enumeration).run state = ((answer :: answers, last), final) := by
  change StateT.run ((enumeration.next backend) >>= _) state = _
  rw [StateT.run_bind, first]
  change StateT.run ((take backend limit after) >>= _) middle = _
  rw [StateT.run_bind, others]
  rfl

theorem gives_nil (done : enumeration.done = true) : enumeration.Gives backend state [] :=
  fun limit => ⟨enumeration, state, by rw [take_of_done done, List.take_nil],
    fun _ _ => next_of_done done⟩

theorem gives_cons {answer : Except Error Solution} {answers : List (Except Error Solution)}
    (first : (enumeration.next backend).run state = ((some answer, after), middle))
    (others : after.Gives backend middle answers) :
    enumeration.Gives backend state (answer :: answers) := by
  intro limit
  cases limit with
  | zero => exact ⟨enumeration, state, rfl, fun impossible => by cases impossible⟩
  | succ limit =>
      rcases others limit with ⟨last, final, ran, ended⟩
      exact ⟨last, final, take_of_next first ran, fun le => ended (Nat.le_of_succ_le_succ le)⟩

def answer (enumeration : Enumeration) (backend : Backend σ) :
    Solving σ (Solution × Enumeration) := do
  if ← backend.solve then
    let holds := backend.value (← get)
    let solution ← enumeration.problem.satisfiable? holds
    let clause := enumeration.problem.blockingClause holds
    if backend.incremental then
      let _ ← (backend.addClause clause : StateM σ Bool)
    return (solution, { enumeration with
      loaded := backend.incremental, blocking := enumeration.blocking ++ [clause] })
  else return (enumeration.problem.unsatisfiable, enumeration)

theorem ask_eq (enumeration : Enumeration) (backend : Backend σ) : enumeration.ask backend =
    if enumeration.loaded && backend.incremental then enumeration.answer backend
    else (do
      backend.load enumeration.problem.cnf enumeration.blocking
      enumeration.answer backend) := by
  unfold ask
  cases enumeration.loaded && backend.incremental <;> rfl

def ruleOut (enumeration : Enumeration) (backend : Backend σ) (found : Nat → Bool) :
    Enumeration :=
  { enumeration with
    loaded := backend.incremental
    blocking := enumeration.blocking ++ [enumeration.problem.blockingClause found] }

/-- The state of a backend after the values that it found are ruled out. Only a backend that is
kept is offered the clause, and it does not matter whether it takes it. -/
def offered (problem : Problem) (backend : Backend σ) (asked : σ) : σ :=
  if backend.incremental then
    ((backend.addClause (problem.blockingClause (backend.value asked))).run asked).2
  else asked

theorem answer_of_sat {solution : Solution}
    (solved : backend.solve.run.run state = (.ok true, middle))
    (decoded : enumeration.problem.satisfiable? (backend.value middle) = .ok solution) :
    (enumeration.answer backend).run.run state =
      (.ok (solution, enumeration.ruleOut backend (backend.value middle)),
        offered enumeration.problem backend middle) := by
  have read : (get : Solving σ σ).run.run middle = (.ok middle, middle) := rfl
  have decodes : ((enumeration.problem.satisfiable? (backend.value middle) :
      Except Error Solution) : Solving σ Solution).run.run middle = (.ok solution, middle) := by
    change (enumeration.problem.satisfiable? (backend.value middle), middle) = _
    rw [decoded]
  rw [answer, Solving.run_bind_ok solved, if_pos rfl, Solving.run_bind_ok read,
    Solving.run_bind_ok decodes, ruleOut, offered]
  cases backend.incremental <;> rfl

theorem of_answer {solution : Solution}
    (ran : (enumeration.answer backend).run.run state = (.ok (solution, after), middle)) :
    (backend.solve.run.run state = (.ok false, middle) ∧
      solution = enumeration.problem.unsatisfiable ∧ after = enumeration) ∨
    ∃ asked, backend.solve.run.run state = (.ok true, asked) ∧
      enumeration.problem.satisfiable? (backend.value asked) = .ok solution ∧
      after = enumeration.ruleOut backend (backend.value asked) ∧
      middle = offered enumeration.problem backend asked := by
  rcases Solving.of_run_bind ran with ⟨answer, asked, solved, rest⟩
  cases answer with
  | false =>
      cases rest
      exact .inl ⟨solved, rfl, rfl⟩
  | true =>
      rcases Solving.of_run_bind rest with ⟨_, _, read, rest⟩
      cases read
      rcases Solving.of_run_bind rest with ⟨found, _, decodes, -⟩
      have decoded := (Prod.mk.inj decodes).1
      rw [answer_of_sat solved decoded] at ran
      cases ran
      exact .inr ⟨asked, solved, decoded, rfl, rfl⟩

theorem step_eq_ask (possible : enumeration.problem.trivial ≠ some false)
    (positive : 0 < enumeration.problem.primary) :
    enumeration.step backend = enumeration.ask backend := by
  unfold step
  dsimp only
  split
  · rename_i folded
    exact absurd folded possible
  · rw [if_neg positive.ne']
  · rfl

theorem next_of_step {solution : Solution} (waiting : enumeration.done = false)
    (ran : (enumeration.step backend).run.run state = (.ok (solution, after), middle)) :
    (enumeration.next backend).run state =
      ((some (.ok solution), { after with done := !solution.outcome.isSat }), middle) := by
  rw [next, if_neg (by rw [waiting]; exact Bool.false_ne_true)]
  change StateT.run ((enumeration.step backend).run >>= _) state = _
  rw [StateT.run_bind, ran]
  rfl

theorem next_of_sat {solution : Solution} (waiting : enumeration.done = false)
    (ran : (enumeration.step backend).run.run state = (.ok (solution, after), middle))
    (isSat : solution.outcome.isSat = true) (goesOn : after.done = false) :
    (enumeration.next backend).run state = ((some (.ok solution), after), middle) := by
  have same : { after with done := !solution.outcome.isSat } = after := by
    rw [isSat]
    cases after
    cases goesOn
    rfl
  rw [next_of_step waiting ran, same]

theorem next_of_failure {error : Error} (waiting : enumeration.done = false)
    (ran : (enumeration.step backend).run.run state = (.error error, middle)) :
    (enumeration.next backend).run state =
      ((some (.error error), { enumeration with done := true }), middle) := by
  rw [next, if_neg (by rw [waiting]; exact Bool.false_ne_true)]
  change StateT.run ((enumeration.step backend).run >>= _) state = _
  rw [StateT.run_bind, ran]
  rfl

end Enumeration

namespace Problem

variable {problem : Problem} {made : (Nat → Bool) → Instance} {wanted : (Nat → Bool) → Bool}
  {backend : Backend σ} {Holds : σ → List Clause → Prop}

/-- How far an enumeration has come: it has found wanted assignments that disagree in pairs,
each is ruled out by its clause, and a backend that is asked without being started afresh holds
all clauses. Once something is found, it depends on the backend alone whether it is kept. -/
structure Found (problem : Problem) (wanted : (Nat → Bool) → Bool) (backend : Backend σ)
    (Holds : σ → List Clause → Prop) (found : List (Nat → Bool)) (enumeration : Enumeration)
    (state : σ) : Prop where
  problem_eq : enumeration.problem = problem
  waiting : enumeration.done = false
  blocking_eq : enumeration.blocking = found.map problem.blockingClause
  held : 0 < problem.primary → (enumeration.loaded && backend.incremental) = true →
    Holds state (problem.cnf.clauses.toList ++ enumeration.blocking)
  kept : 0 < problem.primary → found ≠ [] → enumeration.loaded = backend.incremental
  wanted : ∀ assignment ∈ found, wanted assignment = true
  distinct : found.Pairwise fun first second => ¬AgreeUpTo problem.primary first second

theorem Found.start (problem : Problem) (wanted : (Nat → Bool) → Bool) (backend : Backend σ)
    (Holds : σ → List Clause → Prop) (state : σ) :
    problem.Found wanted backend Holds [] (.ofProblem problem) state where
  problem_eq := rfl
  waiting := rfl
  blocking_eq := rfl
  held _ impossible := by cases impossible
  kept _ some := absurd rfl some
  wanted := List.forall_mem_nil _
  distinct := .nil

theorem Found.concat {found : List (Nat → Bool)} {enumeration after : Enumeration}
    {state middle : σ} (progress : problem.Found wanted backend Holds found enumeration state)
    {assignment : Nat → Bool} (isWanted : wanted assignment = true)
    (fresh : ∀ earlier ∈ found, ¬AgreeUpTo problem.primary earlier assignment)
    (problem_eq : after.problem = problem) (waiting : after.done = false)
    (blocking_eq : after.blocking = enumeration.blocking ++ [problem.blockingClause assignment])
    (held : 0 < problem.primary → (after.loaded && backend.incremental) = true →
      Holds middle (problem.cnf.clauses.toList ++ after.blocking))
    (kept : 0 < problem.primary → after.loaded = backend.incremental) :
    problem.Found wanted backend Holds (found ++ [assignment]) after middle where
  problem_eq := problem_eq
  waiting := waiting
  blocking_eq := by rw [blocking_eq, progress.blocking_eq, List.map_append]; rfl
  held := held
  kept positive _ := kept positive
  wanted := List.forall_mem_append.mpr ⟨progress.wanted, List.forall_mem_singleton.mpr isWanted⟩
  distinct := List.pairwise_append.mpr ⟨progress.distinct, List.pairwise_singleton _ _,
    fun earlier member last isLast => List.mem_singleton.mp isLast ▸ fresh earlier member⟩

/-- A positive answer of a backend that holds all clauses finds an assignment that was not found
before. A backend that is kept has to hold the clause that rules the assignment out. -/
theorem Found.ruleOut {found : List (Nat → Bool)} {enumeration : Enumeration}
    {state loaded asked : σ} (decides : backend.Decides Holds)
    (progress : problem.Found wanted backend Holds found enumeration state)
    (holds : Holds loaded (problem.cnf.clauses.toList ++ enumeration.blocking))
    (solved : backend.solve.run.run loaded = (.ok true, asked))
    (isWanted : wanted (backend.value asked) = true)
    (takes : backend.incremental = true →
      Holds asked (problem.cnf.clauses.toList ++ enumeration.blocking) →
      Holds ((backend.addClause (problem.blockingClause (backend.value asked))).run asked).2
        (problem.cnf.clauses.toList ++ enumeration.blocking ++
          [problem.blockingClause (backend.value asked)])) :
    problem.Found wanted backend Holds (found ++ [backend.value asked])
      (enumeration.ruleOut backend (backend.value asked))
      (Enumeration.offered problem backend asked) := by
  have same := progress.problem_eq
  subst same
  rcases decides.satisfied holds solved with ⟨held, satisfied⟩
  refine progress.concat isWanted ?_ rfl progress.waiting rfl ?_ fun _ => rfl
  · intro earlier member
    rw [List.all_append, Bool.and_eq_true, List.all_eq_true, List.all_eq_true,
      progress.blocking_eq] at satisfied
    exact (holds_blockingClause _ _).mp (satisfied.2 _ (List.mem_map_of_mem member))
  · intro _ both
    have kept : backend.incremental = true := (Bool.and_eq_true_iff.mp both).2
    have holdsAll := takes kept held
    rw [List.append_assoc] at holdsAll
    rw [Enumeration.offered, if_pos kept]
    exact holdsAll

def Exhausted (problem : Problem) (wanted : (Nat → Bool) → Bool) (found : List (Nat → Bool)) :
    Prop :=
  ∀ assignment, wanted assignment = true →
    ∃ earlier ∈ found, AgreeUpTo problem.primary earlier assignment

/-- A negative answer: all wanted assignments have been found. A backend that was loaded for it
did not notice at once that the clauses are contradictory. -/
def Denies (problem : Problem) (wanted : (Nat → Bool) → Bool) (backend : Backend σ)
    (Holds : σ → List Clause → Prop) (found : List (Nat → Bool)) (solution : Solution) : Prop :=
  solution.outcome.isSat = false ∧ solution.model = none ∧ problem.Exhausted wanted found ∧
  (problem.trivial ≠ some false → 0 < problem.primary → backend.incremental = false →
    ¬backend.Prompt Holds)

/-- An error that says that a clause was refused, although nothing is wrong: all wanted
assignments have been found, hence the clauses are contradictory. It comes from loading, so a
backend that is kept does not give it once an assignment is found. -/
def Contradicts (problem : Problem) (wanted : (Nat → Bool) → Bool) (backend : Backend σ)
    (Holds : σ → List Clause → Prop) (found : List (Nat → Bool)) (error : Error) : Prop :=
  (∃ clause ∈ problem.cnf.clauses.toList ++ found.map problem.blockingClause,
    error = .aborted (.refusedClause backend.name clause)) ∧
  problem.Exhausted wanted found ∧ (backend.incremental = true → found = []) ∧
  ¬backend.Accepts Holds

/-- What a step does: it finds an assignment that was not found before, or none is left, be it
that the backend says so or that it refuses a clause. -/
def Advances (problem : Problem) (made : (Nat → Bool) → Instance) (wanted : (Nat → Bool) → Bool)
    (backend : Backend σ) (Holds : σ → List Clause → Prop) (found : List (Nat → Bool)) (state : σ)
    (step : Solving σ (Solution × Enumeration)) : Prop :=
  (∃ solution after middle, step.run.run state = (.ok (solution, after), middle) ∧
    ((solution.outcome.isSat = true ∧ ∃ assignment, solution.model = some (made assignment) ∧
        problem.Found wanted backend Holds (found ++ [assignment]) after middle) ∨
      problem.Denies wanted backend Holds found solution)) ∨
  ∃ error middle, step.run.run state = (.error error, middle) ∧
    problem.Contradicts wanted backend Holds found error

theorem Advances.of_run_eq {found : List (Nat → Bool)} {state middle : σ}
    {step later : Solving σ (Solution × Enumeration)}
    (same : step.run.run state = later.run.run middle)
    (advances : problem.Advances made wanted backend Holds found middle later) :
    problem.Advances made wanted backend Holds found state step := by
  rw [Advances, same]
  exact advances

namespace Poses

variable (poses : problem.Poses made wanted)

include poses

theorem holds_blocked_iff (possible : problem.trivial ≠ some false) {found : List (Nat → Bool)}
    (assignment : Nat → Bool) :
    (∃ extension, AgreeUpTo problem.primary assignment extension ∧
      (problem.cnf.clauses.toList ++ found.map problem.blockingClause).all
        (Clause.holds extension) = true) ↔
    wanted assignment = true ∧
      ∀ earlier ∈ found, ¬AgreeUpTo problem.primary earlier assignment := by
  have blocked : ∀ extension, (found.map problem.blockingClause).all (Clause.holds extension) =
      true ↔ ∀ earlier ∈ found, ¬AgreeUpTo problem.primary earlier extension := by
    intro extension
    simp only [List.all_eq_true, List.forall_mem_map, holds_blockingClause]
  rw [← poses.encoded possible assignment]
  constructor
  · rintro ⟨extension, agree, holds⟩
    rw [List.all_append, Bool.and_eq_true, blocked] at holds
    exact ⟨⟨extension, agree, (Cnf.holds_eq_all _ _).trans holds.1⟩,
      fun earlier member same => holds.2 earlier member (same.trans agree)⟩
  · rintro ⟨⟨extension, agree, holds⟩, fresh⟩
    refine ⟨extension, agree, ?_⟩
    rw [List.all_append, Bool.and_eq_true, blocked]
    exact ⟨(Cnf.holds_eq_all _ _).symm.trans holds,
      fun earlier member same => fresh earlier member (same.trans agree.symm)⟩

theorem models_exact {found : List (Nat → Bool)}
    (areWanted : ∀ assignment ∈ found, wanted assignment = true)
    (distinct : found.Pairwise fun first second => ¬AgreeUpTo problem.primary first second)
    (exhausted : problem.Exhausted wanted found) :
    (found.map made).Nodup ∧ ∀ model, model ∈ found.map made ↔
      ∃ holds, wanted holds = true ∧ problem.decode? holds = .ok model := by
  constructor
  · refine List.pairwise_map.mpr (distinct.imp fun differ same => differ ?_)
    exact (poses.distinguished _ _).mp same
  · intro model
    rw [List.mem_map]
    constructor
    · rintro ⟨assignment, member, rfl⟩
      exact ⟨assignment, areWanted assignment member, poses.decoded assignment⟩
    · rintro ⟨holds, isWanted, isDecoded⟩
      rcases exhausted holds isWanted with ⟨assignment, member, agree⟩
      refine ⟨assignment, member, ?_⟩
      rw [(poses.distinguished _ _).mpr agree]
      exact Except.ok.inj ((poses.decoded holds).symm.trans isDecoded)

theorem exhausted_of_unsat (possible : problem.trivial ≠ some false) {found : List (Nat → Bool)}
    (unsat : ¬Clause.Satisfiable
      (problem.cnf.clauses.toList ++ found.map problem.blockingClause)) :
    problem.Exhausted wanted found := by
  intro assignment isWanted
  by_contra none
  push Not at none
  rcases (poses.holds_blocked_iff possible assignment).mpr ⟨isWanted, none⟩ with
    ⟨extension, -, satisfied⟩
  exact unsat ⟨extension, satisfied⟩

section

variable (decides : backend.Decides Holds) (detects : backend.Detects Holds)
  (answers : backend.Answers Holds problem.cnf.variableCount) {found : List (Nat → Bool)}
  {enumeration : Enumeration} {state : σ}
  (progress : problem.Found wanted backend Holds found enumeration state)

include decides detects answers progress

private theorem advances_answer (possible : problem.trivial ≠ some false)
    (positive : 0 < problem.primary) {loaded : σ}
    (holds : Holds loaded (problem.cnf.clauses.toList ++ enumeration.blocking))
    (noticed : backend.incremental = false → backend.Prompt Holds →
      Clause.Satisfiable (problem.cnf.clauses.toList ++ enumeration.blocking)) :
    problem.Advances made wanted backend Holds found loaded (enumeration.answer backend) := by
  have same := progress.problem_eq
  subst same
  rcases answers.solved holds with ⟨answer, asked, ran⟩
  cases answer with
  | false =>
      have unsat : ¬Clause.Satisfiable
          (enumeration.problem.cnf.clauses.toList ++ enumeration.blocking) := by
        intro satisfiable
        cases (decides.answered holds ran).mpr satisfiable
      refine .inl ⟨enumeration.problem.unsatisfiable, enumeration, asked, ?_,
        .inr ⟨rfl, rfl, ?_, fun _ _ rebuilt prompt => unsat (noticed rebuilt prompt)⟩⟩
      · rw [Enumeration.answer, Solving.run_bind_ok ran]
        rfl
      · rw [progress.blocking_eq] at unsat
        exact poses.exhausted_of_unsat possible unsat
  | true =>
      rcases decides.satisfied holds ran with ⟨held, satisfied⟩
      rw [progress.blocking_eq] at satisfied
      have isWanted := ((poses.holds_blocked_iff possible (backend.value asked)).mp
        ⟨_, fun _ _ _ => rfl, satisfied⟩).1
      refine .inl ⟨_, _, _, Enumeration.answer_of_sat ran (poses.satisfiable?_eq _),
        .inl ⟨rfl, _, rfl, progress.ruleOut decides holds ran isWanted fun _ held => ?_⟩⟩
      -- the clause is held whether or not the backend says that it contradicts the others
      rcases added : (backend.addClause
        (enumeration.problem.blockingClause (backend.value asked))).run asked with ⟨accepted, after⟩
      cases accepted with
      | true => exact decides.accepted held added
      | false => exact (detects held (blockingClause_ne_nil positive _) added).1

private theorem advances_ask (possible : problem.trivial ≠ some false)
    (positive : 0 < problem.primary) :
    problem.Advances made wanted backend Holds found state (enumeration.ask backend) := by
  rw [Enumeration.ask_eq]
  split
  · rename_i kept
    refine poses.advances_answer decides detects answers progress possible positive
      (progress.held positive kept) fun rebuilt => ?_
    rw [rebuilt, Bool.and_false] at kept
    cases kept
  · have nonempty : ∀ clause ∈ problem.cnf.clauses.toList ++ enumeration.blocking,
        clause ≠ [] := by
      rw [progress.blocking_eq, List.forall_mem_append, List.forall_mem_map]
      exact ⟨poses.nonempty, fun _ _ => blockingClause_ne_nil positive _⟩
    rename_i fresh
    rw [progress.problem_eq]
    rcases Backend.load_detects decides detects answers nonempty state with
      ⟨loaded, ran, holds⟩ | ⟨clause, member, after, ran, unsat, accepts⟩
    · apply Advances.of_run_eq (Solving.run_bind_ok ran _)
      exact poses.advances_answer decides detects answers progress possible positive holds
        fun _ prompt => Backend.satisfiable_of_loads decides prompt nonempty
          (Backend.load_eq_ok_iff.mp ran)
    · rw [progress.blocking_eq] at member unsat
      refine .inr ⟨_, after, Solving.run_bind_error ran _, ⟨clause, member, rfl⟩,
        poses.exhausted_of_unsat possible unsat, fun incremental => ?_, accepts⟩
      by_contra some
      rw [progress.kept positive some, incremental] at fresh
      exact fresh rfl

omit decides detects answers in
private theorem advances_single (folded : problem.trivial = some true)
    (none : problem.primary = 0) : problem.Advances made wanted backend Holds found state (do
      let after := { enumeration with blocking := enumeration.blocking ++ [[]] }
      if enumeration.blocking.isEmpty then return (← problem.triviallySatisfiable?, after)
      else return (problem.triviallyUnsatisfiable, after)) := by
  have agree : ∀ first second, AgreeUpTo problem.primary first second := by
    intro first second number positive le
    omega
  let after : Enumeration := { enumeration with blocking := enumeration.blocking ++ [[]] }
  dsimp only
  cases found with
  | nil =>
      have empty : enumeration.blocking.isEmpty = true := by rw [progress.blocking_eq]; rfl
      have clause : problem.blockingClause (fun _ => false) = [] := by
        rw [blockingClause, none]
        rfl
      let solution : Solution :=
        ⟨.triviallySatisfiable, some (made fun _ => false), problem.statistics⟩
      have decoded : ((problem.triviallySatisfiable? : Except Error Solution) :
          Solving σ Solution).run.run state = (.ok solution, state) := by
        change (problem.triviallySatisfiable?, state) = _
        rw [poses.triviallySatisfiable?_eq]
      rw [if_pos empty]
      refine .inl ⟨solution, after, state, ?_, .inl ⟨rfl, fun _ => false, rfl, ?_⟩⟩
      · rw [Solving.run_bind_ok decoded]
        rfl
      · refine progress.concat (poses.folded folded _) (List.forall_mem_nil _) progress.problem_eq
          progress.waiting (by rw [clause]) (fun some => ?_) fun some => ?_
        all_goals omega
  | cons earlier others =>
      have blocked : ¬enumeration.blocking.isEmpty = true := by
        rw [progress.blocking_eq]
        exact Bool.false_ne_true
      rw [if_neg blocked]
      exact .inl ⟨problem.triviallyUnsatisfiable, after, state, rfl, .inr ⟨rfl, rfl,
        fun assignment _ => ⟨earlier, List.mem_cons_self, agree earlier assignment⟩,
        fun _ positive => absurd none positive.ne'⟩⟩

theorem advances_step :
    problem.Advances made wanted backend Holds found state (enumeration.step backend) := by
  have same := progress.problem_eq
  subst same
  have asked := poses.advances_ask decides detects answers progress
  unfold Enumeration.step
  dsimp only
  split
  · rename_i folded
    refine .inl ⟨enumeration.problem.triviallyUnsatisfiable, enumeration, state, rfl,
      .inr ⟨rfl, rfl, fun assignment isWanted => ?_, absurd folded⟩⟩
    cases (poses.folded folded assignment).symm.trans isWanted
  · rename_i folded
    split
    · rename_i none
      exact poses.advances_single progress folded none
    · rename_i some
      exact asked (by rw [folded]; simp) (Nat.pos_of_ne_zero some)
  · rename_i folded
    exact asked (by rw [folded]; simp) (poses.unfolded folded)

/-- From any state on, an enumeration finds the wanted assignments that it has not found yet,
one after the other. Then it says that there are none left, or it takes the contradiction
that it has come to for a failure. -/
theorem exists_run : ∃ (others : List (Nat → Bool)) (solutions : List Solution)
    (last : Except Error Solution), (∀ solution ∈ solutions, solution.outcome.isSat = true) ∧
      solutions.map Solution.model = others.map (fun assignment => some (made assignment)) ∧
      (∀ assignment ∈ found ++ others, wanted assignment = true) ∧
      (found ++ others).Pairwise
        (fun first second => ¬AgreeUpTo problem.primary first second) ∧
      problem.Exhausted wanted (found ++ others) ∧
      ((∃ solution, last = .ok solution ∧
          problem.Denies wanted backend Holds (found ++ others) solution) ∨
        ∃ error, last = .error error ∧
          problem.Contradicts wanted backend Holds (found ++ others) error) ∧
      enumeration.Gives backend state (solutions.map .ok ++ [last]) := by
  -- every step leaves fewer values of the variables that can still be found
  induction remaining : 2 ^ problem.primary - found.length using Nat.strong_induction_on
    generalizing found enumeration state with
  | _ remaining hypothesis =>
      have wanted := progress.wanted
      have distinct := progress.distinct
      rw [← List.append_nil found] at wanted distinct
      rcases poses.advances_step decides detects answers progress with
        ⟨solution, after, middle, ran, advanced⟩ | ⟨error, middle, ran, contradicts⟩
      · rcases advanced with ⟨isSat, assignment, isModel, further⟩ | denies
        · have measured := length_le_of_distinct further.distinct
          rw [List.length_append, List.length_singleton] at measured
          have next := Enumeration.next_of_sat progress.waiting ran isSat further.waiting
          rcases hypothesis _ (by rw [List.length_append, List.length_singleton]; omega) further
            rfl with ⟨others, solutions, last, areSat, models, areWanted, disagree, exhausted,
              ends, gives⟩
          rw [List.append_assoc, List.singleton_append] at areWanted disagree exhausted ends
          refine ⟨assignment :: others, solution :: solutions, last,
            List.forall_mem_cons.mpr ⟨isSat, areSat⟩, ?_, areWanted, disagree, exhausted, ends,
            Enumeration.gives_cons next gives⟩
          rw [List.map_cons, List.map_cons, isModel, models]
        · have next := Enumeration.next_of_step progress.waiting ran
          rw [← List.append_nil found] at denies
          refine ⟨[], [], .ok solution, List.forall_mem_nil _, rfl, wanted, distinct,
            denies.2.2.1, .inl ⟨solution, rfl, denies⟩,
            Enumeration.gives_cons next (Enumeration.gives_nil ?_)⟩
          rw [denies.1]
          rfl
      · have next := Enumeration.next_of_failure progress.waiting ran
        rw [← List.append_nil found] at contradicts
        exact ⟨[], [], .error error, List.forall_mem_nil _, rfl, wanted, distinct,
          contradicts.2.1, .inr ⟨error, rfl, contradicts⟩,
          Enumeration.gives_cons next (Enumeration.gives_nil rfl)⟩

end

theorem exists_gives (decides : backend.Decides Holds) (accepts : backend.Accepts Holds)
    (answers : backend.Answers Holds problem.cnf.variableCount) {found : List (Nat → Bool)}
    {enumeration : Enumeration} {state : σ}
    (progress : problem.Found wanted backend Holds found enumeration state) :
    ∃ (others : List (Nat → Bool)) (solutions : List Solution)
    (last : Solution), (∀ solution ∈ solutions, solution.outcome.isSat = true) ∧
      solutions.map Solution.model = others.map (fun assignment => some (made assignment)) ∧
      (∀ assignment ∈ found ++ others, wanted assignment = true) ∧
      (found ++ others).Pairwise
        (fun first second => ¬AgreeUpTo problem.primary first second) ∧
      problem.Exhausted wanted (found ++ others) ∧
      last.outcome.isSat = false ∧ last.model = none ∧
      enumeration.Gives backend state ((solutions ++ [last]).map .ok) := by
  rcases poses.exists_run decides accepts.detects answers progress with
    ⟨others, solutions, last, areSat, models, areWanted, distinct, exhausted, ends, gives⟩
  rcases ends with ⟨solution, rfl, isUnsat, missing, -⟩ | ⟨error, -, -, -, -, refuses⟩
  · refine ⟨others, solutions, solution, areSat, models, areWanted, distinct, exhausted, isUnsat,
      missing, ?_⟩
    rw [List.map_append]
    exact gives
  · exact (refuses accepts).elim

end Poses

end Problem

section

variable {formula : Formula} {bounds : Bounds} {bitwidth : Nat} (made : bounds.Made)
  (inRange : bounds.InRange) (labels : (bounds.openCount : Int) ≤ Circuit.maxLabel)
  (countable : bounds.Countable) {compiled : Compiled Bit}
  (ran : formula.compiled? bounds bitwidth = .ok compiled)
  {backend : Backend σ} {Holds : σ → List Clause → Prop} (decides : backend.Decides Holds)
  (accepts : backend.Accepts Holds) (answers : ∀ count, backend.Answers Holds count)

include made inRange labels countable ran decides accepts answers

/-- Enumeration is exact. It gives positive answers with instances of their own, which are the
instances of those assignments that make the formula's bit true, then a single negative
answer, and then nothing any more. -/
theorem Formula.enumeration_exact (state : σ) :
    ∃ enumeration, formula.enumerate? bounds bitwidth = .ok enumeration ∧
    ∃ (solutions : List Solution) (models : List Instance) (last : Solution),
      enumeration.Gives backend state ((solutions ++ [last]).map .ok) ∧
      (∀ solution ∈ solutions, solution.outcome.isSat = true) ∧
      solutions.map Solution.model = models.map some ∧ models.Nodup ∧
      (∀ model, model ∈ models ↔ ∃ holds, compiled.value.eval holds = true ∧
        decodeInstance? bounds compiled.leaves.layout holds = .ok model) ∧
      last.outcome.isSat = false ∧ last.model = none := by
  rcases formula.poses made labels inRange countable ran with ⟨laid, same, poses⟩
  let problem := Problem.ofCompiled bounds compiled
  refine ⟨.ofProblem problem, by rw [enumerate?, Problem.ofFormula?_eq, ran]; rfl, ?_⟩
  have start := Problem.Found.start problem compiled.value.eval backend Holds state
  rcases poses.exists_gives decides accepts (answers _) start with
    ⟨found, solutions, last, areSat, models, wanted, distinct, exhausted, isUnsat, missing, gives⟩
  rw [List.nil_append] at wanted distinct exhausted
  rcases poses.models_exact wanted distinct exhausted with ⟨nodup, complete⟩
  exact ⟨solutions, found.map compiled.leaves.decoded, last, gives, areSat,
    models.trans List.map_map.symm, nodup, complete, isUnsat, missing⟩

end

theorem enumeration_exact_pet :
    ∃ (compiled : Compiled Bit) (enumeration : Enumeration) (models : List Instance),
    onePet.compiled? petBounds 4 = .ok compiled ∧
    onePet.enumerate? petBounds 4 = .ok enumeration ∧
    (∃ solutions last, enumeration.Gives (Backend.exhaustive false) ([], 0)
      ((solutions ++ [last]).map .ok) ∧ solutions.map Solution.model = models.map some ∧
      last.outcome.isSat = false) ∧
    compiled.leaves.decoded (· == 1) ∈ models := by
  have value : (onePet.compiled? petBounds 4).toOption.map (fun compiled =>
      compiled.value.eval (· == 1)) = some true := by decide +kernel
  rcases Except.exists_ok_of_map value with ⟨compiled, compiles, isTrue⟩
  have labels : (petBounds.openCount : Int) ≤ Circuit.maxLabel := by decide +kernel
  have inRange := petBounds_inRange
  have countable := petBounds_countable
  rcases Formula.enumeration_exact petBounds_made inRange labels countable compiles
    (Backend.exhaustive_decides false) (Backend.exhaustive_accepts false)
    (Backend.exhaustive_answers false) ([], 0) with
    ⟨enumeration, starts, solutions, models, last, gives, -, found, -, complete, isUnsat, -⟩
  have poses := (onePet.poses petBounds_made labels inRange countable compiles).2.2
  exact ⟨compiled, enumeration, models, compiles, starts, ⟨solutions, last, gives, found, isUnsat⟩,
    (complete _).mpr ⟨_, isTrue, poses.decoded _⟩⟩

/-- Without open tuples the formula is true in one instance, yet its enumeration fails at once with
an error, whatever the backend. -/
def Bounds.FailsToEnumerate (bounds : Bounds) (error : Error) : Prop :=
  ∃ (compiled : Compiled Bit) (enumeration : Enumeration),
    (Formula.literal true).compiled? bounds 4 = .ok compiled ∧ compiled.leaves.primary = 0 ∧
    (∀ holds, compiled.value.eval holds = true) ∧
    (Formula.literal true).enumerate? bounds 4 = .ok enumeration ∧
    ∀ (σ : Type) (backend : Backend σ) (state : σ), enumeration.Gives backend state [.error error]

theorem Bounds.exists_failsToEnumerate {bounds : Bounds} {expected : Error → Prop}
    (folds : ((Formula.literal true).compiled? bounds 4).toOption.map (fun compiled =>
      (compiled.value.const?, compiled.leaves.primary)) = some (some true, 0))
    (refuses : ∀ {leaves}, Leaves.ofBounds? bounds = .ok leaves → ∃ error, expected error ∧
      decodeInstance? bounds leaves.layout (fun _ => false) = .error error) :
    ∃ error, expected error ∧ bounds.FailsToEnumerate error := by
  rcases Except.exists_ok_of_map folds with ⟨compiled, compiles, folded⟩
  rcases Prod.mk.inj folded with ⟨isTrue, none⟩
  rcases Compiled.of_run? compiles with ⟨-, -, -, allocated, -⟩
  rcases refuses allocated with ⟨error, isExpected, refused⟩
  let problem := Problem.ofCompiled bounds compiled
  refine ⟨error, isExpected, compiled, .ofProblem problem, compiles, none, fun holds => ?_, ?_, ?_⟩
  · rw [Bit.eq_const_of_const? isTrue, Bit.eval]
  · rw [Formula.enumerate?, Problem.ofFormula?_eq, compiles]
    rfl
  · intro σ backend state
    have failed : problem.triviallySatisfiable? = .error error := by
      have decodes : decodeInstance? problem.bounds problem.layout (fun _ => false) =
          .error error := refused
      rw [Problem.triviallySatisfiable?, Problem.decode?, decodes]
      rfl
    have trivial : problem.trivial = some true := isTrue
    have single : problem.primary = 0 := none
    have ran : ((Enumeration.ofProblem problem).step backend).run.run state =
        (.error error, state) := by
      rw [Enumeration.step]
      simp only [Enumeration.ofProblem, trivial, single, failed]
      rfl
    exact Enumeration.gives_cons (Enumeration.next_of_failure rfl ran)
      (Enumeration.gives_nil rfl)

/-- Enumerations fail where the tuples of a relation cannot be counted, and where what a relation
holds is no tuple. -/
theorem enumeration_refused :
    (allianceBounds.Made ∧ allianceBounds.InRange ∧
      allianceBounds.FailsToEnumerate (.violation .overflow)) ∧
    TupleSet.stray.Joined ∧ strayBounds.Made ∧ strayBounds.Countable ∧ ∃ last,
      strayBounds.FailsToEnumerate (.invalidArgument (.indexOutOfRange last 1)) := by
  constructor
  · have refuses : ∀ {leaves}, Leaves.ofBounds? allianceBounds = .ok leaves → ∃ error,
        error = .violation .overflow ∧
          decodeInstance? allianceBounds leaves.layout (fun _ => false) = .error error :=
      fun allocated => ⟨_, rfl, allianceBounds_refuses allocated _⟩
    rcases Bounds.exists_failsToEnumerate (by decide +kernel) refuses with ⟨_, rfl, fails⟩
    exact ⟨allianceBounds_made, allianceBounds_inRange, fails⟩
  · have refuses : ∀ {leaves}, Leaves.ofBounds? strayBounds = .ok leaves → ∃ error,
        (∃ last, error = .invalidArgument (.indexOutOfRange last 1)) ∧
          decodeInstance? strayBounds leaves.layout (fun _ => false) = .error error := by
      intro leaves allocated
      rcases strayBounds_refuses allocated fun _ => false with ⟨last, refused⟩
      exact ⟨_, ⟨last, rfl⟩, refused⟩
    rcases Bounds.exists_failsToEnumerate (by decide +kernel) refuses with ⟨_, ⟨last, rfl⟩, fails⟩
    exact ⟨TupleSet.stray_joined.1, strayBounds_made, strayBounds_countable, last, fails⟩

end ModelFinder
