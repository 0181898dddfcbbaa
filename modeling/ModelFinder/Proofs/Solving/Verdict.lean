import Mathlib
import ModelFinder.Proofs.Solving.Problem
/-!
Verdicts. Solving a formula with a backend that decides clauses gives an instance that the
formula does not rule out, or no instance where there is none to be found.
-/

namespace ModelFinder

namespace Problem

variable {σ : Type} {problem : Problem} {made : (Nat → Bool) → Instance}
  {wanted : (Nat → Bool) → Bool} {backend : Backend σ} {Holds : σ → List Clause → Prop}

/-- What a solution says about the assignments that a problem asks for. -/
def Answered (made : (Nat → Bool) → Instance) (wanted : (Nat → Bool) → Bool)
    (solution : Solution) : Prop :=
  (solution.outcome.isSat = true ∧
    ∃ assignment, wanted assignment = true ∧ solution.model = some (made assignment)) ∨
  (solution.outcome.isSat = false ∧ solution.model = none ∧
    ∀ assignment, wanted assignment = false)

namespace Poses

variable (poses : problem.Poses made wanted)

include poses

theorem triviallySatisfiable?_eq :
    problem.triviallySatisfiable? =
      .ok ⟨.triviallySatisfiable, some (made fun _ => false), problem.statistics⟩ := by
  rw [triviallySatisfiable?, poses.decoded]
  rfl

theorem satisfiable?_eq (holds : Nat → Bool) :
    problem.satisfiable? holds =
      .ok ⟨.satisfiable, some (made holds), problem.statistics⟩ := by
  rw [satisfiable?, poses.decoded]
  rfl

theorem wanted_of_holds (possible : problem.trivial ≠ some false) {assignment : Nat → Bool}
    (holds : problem.cnf.clauses.toList.all (Clause.holds assignment) = true) :
    wanted assignment = true := by
  apply (poses.encoded possible assignment).mp
  exact ⟨assignment, fun _ _ _ => rfl, (Cnf.holds_eq_all _ _).trans holds⟩

theorem satisfiable_iff (possible : problem.trivial ≠ some false) :
    Clause.Satisfiable problem.cnf.clauses.toList ↔ ∃ assignment, wanted assignment = true := by
  constructor
  · rintro ⟨assignment, holds⟩
    exact ⟨assignment, poses.wanted_of_holds possible holds⟩
  · rintro ⟨assignment, isWanted⟩
    rcases (poses.encoded possible assignment).mpr isWanted with ⟨extension, -, holds⟩
    exact ⟨extension, (Cnf.holds_eq_all _ _).symm.trans holds⟩

private theorem answered_of_asked (decides : backend.Decides Holds)
    (possible : problem.trivial ≠ some false) {loaded after : σ} {solution : Solution}
    (holds : Holds loaded problem.cnf.clauses.toList)
    (ran : (do
        if ← backend.solve then problem.satisfiable? (backend.value (← get))
        else return problem.unsatisfiable : Solving σ Solution).run.run loaded =
      (.ok solution, after)) : Answered made wanted solution := by
  rcases Solving.of_run_bind ran with ⟨answer, middle, asked, ran⟩
  cases answer with
  | true =>
      have satisfied := (decides.satisfied holds asked).2
      change ((problem.satisfiable? (backend.value middle)), middle) = _ at ran
      rw [poses.satisfiable?_eq] at ran
      cases ran
      exact .inl ⟨rfl, _, poses.wanted_of_holds possible satisfied, rfl⟩
  | false =>
      cases ran
      refine .inr ⟨rfl, rfl, fun assignment => Bool.eq_false_iff.mpr fun isWanted => ?_⟩
      have satisfiable := (poses.satisfiable_iff possible).mpr ⟨assignment, isWanted⟩
      cases (decides.answered holds asked).mpr satisfiable

/-- A solution of a problem has the instance of a wanted assignment, unless none is wanted. -/
theorem answered_of_solve (decides : backend.Decides Holds) {state after : σ}
    {solution : Solution}
    (ran : (problem.solve backend).run.run state = (.ok solution, after)) :
    Answered made wanted solution := by
  unfold solve at ran
  cases trivial : problem.trivial with
  | some answer =>
      cases answer with
      | true =>
          rw [trivial] at ran
          dsimp only at ran
          rw [poses.triviallySatisfiable?_eq] at ran
          cases ran
          exact .inl ⟨rfl, _, poses.folded trivial _, rfl⟩
      | false =>
          rw [trivial] at ran
          cases ran
          exact .inr ⟨rfl, rfl, poses.folded trivial⟩
  | none =>
      rw [trivial] at ran
      rcases Solving.of_run_bind ran with ⟨_, loaded, loading, ran⟩
      have holds := Backend.load_holds decides
        (by rw [List.append_nil]; exact poses.nonempty) loading
      rw [List.append_nil] at holds
      exact poses.answered_of_asked decides (by rw [trivial]; simp) holds ran

theorem solve_succeeds (decides : backend.Decides Holds) (accepts : backend.Accepts Holds)
    (answers : backend.Answers Holds problem.cnf.variableCount) (state : σ) :
    ∃ solution after, (problem.solve backend).run.run state = (.ok solution, after) := by
  unfold solve
  cases trivial : problem.trivial with
  | some answer =>
      cases answer with
      | true =>
          dsimp only
          rw [poses.triviallySatisfiable?_eq]
          exact ⟨_, state, rfl⟩
      | false => exact ⟨_, state, rfl⟩
  | none =>
      have nonempty : ∀ clause ∈ problem.cnf.clauses.toList ++ [], clause ≠ [] := by
        rw [List.append_nil]
        exact poses.nonempty
      rcases Backend.load_run decides accepts answers nonempty state with
        ⟨loaded, loading, holds⟩
      rcases answers.solved holds with ⟨answer, middle, asked⟩
      dsimp only
      rw [Solving.run_bind_ok loading, Solving.run_bind_ok asked]
      cases answer with
      | true =>
          refine ⟨⟨.satisfiable, some (made (backend.value middle)), problem.statistics⟩,
            middle, ?_⟩
          change (problem.satisfiable? (backend.value middle), middle) = _
          rw [poses.satisfiable?_eq]
      | false => exact ⟨_, middle, rfl⟩

end Poses

end Problem

section

variable {formula : Formula} {bounds : Bounds} {bitwidth : Nat} (made : bounds.Made)
  (inRange : bounds.InRange) (labels : (bounds.openCount : Int) ≤ Circuit.maxLabel)
  (countable : bounds.Countable) (formed : formula.Every SyntaxCheck.formed)
  (counted : formula.Every (.and (.counted bounds.univ.size) .joinable))

variable {σ : Type} {backend : Backend σ} {Holds : σ → List Clause → Prop}
  (decides : backend.Decides Holds) (accepts : backend.Accepts Holds)

include made inRange labels countable formed counted decides accepts

/-- Solving is sound and complete. A positive solution has an instance within the bounds over
which evaluation does not make the formula false. With a negative one there is no instance in
the solution, and over no instance within the bounds does evaluation make the formula true.
A formula that compiles is solved by every backend that always answers. -/
theorem Formula.solve_sound_and_complete (state : σ) :
    (∀ solution after,
      (formula.solve bounds bitwidth backend).run.run state = (.ok solution, after) →
      (solution.outcome.isSat = true → ∃ model, solution.model = some model ∧
        bounds.Admits model ∧ model.formula? bitwidth formula ≠ .ok false) ∧
      (solution.outcome.isSat = false → solution.model = none ∧
        ∀ model, bounds.Admits model → model.formula? bitwidth formula ≠ .ok true)) ∧
    ∀ compiled, formula.compiled? bounds bitwidth = .ok compiled →
      (∀ count, backend.Answers Holds count) →
      ∃ solution after,
        (formula.solve bounds bitwidth backend).run.run state = (.ok solution, after) := by
  have solved : ∀ compiled, formula.compiled? bounds bitwidth = .ok compiled →
      (formula.solve bounds bitwidth backend).run.run state =
        ((Problem.ofCompiled bounds compiled).solve backend).run.run state := by
    intro compiled ran
    rw [Formula.solve, Problem.ofFormula?_eq, ran]
    rfl
  constructor
  · intro solution after ran
    cases compiles : formula.compiled? bounds bitwidth with
    | error error =>
        rw [Formula.solve, Problem.ofFormula?_eq, compiles] at ran
        cases ran
    | ok compiled =>
        rw [solved compiled compiles] at ran
        rcases formula.poses made labels inRange countable compiles with ⟨laid, same, poses⟩
        have evaluated : ∀ {assignment model}, compiled.leaves.Realizes assignment model →
            ∀ {answer}, model.formula? bitwidth formula = .ok answer →
              answer = compiled.value.eval assignment := by
          intro assignment model realizes answer found
          rcases (formula.compiled_agrees made inRange labels formed counted compiles
            realizes).2.2.2 with agrees | ⟨-, left, op, right, failed⟩
          · exact Except.ok.inj (found.symm.trans agrees)
          · cases found.symm.trans failed
        rcases poses.answered_of_solve decides ran with
          ⟨isSat, assignment, isWanted, decoded⟩ | ⟨isUnsat, missing, unwanted⟩
        · refine ⟨fun _ => ⟨_, decoded, ?_, fun found => ?_⟩, fun isUnsat => ?_⟩
          · rw [← same, laid.admits_iff]
            exact ⟨assignment, laid.realizes_decoded assignment⟩
          · cases (evaluated (laid.realizes_decoded assignment) found).trans isWanted
          · cases isSat.symm.trans isUnsat
        · refine ⟨fun isSat => ?_, fun _ => ⟨missing, fun model admitted found => ?_⟩⟩
          · cases isSat.symm.trans isUnsat
          · rw [← same, laid.admits_iff] at admitted
            rcases admitted with ⟨assignment, realizes⟩
            cases (evaluated realizes found).trans (unwanted assignment)
  · intro compiled compiles answers
    rw [solved compiled compiles]
    exact (formula.poses made labels inRange countable compiles).2.2.solve_succeeds decides accepts
      (answers _) state

end

theorem solve_sound_and_complete_pet : ∃ solution after model,
    (onePet.solve petBounds 4 (Backend.exhaustive true)).run.run ([], 0) =
      (.ok solution, after) ∧
    solution.outcome.isSat = true ∧ solution.model = some model ∧ petBounds.Admits model ∧
    model.formula? 4 onePet ≠ .ok false := by
  have labels : (petBounds.openCount : Int) ≤ Circuit.maxLabel := by decide +kernel
  have solves := @Formula.solve_sound_and_complete onePet petBounds 4 petBounds_made
    petBounds_inRange labels petBounds_countable onePet_formed onePet_counted _ _ _
    (Backend.exhaustive_decides true) (Backend.exhaustive_accepts true) ([], 0)
  have value : (onePet.compiled? petBounds 4).toOption.map (fun compiled =>
      compiled.value.eval (· == 1)) = some true := by decide +kernel
  rcases Except.exists_ok_of_map value with ⟨compiled, compiles, isTrue⟩
  rcases solves.2 compiled compiles (Backend.exhaustive_answers true) with
    ⟨solution, after, ran⟩
  cases isSat : solution.outcome.isSat with
  | true =>
      rcases (solves.1 solution after ran).1 isSat with ⟨model, decoded, admitted, possible⟩
      exact ⟨solution, after, model, ran, isSat, decoded, admitted, possible⟩
  | false =>
      rcases onePet.poses petBounds_made labels petBounds_inRange petBounds_countable
        compiles with ⟨laid, same, -⟩
      have realizes := laid.realizes_decoded (· == 1)
      have admitted : petBounds.Admits (compiled.leaves.decoded (· == 1)) := by
        rw [← same, laid.admits_iff]
        exact ⟨_, realizes⟩
      have refuted := ((solves.1 solution after ran).2 isSat).2 _ admitted
      rcases (onePet.compiled_agrees petBounds_made petBounds_inRange labels onePet_formed
        onePet_counted compiles realizes).2.2.2 with agrees | ⟨divides, -⟩
      · rw [isTrue] at agrees
        exact absurd agrees refuted
      · exact absurd ⟨trivial, trivial⟩ divides

/-! Pets next to a relation that holds more than atoms. -/

def dogPair : Relation := ⟨2, "DogPair", 2⟩

def bothDogs : TupleSet := ⟨animals, 2, .ofList [3]⟩

def strayPets : Bounds :=
  ⟨animals, [⟨pet, .empty animals 1, ⟨animals, 1, .ofList [0, 1]⟩⟩,
    ⟨stranger, .strayDog, .strayDog⟩, ⟨dogPair, bothDogs, bothDogs⟩], ∅⟩

/-- The pets and the strangers include the pair of the dog with itself, and no pet is a stranger. -/
def pairedApart : Formula :=
  .binary .and
    (.multiplicity .some (.binary .intersection
      (.binary .product (.relation pet) (.relation stranger) 2) (.relation dogPair) 2))
    (.multiplicity .no (.binary .intersection (.relation pet) (.relation stranger) 1))

def catOnly : Instance :=
  ⟨animals, [(pet, ⟨animals, 1, .ofList [0]⟩), (stranger, .strayDog), (dogPair, bothDogs)], ∅⟩

theorem strayPets_made : strayPets.Made := by
  have strangers : TupleSet.strayDog.isSubset .strayDog = true := by decide +kernel
  have pairs : bothDogs.isSubset bothDogs = true := by decide +kernel
  have second : petBounds.bindExactly? stranger .strayDog = .ok { petBounds with
      entries := petBounds.entries ++ [⟨stranger, .strayDog, .strayDog⟩] } :=
    Bounds.bind?_of_isSubset rfl rfl rfl rfl strangers
  have third : Bounds.bindExactly? { petBounds with
      entries := petBounds.entries ++ [⟨stranger, .strayDog, .strayDog⟩] } dogPair bothDogs =
      .ok strayPets :=
    Bounds.bind?_of_isSubset rfl rfl rfl rfl pairs
  exact .bind (.bind petBounds_made second) third

theorem pairedApart_fits : pairedApart.Fits strayPets where
  made := strayPets_made
  labels := by decide +kernel
  countable entry member := by
    fin_cases member <;> decide
  formed := by
    refine ⟨trivial, ⟨trivial, rfl, ⟨rfl, rfl, rfl⟩, rfl⟩, trivial, rfl, rfl, rfl⟩
  counted := by
    have atoms : 2 ^ 1 < Index.limit := by decide
    have pairs : 2 ^ 2 < Index.limit := by decide
    exact ⟨trivial, ⟨trivial, pairs, ⟨pairs, atoms, atoms⟩, pairs⟩, trivial, atoms, atoms, atoms⟩

theorem catOnly_admitted : strayPets.Admits catOnly where
  univ := rfl
  intAtoms := rfl
  between entry member := by
    fin_cases member
    · refine ⟨⟨animals, 1, .ofList [0]⟩, rfl, rfl, rfl, fun index => ⟨fun held => ?_, ?_⟩⟩
      · simp at held
      · rw [TupleSet.containsIndex_ofList, TupleSet.containsIndex_ofList]
        simp only [List.contains_cons, List.contains_nil, Bool.or_false, Bool.or_eq_true]
        exact .inl
    · exact ⟨.strayDog, rfl, rfl, rfl, fun index => ⟨id, id⟩⟩
    · exact ⟨bothDogs, rfl, rfl, rfl, fun index => ⟨id, id⟩⟩

theorem catOnly_value : catOnly.formula? 4 pairedApart = .ok true :=
  Except.toOption_eq_some_iff.mp (by decide +kernel)

/-- Where relations may hold more than tuples, a negative verdict may be wrong. The pair of the dog
with itself has the position of the cat together with what is no atom, and its cell in the matrix of
the product is that of the dog. So the formula comes down to false, although evaluation makes it
true over an instance within the bounds. -/
theorem solve_unsound : TupleSet.strayDog.Joined ∧ pairedApart.Fits strayPets ∧
    pairedApart.Every .joinable ∧ strayPets.Admits catOnly ∧
    catOnly.formula? 4 pairedApart = .ok true ∧
    ∀ {σ : Type} (backend : Backend σ) (state : σ), ∃ solution,
      (pairedApart.solve strayPets 4 backend).run.run state = (.ok solution, state) ∧
      solution.outcome = .triviallyUnsatisfiable := by
  have joinable : pairedApart.Every .joinable :=
    ⟨trivial, ⟨trivial, trivial, ⟨trivial, trivial, trivial⟩, trivial⟩, trivial, trivial, trivial,
      trivial⟩
  refine ⟨TupleSet.strayDog_joined.1, pairedApart_fits, joinable, catOnly_admitted, catOnly_value,
    fun backend state => ?_⟩
  have folds : (pairedApart.compiled? strayPets 4).toOption.map (fun compiled =>
      compiled.value.const?) = some (some false) := by decide +kernel
  rcases Except.exists_ok_of_map folds with ⟨compiled, ran, folded⟩
  refine ⟨(Problem.ofCompiled strayPets compiled).triviallyUnsatisfiable, ?_, rfl⟩
  have trivial : (Problem.ofCompiled strayPets compiled).trivial = some false := folded
  rw [Formula.solve, Problem.ofFormula?_eq, ran]
  change ((Problem.ofCompiled strayPets compiled).solve backend).run.run state = _
  rw [Problem.solve, trivial]
  rfl

end ModelFinder
