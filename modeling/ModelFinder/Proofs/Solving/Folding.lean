import Mathlib
import ModelFinder.Proofs.Correspondence
import ModelFinder.Proofs.Circuit.Soundness
import ModelFinder.Proofs.Compile.Folding.Terms
import ModelFinder.Proofs.Solving.Verdict
/-!
Formulas over relations that are bound exactly. Such a formula comes down to a constant, which is
the answer of evaluation, without a single gate; it is solved before a backend is asked anything.
-/

namespace ModelFinder

/-- An instance that some values of the open tuples' variables are decoded to. -/
def Bounds.Decodes (bounds : Bounds) (model : Instance) : Prop :=
  ∃ leaves holds, Leaves.ofBounds? bounds = .ok leaves ∧
    decodeInstance? bounds leaves.layout holds = .ok model

/-- Nothing is left open about the relations that a formula mentions: those that are bound have
just the tuples that they may have. -/
def Formula.BoundExactly (formula : Formula) (bounds : Bounds) : Prop :=
  formula.Every (.relations fun leaf =>
    ∀ bound, bounds.bound? leaf = some bound → bound.lower = bound.upper)

theorem Leaves.tuples?_decoded_of_unbound (leaves : Leaves) (assignment : Nat → Bool)
    {leaf : Relation} (unbound : leaves.bounds.bound? leaf = none) :
    (leaves.decoded assignment).tuples? leaf = none := by
  rw [Bounds.bound?, List.find?_eq_none] at unbound
  rw [Instance.tuples?, Option.map_eq_none_iff, List.find?_eq_none]
  intro entry member
  have listed : entry.1 ∈ leaves.bounds.relations :=
    leaves.relations_decoded assignment ▸ List.mem_map_of_mem member
  rcases List.mem_map.mp listed with ⟨bound, boundMember, same⟩
  exact same ▸ unbound bound boundMember

namespace Compiled

variable {γ : Type} {bounds : Bounds} {bitwidth : Nat} {range : IntRange} {leaves : Leaves}
  {compile : Leaves → IntRange → Compile γ}

theorem run?_of_result (ranged : IntRange.ofBitwidth? bitwidth = .ok range)
    (allocated : Leaves.ofBounds? bounds = .ok leaves) (small : leaves.primary < 2147483647)
    {value : γ} {scope : Scope Matrix} (ran : (compile leaves range).run.run Scope.empty
      (.empty leaves.primary bitwidth) = ((.ok value, scope), .empty leaves.primary bitwidth)) :
    run? bounds bitwidth compile = .ok ⟨value, .empty leaves.primary bitwidth, leaves⟩ := by
  rw [run?_eq ranged allocated (Circuit.empty?_of_lt small bitwidth) ran,
    Circuit.checkLabels?_empty small bitwidth]
  rfl

theorem run?_of_failure (ranged : IntRange.ofBitwidth? bitwidth = .ok range)
    (allocated : Leaves.ofBounds? bounds = .ok leaves) {error : Error}
    (failed : ((compile leaves range).run.run Scope.empty
      (.empty leaves.primary bitwidth)).1.1 = .error error) :
    ∃ error, run? bounds bitwidth compile = .error error := by
  cases ran : run? bounds bitwidth compile with
  | error error => exact ⟨error, rfl⟩
  | ok compiled =>
      rcases of_run? ran with ⟨range', scope, ranged', allocated', succeeded⟩
      cases ranged.symm.trans ranged'
      cases allocated.symm.trans allocated'
      rw [succeeded] at failed
      cases failed

end Compiled

theorem Problem.Poses.solve_folded {problem : Problem} {made : (Nat → Bool) → Instance}
    {wanted : (Nat → Bool) → Bool} (poses : problem.Poses made wanted) {answer : Bool}
    (trivial : problem.trivial = some answer) :
    ∃ solution, solution.outcome =
        (if answer then .triviallySatisfiable else .triviallyUnsatisfiable) ∧
      ∀ {σ : Type} (backend : Backend σ) (state : σ),
        (problem.solve backend).run.run state = (.ok solution, state) := by
  cases answer with
  | true =>
      refine ⟨⟨.triviallySatisfiable, some (made fun _ => false), problem.statistics⟩, rfl,
        fun backend state => ?_⟩
      rw [Problem.solve, trivial]
      dsimp only
      rw [poses.triviallySatisfiable?_eq]
      rfl
  | false =>
      refine ⟨problem.triviallyUnsatisfiable, rfl, fun backend state => ?_⟩
      rw [Problem.solve, trivial]
      rfl

theorem Bounds.Made.exists_decodes {bounds : Bounds} (made : bounds.Made)
    (inRange : bounds.InRange) (few : bounds.openCount < 2147483648)
    (countable : bounds.Countable) : ∃ model, bounds.Decodes model := by
  have size : UInt32.size = 4294967296 := by decide
  rcases Leaves.ofBounds?_succeeds few with ⟨leaves, allocated⟩
  have laid := Leaves.laid made.sound (by omega) allocated
  obtain rfl := (Leaves.of_ofBounds? allocated).1
  exact ⟨_, leaves, fun _ => false, allocated, laid.decodeInstance?_eq_decoded inRange countable _⟩

theorem Formula.fails_of_unsupported (formula : Formula) (bounds : Bounds) (model : Instance)
    {bitwidth : Nat} {error : Error} (unsupported : IntRange.ofBitwidth? bitwidth = .error error) :
    formula.compiled? bounds bitwidth = .error error ∧
      model.formula? bitwidth formula = .error error := by
  rw [Formula.compiled?, Compiled.run?, Instance.formula?, Instance.run?, unsupported]
  exact ⟨rfl, rfl⟩

section

variable {formula : Formula} {bounds : Bounds} {bitwidth : Nat} (made : bounds.Made)
  (inRange : bounds.InRange) (labels : (bounds.openCount : Int) < Circuit.maxLabel)
  (countable : bounds.Countable) (formed : formula.Every SyntaxCheck.formed)
  (counted : formula.Every (.and (.counted bounds.univ.size) .joinable))
  (exact' : formula.BoundExactly bounds)

include made inRange labels countable formed counted exact'

/-- A formula compiles to the truth value that evaluation gives it over any instance of the
bounds, or both fail. -/
private theorem Formula.folded_or_failed {model : Instance} (decodes : bounds.Decodes model) :
    (∃ leaves answer, formula.compiled? bounds bitwidth =
        .ok ⟨.const answer, .empty leaves.primary bitwidth, leaves⟩ ∧
      model.formula? bitwidth formula = .ok answer) ∨
    (∃ error, formula.compiled? bounds bitwidth = .error error) ∧
      ∃ error, model.formula? bitwidth formula = .error error := by
  cases ranged : IntRange.ofBitwidth? bitwidth with
  | error error =>
      have fails := formula.fails_of_unsupported bounds model ranged
      exact .inr ⟨⟨error, fails.1⟩, error, fails.2⟩
  | ok range =>
      rcases decodes with ⟨leaves, holds, allocated, decoded⟩
      have size : UInt32.size = 4294967296 := by decide
      have largest : Circuit.maxLabel = 2147483647 := rfl
      have laid := Leaves.laid made.sound (by omega) allocated
      have primary := laid.primary_eq
      obtain rfl := (Leaves.of_ofBounds? allocated).1
      obtain rfl :=
        Except.ok.inj ((laid.decodeInstance?_eq_decoded inRange countable holds).symm.trans decoded)
      obtain rfl := IntRange.bitwidth_of_ofBitwidth? ranged
      have evaluates : (leaves.decoded holds).formula? range.bitwidth formula =
          ((formula.evaluate (leaves.decoded holds) range).run.run Scope.empty).1 := by
        rw [Instance.formula?, Instance.run?, ranged]
        rfl
      have certain : Setting.Certain ⟨leaves, range, leaves.decoded holds, holds, False⟩ :=
        ⟨Compiled.sound_setting made inRange labels.le allocated range (laid.realizes_decoded holds)
          False, id, fun _ => leaves.tuples?_decoded_of_unbound holds⟩
      have settled := certain.settlesFormula
        (Formula.every_and (Formula.every_and formed counted) exact') [] (List.forall_mem_nil _)
      rcases settled with ⟨_, answer, ran, ran', rfl⟩ | ⟨⟨error, failed⟩, error', failed'⟩
      · exact .inl ⟨leaves, answer, Compiled.run?_of_result ranged allocated (by omega) ran,
          evaluates.trans (congrArg Prod.fst ran')⟩
      · exact .inr ⟨Compiled.run?_of_failure ranged allocated failed, error',
          evaluates.trans failed'⟩

private theorem Formula.folded_of_compiled {compiled : Compiled Bit}
    (ran : formula.compiled? bounds bitwidth = .ok compiled) {model : Instance}
    (decodes : bounds.Decodes model) :
    ∃ answer, compiled.value = .const answer ∧
      compiled.circuit = .empty compiled.leaves.primary bitwidth ∧
      model.formula? bitwidth formula = .ok answer := by
  rcases folded_or_failed made inRange labels countable formed counted exact' decodes with
    ⟨leaves, answer, ran', evaluated⟩ | ⟨⟨error, failed⟩, -⟩
  · cases ran.symm.trans ran'
    exact ⟨answer, rfl, rfl, evaluated⟩
  · cases ran.symm.trans failed

/-- Formulas over exactly bound relations are decided by folding alone. Such a formula compiles
just if evaluation gives an answer over every instance that is decoded within the bounds. Then it
compiles to the constant of the answer, which is the same over all these instances, and the
circuit stays empty; so it has the same trivial solution with every backend, and no backend is
asked anything. -/
theorem Formula.decided_by_folding :
    (∃ model, bounds.Decodes model) ∧
    ((∃ compiled, formula.compiled? bounds bitwidth = .ok compiled) ↔
      ∀ model, bounds.Decodes model → ∃ answer, model.formula? bitwidth formula = .ok answer) ∧
    ∀ compiled, formula.compiled? bounds bitwidth = .ok compiled →
      ∃ answer, compiled.value = .const answer ∧
        compiled.circuit = .empty compiled.leaves.primary bitwidth ∧
        (∀ model, bounds.Decodes model → model.formula? bitwidth formula = .ok answer) ∧
        ∃ solution, solution.outcome =
            (if answer then .triviallySatisfiable else .triviallyUnsatisfiable) ∧
          ∀ {σ : Type} (backend : Backend σ) (state : σ),
            (formula.solve bounds bitwidth backend).run.run state = (.ok solution, state) := by
  have largest : Circuit.maxLabel = 2147483647 := rfl
  obtain ⟨model, decodes⟩ := made.exists_decodes inRange (by omega) countable
  have folded := fun {compiled} ran {model} decodes =>
    @folded_of_compiled formula bounds bitwidth made inRange labels countable formed counted exact'
      compiled ran model decodes
  refine ⟨⟨model, decodes⟩, ⟨?_, fun total => ?_⟩, fun compiled ran => ?_⟩
  · rintro ⟨compiled, ran⟩ model decodes
    rcases folded ran decodes with ⟨answer, -, -, evaluated⟩
    exact ⟨answer, evaluated⟩
  · rcases folded_or_failed made inRange labels countable formed counted exact' decodes with
      ⟨leaves, answer, ran, -⟩ | ⟨-, error, failed⟩
    · exact ⟨_, ran⟩
    · rcases total model decodes with ⟨answer, found⟩
      cases failed.symm.trans found
  · rcases folded ran decodes with ⟨answer, isConst, isEmpty, -⟩
    have trivial : (Problem.ofCompiled bounds compiled).trivial = some answer := by
      rw [Problem.ofCompiled, isConst]
      rfl
    have poses := (formula.poses made labels.le inRange countable ran).2.2
    rcases poses.solve_folded trivial with ⟨solution, outcome, solved⟩
    refine ⟨answer, isConst, isEmpty, fun model decodes => ?_, solution, outcome,
      fun backend state => ?_⟩
    · rcases folded ran decodes with ⟨answer', isConst', -, evaluated⟩
      cases isConst.symm.trans isConst'
      exact evaluated
    · rw [Formula.solve, Problem.ofFormula?_eq, ran]
      exact solved backend state

end

/-! Two pets share seven treats. -/

def bothPets : Bounds :=
  ⟨animals, [⟨pet, ⟨animals, 1, .ofList [0, 1]⟩, ⟨animals, 1, .ofList [0, 1]⟩⟩], ∅⟩

def enoughTreats : Formula :=
  .compareInts .gt (.binary .divide (.constant 7) (.count (.relation pet))) (.constant 2)

theorem bothPets_made : bothPets.Made := by
  have included : TupleSet.isSubset ⟨animals, 1, .ofList [0, 1]⟩ ⟨animals, 1, .ofList [0, 1]⟩ =
      true := by
    decide +kernel
  have bound : (Bounds.empty animals).bindExactly? pet ⟨animals, 1, .ofList [0, 1]⟩ =
      .ok bothPets :=
    Bounds.bind?_of_isSubset rfl rfl rfl rfl included
  exact .bind (.empty animals_named) bound

theorem bothPets_inRange : bothPets.InRange :=
  .single (TupleSet.inRange_animals 1 [0, 1] (by decide))

theorem bothPets_countable : bothPets.Countable :=
  List.forall_mem_singleton.mpr (by decide)

theorem enoughTreats_formed : enoughTreats.Every SyntaxCheck.formed := by
  refine ⟨trivial, ⟨trivial, trivial, trivial, ?_⟩, trivial⟩
  exact (rfl : Relation.ofArity? 0 "Pet" 1 = .ok pet)

theorem enoughTreats_counted :
    enoughTreats.Every (.and (.counted bothPets.univ.size) .joinable) := by
  have atoms : 2 ^ 1 < Index.limit := by decide
  have counted : enoughTreats.Every (.counted bothPets.univ.size) :=
    ⟨trivial, ⟨trivial, trivial, trivial, atoms⟩, trivial⟩
  have joinable : enoughTreats.Every .joinable :=
    ⟨trivial, ⟨trivial, trivial, trivial, trivial⟩, trivial⟩
  exact Formula.every_and counted joinable

theorem enoughTreats_boundExactly : enoughTreats.BoundExactly bothPets := by
  refine ⟨trivial, ⟨trivial, trivial, trivial, fun bound found => ?_⟩, trivial⟩
  rw [List.mem_singleton.mp (List.mem_of_find?_eq_some found)]

theorem decided_by_folding_treats : enoughTreats.BoundExactly bothPets ∧
    ∃ solution, solution.outcome = .triviallySatisfiable ∧
      ∀ {σ : Type} (backend : Backend σ) (state : σ),
        (enoughTreats.solve bothPets 4 backend).run.run state = (.ok solution, state) := by
  have labels : (bothPets.openCount : Int) < Circuit.maxLabel := by decide +kernel
  have value : (enoughTreats.compiled? bothPets 4).toOption.map (fun compiled =>
      compiled.value.const?) = some (some true) := by decide +kernel
  have decided := (@Formula.decided_by_folding enoughTreats bothPets 4 bothPets_made
    bothPets_inRange labels bothPets_countable enoughTreats_formed enoughTreats_counted
    enoughTreats_boundExactly).2.2
  refine ⟨enoughTreats_boundExactly, ?_⟩
  rcases Except.exists_ok_of_map value with ⟨compiled, ran, isTrue⟩
  rcases decided compiled ran with ⟨answer, isConst, -, -, solution, outcome, solved⟩
  obtain rfl : answer = true := by
    rw [isConst] at isTrue
    exact Option.some.inj isTrue
  exact ⟨solution, outcome, solved⟩

theorem noWide_boundExactly : noWide.BoundExactly hermitBounds := by
  refine ⟨trivial, trivial, trivial, fun bound found => ?_⟩
  rw [List.mem_singleton.mp (List.mem_of_find?_eq_some found)]

/-- Compiling and evaluating part where an integer stands for something that is no atom, and where
a join has too many columns on the right. Either formula compiles, and evaluation over an
instance that is decoded within the bounds fails. -/
theorem folding_refused :
    (TupleSet.stray.Joined ∧ someInt.Fits strayInt ∧ someInt.Every .joinable ∧
      someInt.BoundExactly strayInt ∧ ∃ last,
        someInt.Fails strayInt 4 (.invalidArgument (.indexOutOfRange last 1))) ∧
    noWide.Fits hermitBounds ∧ hermitBounds.InRange ∧ noWide.BoundExactly hermitBounds ∧
      noWide.Fails hermitBounds 4 (.violation .overflow) :=
  ⟨⟨TupleSet.stray_joined.1, someInt_fits, ⟨trivial, trivial⟩, ⟨trivial, trivial⟩, someInt_fails⟩,
    noWide_fits, hermitBounds_inRange, noWide_boundExactly, noWide_fails⟩

end ModelFinder
