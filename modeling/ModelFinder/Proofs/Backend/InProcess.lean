import Mathlib
import ModelFinder.Backend.InProcess
import ModelFinder.Proofs.Outcomes
import ModelFinder.Proofs.Solving.Backend
/-!
Calls of a backend in the same process, in any order. What the backend keeps besides the state of
its decision procedure stands for the clauses that the procedure was not given: the empty ones,
and those that it or the backend refused. So every answer is about all clauses that were offered,
or an error.
-/

namespace ModelFinder

namespace Clause.Satisfiable

theorem of_append {earlier later : List Clause} (satisfiable : Satisfiable (earlier ++ later)) :
    Satisfiable earlier := by
  rcases satisfiable with ⟨assignment, holds⟩
  rw [List.all_append, Bool.and_eq_true] at holds
  exact ⟨assignment, holds.1⟩

theorem not_mem_nil {clauses : List Clause} (satisfiable : Satisfiable clauses) :
    [] ∉ clauses := by
  intro member
  rcases satisfiable with ⟨assignment, holds⟩
  cases List.all_eq_true.mp holds [] member

end Clause.Satisfiable

theorem Literal.isRepresentable_iff {literal : Literal} :
    literal.isRepresentable = true ↔ ¬(literal = 0 ∨ Digits.weight 31 < literal.natAbs) := by
  simp [Literal.isRepresentable]

variable {γ : Type}

/-- A decision procedure decides exactly the clauses that it has taken, in any number of answers.
Which clauses it rejects is left open. -/
structure Procedure.Decides (procedure : Procedure γ) (Holds : γ → List Clause → Prop) : Prop where
  started : Holds procedure.initial []
  taken : ∀ {state after clause clauses}, Holds state clauses →
    procedure.add clause state = (.ok (), after) → Holds after (clauses ++ [clause])
  decided : ∀ {state clauses}, Holds state clauses →
    ∃ answer after, procedure.decide state = (.ok (some answer), after) ∧
      (answer = true ↔ Clause.Satisfiable clauses) ∧ Holds after clauses

namespace InProcess

inductive Call where
  | announce (count : Nat)
  | offer (clause : Clause)
  | solve

def Call.announces : Call → Nat
  | announce count => count
  | _ => 0

def Call.offers? : Call → Option Clause
  | offer clause => some clause
  | _ => none

def announced (calls : List Call) : Nat := (calls.map Call.announces).sum

/-- The clauses that were offered, whatever became of them. -/
def offered (calls : List Call) : List Clause := calls.filterMap Call.offers?

/-- The clauses that the procedure may be asked to take. -/
def nonempty (calls : List Call) : List Clause :=
  (offered calls).filter fun clause => !clause.isEmpty

@[simp]
theorem announced_append (calls more : List Call) :
    announced (calls ++ more) = announced calls + announced more := by
  rw [announced, List.map_append, List.sum_append]
  rfl

@[simp]
theorem offered_append (calls more : List Call) :
    offered (calls ++ more) = offered calls ++ offered more :=
  List.filterMap_append

theorem nonempty_append (calls more : List Call) :
    nonempty (calls ++ more) = nonempty calls ++ nonempty more := by
  rw [nonempty, offered_append, List.filter_append]
  rfl

theorem nonempty_eq_offered {calls : List Call} (consistent : [] ∉ offered calls) :
    nonempty calls = offered calls := by
  rw [nonempty, List.filter_eq_self]
  intro clause member
  simpa using fun empty : clause = [] => consistent (empty ▸ member)

def call? (procedure : Procedure γ) (state : InProcess γ) : Call → Except Error (InProcess γ)
  | .announce count => state.addVariables count
  | .offer clause => (state.addClause? procedure clause).map Prod.snd
  | .solve => .ok (state.solve procedure).2

def reach? (procedure : Procedure γ) (calls : List Call) : Except Error (InProcess γ) :=
  calls.foldlM (call? procedure) (initial procedure)

/-- A clause that is not empty is refused if it has a literal that names no variable of the
procedure, or if the procedure rejects it. -/
def Refuses (procedure : Procedure γ) (state : InProcess γ) (clause : Clause) : Prop :=
  clause ≠ [] ∧
    ((∃ literal ∈ clause, literal = 0 ∨ Digits.weight 31 < literal.natAbs) ∨
      ∃ failure after, procedure.add clause state.procedure = (.error failure, after))

def Spoiled (procedure : Procedure γ) (calls : List Call) : Prop :=
  ∃ earlier clause later state, calls = earlier ++ .offer clause :: later ∧
    reach? procedure earlier = .ok state ∧ state.Refuses procedure clause

variable {procedure : Procedure γ} {Holds : γ → List Clause → Prop} {state after : InProcess γ}
  {calls : List Call}

theorem reach?_snoc_iff {call : Call} :
    reach? procedure (calls ++ [call]) = .ok after ↔
      ∃ state, reach? procedure calls = .ok state ∧ state.call? procedure call = .ok after := by
  rw [reach?, List.foldlM_append, Except.bind_eq_ok_iff]
  simp only [List.foldlM_cons, List.foldlM_nil, bind_pure]
  rfl

theorem Spoiled.append (spoiled : Spoiled procedure calls) (more : List Call) :
    Spoiled procedure (calls ++ more) := by
  rcases spoiled with ⟨earlier, clause, later, state, rfl, reached, refuses⟩
  refine ⟨earlier, clause, later ++ more, state, ?_, reached, refuses⟩
  rw [List.append_assoc, List.cons_append]

theorem spoiled_snoc_iff (reached : reach? procedure calls = .ok state) (call : Call) :
    Spoiled procedure (calls ++ [call]) ↔
      Spoiled procedure calls ∨
        ∃ clause, call = .offer clause ∧ state.Refuses procedure clause := by
  constructor
  · rintro ⟨earlier, clause, later, before, split, found, refuses⟩
    rcases later.eq_nil_or_concat with rfl | ⟨middle, last, rfl⟩
    · rcases List.append_inj' split rfl with ⟨rfl, only⟩
      cases only
      rw [reached] at found
      cases found
      exact .inr ⟨clause, rfl, refuses⟩
    · rw [List.concat_eq_append, ← List.cons_append, ← List.append_assoc] at split
      rcases List.append_inj' split rfl with ⟨rfl, -⟩
      exact .inl ⟨earlier, clause, middle, before, rfl, found, refuses⟩
  · rintro (spoiled | ⟨clause, rfl, refuses⟩)
    · exact spoiled.append [call]
    · exact ⟨calls, clause, [], state, rfl, reached, refuses⟩

/-! One call -/

/-- What offering a clause does: an empty one sets a mark, a refused one leaves a failure, and the
procedure takes all others. -/
inductive Offers (procedure : Procedure γ) (state : InProcess γ) : Clause → InProcess γ → Prop
  | empty :
      Offers procedure state []
        { state with clauseCount := state.clauseCount + 1, contradiction := true }
  | refused {clause : Clause} {failure : BackendFailure} {held : γ}
      (refuses : state.Refuses procedure clause) :
      Offers procedure state clause
        (fail { state with clauseCount := state.clauseCount + 1, procedure := held } failure)
  | taken {clause : Clause} {held : γ} (some : clause ≠ [])
      (accepted : ¬state.Refuses procedure clause)
      (added : procedure.add clause state.procedure = (.ok (), held)) :
      Offers procedure state clause
        { state with clauseCount := state.clauseCount + 1, procedure := held }

theorem offers_addClause (state : InProcess γ) (clause : Clause) :
    state.Offers procedure clause (state.addClause procedure clause).2 := by
  simp only [addClause]
  split
  · rename_i empty
    rw [List.isEmpty_iff.mp empty]
    exact .empty
  · rename_i some
    rw [List.isEmpty_iff] at some
    split
    · rename_i representable
      rw [List.all_eq_true] at representable
      rcases outcome : procedure.add clause state.procedure with ⟨failure | _, held⟩
      · exact .refused ⟨some, .inr ⟨failure, held, outcome⟩⟩
      · apply Offers.taken some _ outcome
        rintro ⟨-, ⟨literal, member, bad⟩ | ⟨failure, after, rejected⟩⟩
        · exact Literal.isRepresentable_iff.mp (representable literal member) bad
        · cases outcome.symm.trans rejected
    · rename_i unrepresentable
      rw [List.all_eq_true] at unrepresentable
      push Not at unrepresentable
      rcases unrepresentable with ⟨literal, member, bad⟩
      rw [ne_eq, Literal.isRepresentable_iff, not_not] at bad
      exact .refused ⟨some, .inl ⟨literal, member, bad⟩⟩

/-- What the fields of a backend stand for after calls. As long as no clause was refused, the
procedure holds the clauses that are not empty. -/
structure Tracks (procedure : Procedure γ) (Holds : γ → List Clause → Prop) (calls : List Call)
    (state : InProcess γ) : Prop where
  variableCount_eq : state.variableCount = announced calls
  clauseCount_eq : state.clauseCount = (offered calls).length
  failed : state.failure.isSome = true ↔ Spoiled procedure calls
  contradicted : state.contradiction = true ↔ [] ∈ offered calls
  holds : ¬Spoiled procedure calls → Holds state.procedure (nonempty calls)

theorem tracks_initial (decides : procedure.Decides Holds) :
    Tracks procedure Holds [] (initial procedure) where
  variableCount_eq := rfl
  clauseCount_eq := rfl
  failed := by
    constructor
    · intro failed
      cases failed
    · rintro ⟨earlier, clause, later, state, split, -⟩
      cases List.append_ne_nil_of_right_ne_nil earlier (List.cons_ne_nil _ later) split.symm
  contradicted := by
    constructor
    · intro contradicted
      cases contradicted
    · intro member
      cases member
  holds _ := decides.started

theorem Tracks.offer (decides : procedure.Decides Holds)
    (reached : reach? procedure calls = .ok state) (tracks : Tracks procedure Holds calls state)
    {clause : Clause} (offers : state.Offers procedure clause after) :
    Tracks procedure Holds (calls ++ [.offer clause]) after := by
  have spoiled := spoiled_snoc_iff reached (.offer clause)
  simp only [Call.offer.injEq, exists_eq_left'] at spoiled
  have silent : announced (calls ++ [.offer clause]) = announced calls :=
    announced_append calls [.offer clause]
  have grown : offered (calls ++ [.offer clause]) = offered calls ++ [clause] :=
    offered_append calls [.offer clause]
  have counted : state.clauseCount + 1 = (offered calls ++ [clause]).length := by
    rw [tracks.clauseCount_eq, List.length_append]
    rfl
  cases offers with
  | empty =>
      have accepted : ¬state.Refuses procedure [] := fun refuses => refuses.1 rfl
      rw [or_iff_left accepted] at spoiled
      refine ⟨tracks.variableCount_eq.trans silent.symm, ?_, ?_, ?_, ?_⟩
      · rw [grown]
        exact counted
      · rw [spoiled]
        exact tracks.failed
      · rw [grown]
        simp
      · rw [spoiled, nonempty_append]
        intro fine
        change Holds _ (nonempty calls ++ [])
        rw [List.append_nil]
        exact tracks.holds fine
  | refused refuses =>
      refine ⟨tracks.variableCount_eq.trans silent.symm, ?_, ?_, ?_, ?_⟩
      · rw [grown]
        exact counted
      · rw [spoiled]
        simp [fail, refuses]
      · rw [grown, List.mem_append, List.mem_singleton, or_iff_left refuses.1.symm]
        exact tracks.contradicted
      · intro fine
        exact absurd (spoiled.mpr (.inr refuses)) fine
  | taken some accepted added =>
      rw [or_iff_left accepted] at spoiled
      refine ⟨tracks.variableCount_eq.trans silent.symm, ?_, ?_, ?_, ?_⟩
      · rw [grown]
        exact counted
      · rw [spoiled]
        exact tracks.failed
      · rw [grown, List.mem_append, List.mem_singleton, or_iff_left some.symm]
        exact tracks.contradicted
      · have passed : nonempty [.offer clause] = [clause] :=
          List.filter_cons_of_pos (by simpa using some)
        rw [spoiled, nonempty_append, passed]
        intro fine
        exact decides.taken (tracks.holds fine) added

theorem Tracks.solve_eq (decides : procedure.Decides Holds)
    (tracks : Tracks procedure Holds calls state) :
    (Spoiled procedure calls →
      ∃ failure, state.solve procedure = (.error (.aborted failure), state)) ∧
    (¬Spoiled procedure calls →
      ∃ answer held, state.solve procedure = (.ok answer, { state with procedure := held }) ∧
        (answer = true ↔ Clause.Satisfiable (offered calls)) ∧
        Holds held (nonempty calls)) := by
  constructor
  · intro spoiled
    rcases Option.isSome_iff_exists.mp (tracks.failed.mpr spoiled) with ⟨failure, failed⟩
    refine ⟨failure, ?_⟩
    rw [solve, failed]
  · intro fine
    have failed : state.failure = none := by
      rw [← Option.not_isSome_iff_eq_none, tracks.failed]
      exact fine
    have holds := tracks.holds fine
    rw [solve, failed]
    dsimp only
    split
    · rename_i contradiction
      refine ⟨false, state.procedure, ?_, ?_, holds⟩
      · rw [← failed]
      · simp only [Bool.false_eq_true, false_iff]
        intro satisfiable
        exact satisfiable.not_mem_nil (tracks.contradicted.mp contradiction)
    · rename_i consistent
      rw [tracks.contradicted] at consistent
      rcases decides.decided holds with ⟨answer, held, answered, right, kept⟩
      rw [nonempty_eq_offered consistent] at right
      refine ⟨answer, held, ?_, right, kept⟩
      rw [answered, ← failed]

theorem Tracks.positive_iff (decides : procedure.Decides Holds)
    (tracks : Tracks procedure Holds calls state) :
    (state.solve procedure).1 = .ok true ↔
      ¬Spoiled procedure calls ∧ Clause.Satisfiable (offered calls) := by
  by_cases spoiled : Spoiled procedure calls
  · rcases (tracks.solve_eq decides).1 spoiled with ⟨failure, answered⟩
    rw [answered]
    simp [spoiled]
  · rcases (tracks.solve_eq decides).2 spoiled with ⟨answer, held, answered, right, -⟩
    rw [answered, ← right]
    simp [spoiled]

theorem Tracks.of_quiet (reached : reach? procedure calls = .ok state)
    (tracks : Tracks procedure Holds calls state) {call : Call} (quiet : call.offers? = none)
    {total : Nat} (counts : total = state.variableCount + call.announces) {held : γ}
    (holds : ¬Spoiled procedure calls → Holds held (nonempty calls)) :
    Tracks procedure Holds (calls ++ [call])
      { state with variableCount := total, procedure := held } := by
  have same : offered (calls ++ [call]) = offered calls := by
    rw [offered_append, offered, offered, List.filterMap_cons_none quiet, List.filterMap_nil,
      List.append_nil]
  have spoiled : Spoiled procedure (calls ++ [call]) ↔ Spoiled procedure calls := by
    rw [spoiled_snoc_iff reached, or_iff_left_iff_imp]
    rintro ⟨clause, rfl, -⟩
    cases quiet
  constructor
  · rw [announced_append, ← tracks.variableCount_eq, counts]
    rfl
  · rw [same]
    exact tracks.clauseCount_eq
  · rw [spoiled]
    exact tracks.failed
  · rw [same]
    exact tracks.contradicted
  · rw [spoiled, nonempty, same]
    exact holds

theorem of_addVariables {count : Nat} (added : state.addVariables count = .ok after) :
    after = { state with variableCount := state.variableCount + count } := by
  rw [addVariables, addVariableCount] at added
  split at added
  · cases added
    rfl
  · cases added

theorem of_addClause? {clause : Clause} {accepted : Bool}
    (added : state.addClause? procedure clause = .ok (accepted, after)) :
    state.Offers procedure clause after := by
  rw [addClause?] at added
  split at added
  · have offers : state.Offers procedure clause (state.addClause procedure clause).2 :=
      offers_addClause state clause
    rwa [Except.ok.inj added] at offers
  · cases added

theorem Tracks.call (decides : procedure.Decides Holds)
    (reached : reach? procedure calls = .ok state) (tracks : Tracks procedure Holds calls state)
    {call : Call} (made : state.call? procedure call = .ok after) :
    Tracks procedure Holds (calls ++ [call]) after := by
  cases call with
  | announce count =>
      rw [of_addVariables made]
      exact tracks.of_quiet reached rfl rfl tracks.holds
  | offer clause =>
      rw [call?, Except.map_eq_ok_iff] at made
      rcases made with ⟨⟨accepted, changed⟩, added, rfl⟩
      exact tracks.offer decides reached (of_addClause? added)
  | solve =>
      cases made
      by_cases spoiled : Spoiled procedure calls
      · rcases (tracks.solve_eq decides).1 spoiled with ⟨failure, answered⟩
        rw [answered]
        exact tracks.of_quiet reached rfl rfl tracks.holds
      · rcases (tracks.solve_eq decides).2 spoiled with ⟨answer, held, answered, -, holds⟩
        rw [answered]
        exact tracks.of_quiet reached rfl rfl fun _ => holds

theorem call?_ok_iff (fewVariables : state.variableCount < UInt32.size)
    (fewClauses : state.clauseCount < UInt32.size) (call : Call) :
    (∃ after, state.call? procedure call = .ok after) ↔
      state.variableCount + call.announces < UInt32.size ∧
        state.clauseCount + call.offers?.toList.length < UInt32.size := by
  cases call with
  | announce count =>
      simp only [call?, addVariables, addVariableCount, Call.announces, Call.offers?]
      split
      · rename_i enough
        exact ⟨fun _ => ⟨enough, fewClauses⟩, fun _ => ⟨_, rfl⟩⟩
      · rename_i short
        exact ⟨fun ⟨_, made⟩ => (by cases made), fun both => absurd both.1 short⟩
  | offer clause =>
      simp only [call?, addClause?, Call.announces, Call.offers?]
      split
      · rename_i enough
        exact ⟨fun _ => ⟨fewVariables, enough⟩, fun _ => ⟨_, rfl⟩⟩
      · rename_i short
        exact ⟨fun ⟨_, made⟩ => (by cases made), fun both => absurd both.2 short⟩
  | solve => exact ⟨fun _ => ⟨fewVariables, fewClauses⟩, fun _ => ⟨_, rfl⟩⟩

/-! Calls in any order -/

theorem tracks_of_reach? (decides : procedure.Decides Holds)
    (reached : reach? procedure calls = .ok state) : Tracks procedure Holds calls state := by
  induction calls using List.reverseRecOn generalizing state with
  | nil =>
      cases reached
      exact tracks_initial decides
  | append_singleton calls call hypothesis =>
      rcases reach?_snoc_iff.mp reached with ⟨before, reached, made⟩
      exact (hypothesis reached).call decides reached made

theorem reach?_ok_iff (decides : procedure.Decides Holds) :
    (∃ state, reach? procedure calls = .ok state) ↔
      announced calls < UInt32.size ∧ (offered calls).length < UInt32.size := by
  induction calls using List.reverseRecOn with
  | nil => exact ⟨fun _ => by decide, fun _ => ⟨_, rfl⟩⟩
  | append_singleton calls call hypothesis =>
      have grown : (offered (calls ++ [call])).length =
          (offered calls).length + call.offers?.toList.length := by
        rw [offered_append, List.length_append]
        rfl
      have sum : announced (calls ++ [call]) = announced calls + call.announces :=
        announced_append calls [call]
      rw [grown, sum]
      constructor
      · rintro ⟨after, reached⟩
        rcases reach?_snoc_iff.mp reached with ⟨state, reached, made⟩
        have tracks := tracks_of_reach? decides reached
        have few := hypothesis.mp ⟨state, reached⟩
        rw [← tracks.variableCount_eq, ← tracks.clauseCount_eq] at few ⊢
        exact (call?_ok_iff few.1 few.2 call).mp ⟨after, made⟩
      · rintro ⟨fewVariables, fewClauses⟩
        have few : announced calls < UInt32.size ∧ (offered calls).length < UInt32.size :=
          ⟨by omega, by omega⟩
        rcases hypothesis.mpr few with ⟨state, reached⟩
        have tracks := tracks_of_reach? decides reached
        rw [← tracks.variableCount_eq] at few fewVariables
        rw [← tracks.clauseCount_eq] at few fewClauses
        rcases (call?_ok_iff few.1 few.2 call).mpr ⟨fewVariables, fewClauses⟩ with ⟨after, made⟩
        exact ⟨after, reach?_snoc_iff.mpr ⟨state, reached, made⟩⟩

/-- Every answer is about all clauses that were offered before, however calls are mixed: it is an
error if one of them was refused, and otherwise positive just if all of them can be satisfied
together, the empty clause being false. All of them are counted, as long as their number and the
number of variables are words. Once there was no positive answer, there is none later. -/
theorem answers_offered (decides : procedure.Decides Holds) (calls : List Call) :
    ((∃ state, reach? procedure calls = .ok state) ↔
      announced calls < UInt32.size ∧ (offered calls).length < UInt32.size) ∧
    ∀ state, reach? procedure calls = .ok state →
      state.clauseCount = (offered calls).length ∧
      (Spoiled procedure calls →
        ∃ failure, (state.solve procedure).1 = .error (.aborted failure)) ∧
      (¬Spoiled procedure calls →
        ∃ answer, (state.solve procedure).1 = .ok answer ∧
          (answer = true ↔ Clause.Satisfiable (offered calls))) ∧
      ((state.solve procedure).1 ≠ .ok true →
        ∀ more after, reach? procedure (calls ++ .solve :: more) = .ok after →
          (after.solve procedure).1 ≠ .ok true) := by
  refine ⟨reach?_ok_iff decides, fun state reached => ?_⟩
  have tracks := tracks_of_reach? decides reached
  refine ⟨tracks.clauseCount_eq, ?_, ?_, ?_⟩
  · intro spoiled
    rcases (tracks.solve_eq decides).1 spoiled with ⟨failure, answered⟩
    exact ⟨failure, congrArg Prod.fst answered⟩
  · intro fine
    rcases (tracks.solve_eq decides).2 fine with ⟨answer, held, answered, right, -⟩
    exact ⟨answer, congrArg Prod.fst answered, right⟩
  · intro negative more after later positive
    rw [(tracks_of_reach? decides later).positive_iff decides, offered_append] at positive
    rw [ne_eq, tracks.positive_iff decides] at negative
    exact negative ⟨fun spoiled => positive.1 (spoiled.append _), positive.2.of_append⟩

/-- A procedure that tries all assignments, and rejects clauses of more than two literals. -/
def narrow : Procedure (List Clause) where
  initial := []
  add clause held :=
    if clause.length ≤ 2 then (.ok (), held ++ [clause])
    else (.error (.scripted "too many literals"), held)
  decide held := (.ok (some (Backend.exhaust held).isSome), held)
  holds held name := ((Backend.exhaust held).getD 0).testBit name

theorem narrow_decides : narrow.Decides fun held clauses => held = clauses where
  started := rfl
  taken := by
    rintro held after clause clauses rfl added
    rw [narrow] at added
    dsimp only at added
    split at added
    · cases added
      rfl
    · cases added
  decided := by
    rintro held clauses rfl
    exact ⟨_, held, rfl, Backend.exhaust_isSome_iff held, rfl⟩

theorem answers_offered_narrow :
    let calls : List Call := [.announce 2, .offer [1, 2], .solve, .offer [-1], .offer [-2]]
    let further : List Call := [.solve, .offer [], .offer [1, 2, -1]]
    (narrow.Decides fun held clauses => held = clauses) ∧
    (∃ state, reach? narrow calls = .ok state ∧ state.clauseCount = 3 ∧
      ¬Spoiled narrow calls ∧ ¬Clause.Satisfiable (offered calls) ∧
      ∀ more after, reach? narrow (calls ++ .solve :: more) = .ok after →
        (after.solve narrow).1 ≠ .ok true) ∧
    ∃ state, reach? narrow (calls ++ further) = .ok state ∧ state.clauseCount = 5 ∧
      Spoiled narrow (calls ++ further) ∧
      ∃ failure, (state.solve narrow).1 = .error (.aborted failure) := by
  intro calls further
  have reached : reach? narrow calls = .ok ⟨[[1, 2], [-1], [-2]], 2, 3, false, none⟩ := by rfl
  have negative : (solve narrow ⟨[[1, 2], [-1], [-2]], 2, 3, false, none⟩).1 = .ok false := by rfl
  refine ⟨narrow_decides, ⟨_, reached, ?_⟩, ?_⟩
  · rcases (answers_offered narrow_decides calls).2 _ reached with ⟨counted, error, right, later⟩
    have fine : ¬Spoiled narrow calls := by
      intro spoiled
      rcases error spoiled with ⟨failure, answered⟩
      cases negative.symm.trans answered
    rcases right fine with ⟨answer, answered, satisfiable_iff⟩
    cases negative.symm.trans answered
    refine ⟨counted, fine, fun satisfiable => ?_, later fun positive => ?_⟩
    · cases satisfiable_iff.mpr satisfiable
    · cases negative.symm.trans positive
  · rcases answers_offered narrow_decides (calls ++ further) with ⟨succeeds, answers⟩
    rcases succeeds.mpr (by decide) with ⟨state, after⟩
    rcases answers state after with ⟨counted, error, -, -⟩
    have spoiled : Spoiled narrow (calls ++ further) :=
      ⟨calls ++ [.solve, .offer []], [1, 2, -1], [], _, rfl, rfl, by decide, .inr ⟨_, _, rfl⟩⟩
    exact ⟨state, after, counted, spoiled, error spoiled⟩

end InProcess

end ModelFinder
