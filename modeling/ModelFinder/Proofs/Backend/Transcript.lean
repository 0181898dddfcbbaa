import Mathlib
import ModelFinder.Backend.External
import ModelFinder.Proofs.Outcomes
import ModelFinder.Proofs.Text.Pieces
/-!
What a transcript says. Lines count that start with a mark and a blank: the statuses after `s`, and
the values after `v`. A transcript has an answer exactly if all of these lines can be read and the
last status, or the exit code if there is no status, gives one; a positive answer about variables
also needs a line of values. Everything else is a failure, which changes nothing.
-/

namespace ModelFinder

/-! Lines -/

namespace Reading

/-- The text after a mark and a blank. Blanks around the line do not count. -/
def marked? (mark : Char) (line : List Char) : Option (List Char) :=
  (Text.trim line).dropPrefix? [mark, ' ']

theorem marked?_eq_some_iff {mark : Char} {line rest : List Char} :
    marked? mark line = some rest ↔ Text.trim line = mark :: ' ' :: rest := by
  rw [marked?, List.dropPrefix?_eq_some_iff]
  simp

def status? (line : List Char) : Option String :=
  (marked? 's' line).map fun text => String.ofList (Text.trim text)

def values? (line : List Char) : Option (List (List Char)) := (marked? 'v' line).map Text.words

theorem marked?_cons_of_ne {mark first : Char} (visible : Text.isBlank first = false)
    (different : first ≠ mark) {rest : List Char} : marked? mark (first :: rest) = none := by
  rw [Option.eq_none_iff_forall_ne_some]
  intro text marked
  rw [marked?_eq_some_iff, Text.trim_cons visible, List.cons.injEq] at marked
  exact different marked.1

/-- After the mark of values, all words are values. A line without words does not have the mark. -/
theorem values?_cons (text : List Char) :
    values? ('v' :: ' ' :: text) = none ∧ Text.words text = [] ∨
      values? ('v' :: ' ' :: text) = some (Text.words text) := by
  have trimmed : Text.trim ('v' :: ' ' :: text) = 'v' :: (' ' :: text).rdropWhile Text.isBlank :=
    Text.trim_cons (by decide) _
  have words := Text.words_rdropWhile text
  by_cases visible : text.rdropWhile Text.isBlank = []
  · have blank : (' ' :: text).rdropWhile Text.isBlank = [] := by
      rw [List.rdropWhile_eq_nil_iff] at visible ⊢
      exact List.forall_mem_cons.mpr ⟨by decide, visible⟩
    rw [visible] at words
    rw [values?, marked?, trimmed, blank]
    exact .inl ⟨rfl, words.symm⟩
  · rw [Text.rdropWhile_cons visible] at trimmed
    rw [values?, marked?_eq_some_iff.mpr trimmed, Option.map_some, words]
    exact .inr rfl

def upToZero (words : List (List Char)) : List (List Char) :=
  words.takeWhile fun word => Text.readInt32 word != some 0

def literals (words : List (List Char)) : List Literal := (upToZero words).filterMap Text.readInt32

def statusOf (answer : Bool) : String := if answer then "SATISFIABLE" else "UNSATISFIABLE"

/-- A line can be read if its status is an answer and the words before the first zero of its values
are 32-bit numerals. Other lines can always be read. -/
structure Readable (line : List Char) : Prop where
  status : ∀ status ∈ status? line, ∃ answer, status = statusOf answer
  values : ∀ words ∈ values? line, ∀ word ∈ upToZero words, (Text.readInt32 word).isSome

theorem readable_iff {line : List Char} :
    Readable line ↔ (∀ status ∈ status? line, ∃ answer, status = statusOf answer) ∧
      ∀ words ∈ values? line, ∀ word ∈ upToZero words, (Text.readInt32 word).isSome :=
  ⟨fun readable => ⟨readable.status, readable.values⟩, fun both => ⟨both.1, both.2⟩⟩

def next (variableCount : Nat) (reading : Reading) (line : List Char) : Reading where
  status := ((status? line).map (· == statusOf true)).or reading.status
  model := ((values? line).elim [] literals).foldl (setValue variableCount) reading.model
  sawValues := reading.sawValues || (values? line).isSome

variable {executable : String} {variableCount : Nat}

theorem readValues?_eq_ok_iff {words : List (List Char)} {model after : TrueVariables} :
    readValues? executable variableCount model words = .ok after ↔
      (∀ word ∈ upToZero words, (Text.readInt32 word).isSome) ∧
        after = (literals words).foldl (setValue variableCount) model := by
  induction words generalizing model with
  | nil => simp [readValues?, upToZero, literals, @eq_comm _ after]
  | cons word rest hypothesis =>
      rw [readValues?]
      rcases isNumber : Text.readInt32 word with _ | number
      · have kept : upToZero (word :: rest) = word :: upToZero rest :=
          List.takeWhile_cons_of_pos (by rw [isNumber]; decide)
        rw [kept, List.forall_mem_cons, isNumber]
        simp
      · by_cases zero : number = 0
        · have kept : upToZero (word :: rest) = [] :=
            List.takeWhile_cons_of_neg (by rw [isNumber, zero]; decide)
          dsimp only
          rw [if_pos zero, literals, kept]
          simp [@eq_comm _ after]
        · have kept : upToZero (word :: rest) = word :: upToZero rest :=
            List.takeWhile_cons_of_pos (by simpa [isNumber] using zero)
          have read : literals (word :: rest) = number :: literals rest := by
            rw [literals, kept, List.filterMap_cons_some isNumber, literals]
          dsimp only
          rw [if_neg zero, hypothesis, kept, read, List.forall_mem_cons, isNumber, List.foldl_cons]
          simp

theorem readStatus_eq_ok_iff {reading after : Reading} {word : String} :
    (if word == statusOf true then Except.ok { reading with status := some true }
      else if word == statusOf false then .ok { reading with status := some false }
      else .error (BackendFailure.unknownStatus executable word)) = .ok after ↔
      (∃ answer, word = statusOf answer) ∧
        after = { reading with status := some (word == statusOf true) } := by
  by_cases positive : word = statusOf true
  · simp [positive, @eq_comm _ after]
  · by_cases negative : word = statusOf false
    · have different : (statusOf false == statusOf true) = false := by decide
      simp [negative, different, @eq_comm _ after]
    · simp [positive, negative]

theorem readLine?_eq_ok_iff {reading after : Reading} {line : List Char} :
    readLine? executable variableCount reading line = .ok after ↔
      Readable line ∧ after = reading.next variableCount line := by
  rw [readLine?]
  split
  · rename_i rest isStatus
    have status : status? line = some (String.ofList (Text.trim rest)) := by
      rw [status?, marked?_eq_some_iff.mpr isStatus, Option.map_some]
    have noValues : values? line = none := by
      rw [values?, marked?, isStatus]
      rfl
    have readable :
        Readable line ↔ ∃ answer, String.ofList (Text.trim rest) = statusOf answer := by
      rw [readable_iff, status, noValues]
      simp
    rw [readable, next, status, noValues, Option.isSome_none, Bool.or_false]
    exact readStatus_eq_ok_iff
  · rename_i rest isValues
    have noStatus : status? line = none := by
      rw [status?, marked?, isValues]
      rfl
    have values : values? line = some (Text.words rest) := by
      rw [values?, marked?_eq_some_iff.mpr isValues, Option.map_some]
    have readable : Readable line ↔
        ∀ word ∈ upToZero (Text.words rest), (Text.readInt32 word).isSome := by
      rw [readable_iff, noStatus, values]
      simp
    rw [readable, next, noStatus, values, Except.map_eq_ok_iff]
    simp only [readValues?_eq_ok_iff]
    constructor
    · rintro ⟨model, ⟨words, rfl⟩, rfl⟩
      refine ⟨words, ?_⟩
      simp
    · rintro ⟨words, rfl⟩
      refine ⟨_, ⟨words, rfl⟩, ?_⟩
      simp
  · rename_i notStatus notValues
    have noStatus : status? line = none := by
      rw [status?, Option.map_eq_none_iff, Option.eq_none_iff_forall_ne_some]
      exact fun rest marked => notStatus rest (marked?_eq_some_iff.mp marked)
    have noValues : values? line = none := by
      rw [values?, Option.map_eq_none_iff, Option.eq_none_iff_forall_ne_some]
      exact fun rest marked => notValues rest (marked?_eq_some_iff.mp marked)
    have readable : Readable line := by
      rw [readable_iff, noStatus, noValues]
      simp
    rw [next, noStatus, noValues]
    simp [readable, @eq_comm _ after]

theorem foldlM_readLine?_eq_ok_iff {lines : List (List Char)} {reading after : Reading} :
    lines.foldlM (readLine? executable variableCount) reading = .ok after ↔
      (∀ line ∈ lines, Readable line) ∧ after = lines.foldl (next variableCount) reading := by
  induction lines generalizing reading with
  | nil => simp [pure, Except.pure, @eq_comm _ after]
  | cons line rest hypothesis =>
      rw [List.foldlM_cons, Except.bind_eq_ok_iff, List.forall_mem_cons, List.foldl_cons]
      simp only [readLine?_eq_ok_iff, hypothesis]
      constructor
      · rintro ⟨_, ⟨readable, rfl⟩, others, rfl⟩
        exact ⟨⟨readable, others⟩, rfl⟩
      · rintro ⟨⟨readable, others⟩, rfl⟩
        exact ⟨_, ⟨readable, rfl⟩, others, rfl⟩

theorem status_foldl_next (lines : List (List Char)) (reading : Reading) :
    (lines.foldl (next variableCount) reading).status =
      ((lines.filterMap status?).getLast?.map (· == statusOf true)).or reading.status := by
  induction lines generalizing reading with
  | nil => rfl
  | cons line rest hypothesis =>
      rw [List.foldl_cons, hypothesis, next]
      rcases given : status? line with _ | status
      · rw [List.filterMap_cons_none given]
        rfl
      · rw [List.filterMap_cons_some given, List.getLast?_cons]
        cases (rest.filterMap status?).getLast? <;> rfl

theorem model_foldl_next (lines : List (List Char)) (reading : Reading) :
    (lines.foldl (next variableCount) reading).model =
      ((lines.filterMap values?).flatMap literals).foldl (setValue variableCount)
        reading.model := by
  induction lines generalizing reading with
  | nil => rfl
  | cons line rest hypothesis =>
      rw [List.foldl_cons, hypothesis, next]
      rcases given : values? line with _ | words
      · rw [List.filterMap_cons_none given]
        rfl
      · rw [List.filterMap_cons_some given, List.flatMap_cons, List.foldl_append]
        rfl

theorem sawValues_foldl_next (lines : List (List Char)) (reading : Reading) :
    (lines.foldl (next variableCount) reading).sawValues =
      (reading.sawValues || !(lines.filterMap values?).isEmpty) := by
  induction lines generalizing reading with
  | nil => simp
  | cons line rest hypothesis =>
      rw [List.foldl_cons, hypothesis, next]
      rcases given : values? line with _ | words
      · simp [List.filterMap_cons_none given]
      · simp [List.filterMap_cons_some given]

end Reading

/-! Transcripts -/

namespace Transcript

def statuses (transcript : Transcript) : List String :=
  (Text.lines transcript.output).filterMap Reading.status?

def valueLines (transcript : Transcript) : List (List (List Char)) :=
  (Text.lines transcript.output).filterMap Reading.values?

def model (transcript : Transcript) (variableCount : Nat) : TrueVariables :=
  (transcript.valueLines.flatMap Reading.literals).foldl (Reading.setValue variableCount) ∅

/-- All statuses are answers, and the words before the first zero of every line of values are
32-bit numerals. -/
structure Readable (transcript : Transcript) : Prop where
  statuses : ∀ status ∈ transcript.statuses, ∃ answer, status = Reading.statusOf answer
  values : ∀ words ∈ transcript.valueLines, ∀ word ∈ Reading.upToZero words,
    (Text.readInt32 word).isSome

theorem readable_iff {transcript : Transcript} :
    transcript.Readable ↔ ∀ line ∈ Text.lines transcript.output, Reading.Readable line := by
  constructor
  · intro readable line member
    exact ⟨fun status given =>
        readable.statuses status (List.mem_filterMap.mpr ⟨line, member, given⟩),
      fun words given =>
        readable.values words (List.mem_filterMap.mpr ⟨line, member, given⟩)⟩
  · intro readable
    constructor
    · intro status member
      rcases List.mem_filterMap.mp member with ⟨line, isLine, given⟩
      exact (readable line isLine).status status given
    · intro words member
      rcases List.mem_filterMap.mp member with ⟨line, isLine, given⟩
      exact (readable line isLine).values words given

def exitCodeOf (answer : Bool) : Int := if answer then 10 else 20

/-- The last status is an answer, or there is no status and the exit code is that of an answer. -/
def Reports (transcript : Transcript) (answer : Bool) : Prop :=
  transcript.statuses.getLast? = some (Reading.statusOf answer) ∨
    transcript.statuses = [] ∧ transcript.exitCode = some (exitCodeOf answer)

def verdict? (status : Option Bool) (exitCode : Option Int) : Option Bool :=
  status.or (if exitCode = some (exitCodeOf true) then some true
    else if exitCode = some (exitCodeOf false) then some false else none)

/-- What is made of all that was read. -/
def conclude? (executable : String) (variableCount : Nat) (exitCode : Option Int)
    (reading : Reading) : Except BackendFailure (Option TrueVariables) :=
  match verdict? reading.status exitCode with
  | none => .error (.noAnswer executable exitCode)
  | some false => .ok none
  | some true =>
    if !reading.sawValues && 0 < variableCount then .error (.noModel executable)
    else .ok (some reading.model)

variable {transcript : Transcript} {executable : String} {variableCount : Nat}

theorem answer?_eq : transcript.answer? executable variableCount =
    (Text.lines transcript.output).foldlM (Reading.readLine? executable variableCount)
      Reading.empty >>= conclude? executable variableCount transcript.exitCode := by
  rw [answer?]
  congr 1
  funext reading
  rcases reading with ⟨_ | _ | _, model, sawValues⟩
  · rw [conclude?, verdict?]
    dsimp only
    split
    · rename_i given
      cases given
    · rename_i positive
      rw [positive]
      rfl
    · rename_i negative
      rw [negative]
      rfl
    · rename_i notPositive notNegative
      have neither : transcript.exitCode ≠ some (exitCodeOf true) ∧
          transcript.exitCode ≠ some (exitCodeOf false) := ⟨notPositive, notNegative⟩
      rw [if_neg neither.1, if_neg neither.2]
      rfl
  · rfl
  · rfl

theorem conclude?_eq_ok_iff {exitCode : Option Int} {reading : Reading}
    {answer : Option TrueVariables} :
    conclude? executable variableCount exitCode reading = .ok answer ↔
      verdict? reading.status exitCode = some false ∧ answer = none ∨
      verdict? reading.status exitCode = some true ∧
        (0 < variableCount → reading.sawValues = true) ∧ answer = some reading.model := by
  rw [conclude?]
  rcases verdict? reading.status exitCode with _ | _ | _
  · simp
  · simp [@eq_comm _ answer]
  · rcases Nat.eq_zero_or_pos variableCount with none | some
    · simp [none, @eq_comm _ answer]
    · cases reading.sawValues <;> simp [some, @eq_comm _ answer]

theorem verdict?_eq_some_iff (readable : transcript.Readable) {answer : Bool} :
    verdict? (transcript.statuses.getLast?.map (· == Reading.statusOf true)) transcript.exitCode =
      some answer ↔ transcript.Reports answer := by
  rw [Reports, verdict?]
  rcases isLast : transcript.statuses.getLast? with _ | status
  · rw [List.getLast?_eq_none_iff] at isLast
    rw [isLast]
    by_cases positive : transcript.exitCode = some (exitCodeOf true)
    · rw [positive]
      revert answer
      decide
    · rw [if_neg positive]
      cases answer <;> simp [positive]
  · rcases readable.statuses status (List.mem_of_getLast? isLast) with ⟨given, rfl⟩
    have some : transcript.statuses ≠ [] := List.ne_nil_of_mem (List.mem_of_getLast? isLast)
    have same : ∀ given answer, (Reading.statusOf given == Reading.statusOf true) = answer ↔
        Reading.statusOf given = Reading.statusOf answer := by decide
    simp [some, same]

theorem answer?_eq_ok_iff {answer : Option TrueVariables} :
    transcript.answer? executable variableCount = .ok answer ↔ transcript.Readable ∧
      (transcript.Reports false ∧ answer = none ∨
        transcript.Reports true ∧ (0 < variableCount → transcript.valueLines ≠ []) ∧
          answer = some (transcript.model variableCount)) := by
  have status : ((Text.lines transcript.output).foldl (Reading.next variableCount)
      Reading.empty).status = transcript.statuses.getLast?.map (· == Reading.statusOf true) := by
    rw [Reading.status_foldl_next, statuses, Reading.empty, Option.or_none]
  have sawValues : ((Text.lines transcript.output).foldl (Reading.next variableCount)
      Reading.empty).sawValues = true ↔ transcript.valueLines ≠ [] := by
    rw [Reading.sawValues_foldl_next]
    simp [Reading.empty, valueLines]
  rw [answer?_eq, Except.bind_eq_ok_iff]
  simp only [Reading.foldlM_readLine?_eq_ok_iff, ← readable_iff, conclude?_eq_ok_iff]
  constructor
  · rintro ⟨reading, ⟨readable, rfl⟩, concluded⟩
    rw [sawValues, status, verdict?_eq_some_iff readable, verdict?_eq_some_iff readable,
      Reading.model_foldl_next] at concluded
    exact ⟨readable, concluded⟩
  · rintro ⟨readable, concluded⟩
    refine ⟨_, ⟨readable, rfl⟩, ?_⟩
    rw [sawValues, status, verdict?_eq_some_iff readable, verdict?_eq_some_iff readable,
      Reading.model_foldl_next]
    exact concluded

end Transcript

namespace ExternalState

variable {state : ExternalState} {transcript : Transcript}

theorem readAnswer_eq_false_iff : (state.readAnswer transcript).1 = .ok false ↔
    transcript.answer? state.program.executable state.program.cnf.variableCount = .ok none := by
  rw [readAnswer]
  split <;> simp [*]

theorem readAnswer_eq_true_iff : (state.readAnswer transcript).1 = .ok true ↔ ∃ model,
    transcript.answer? state.program.executable state.program.cnf.variableCount =
      .ok (some model) := by
  rw [readAnswer]
  split <;> simp [*]

/-- What a program's output and exit code make of its state. The answer is negative exactly if
everything can be read and the negative answer is reported; it is positive exactly if everything
can be read, the positive answer is reported and, where there are variables, there is a line of
values. Everything else is a failure that changes nothing. The clauses never change. -/
theorem readAnswer_verdict (state : ExternalState) (transcript : Transcript) :
    let outcome := state.readAnswer transcript
    (outcome.1 = .ok false ↔ transcript.Readable ∧ transcript.Reports false) ∧
    (outcome.1 = .ok true ↔ transcript.Readable ∧ transcript.Reports true ∧
      (0 < state.program.cnf.variableCount → transcript.valueLines ≠ [])) ∧
    (outcome.1 = .ok false ∨ outcome.1 = .ok true ∨
      ∃ failure, outcome = (.error (.aborted failure), state)) ∧
    outcome.2.program.cnf = state.program.cnf := by
  refine ⟨?_, ?_, ?_, ?_⟩
  · rw [readAnswer_eq_false_iff, Transcript.answer?_eq_ok_iff]
    simp
  · rw [readAnswer_eq_true_iff]
    simp [Transcript.answer?_eq_ok_iff]
  · rw [readAnswer]
    split
    · exact .inr (.inr ⟨_, rfl⟩)
    · exact .inr (.inl rfl)
    · exact .inl rfl
  · rw [readAnswer]
    split <;> rfl

/-- The last of two statuses counts, and the exit code does not. -/
example :
    let output := "s SATISFIABLE\nv 1 0\n s  UNSATISFIABLE\n"
    Transcript.Reports ⟨output.toList, some 10⟩ false :=
  .inl (by decide)

end ExternalState

end ModelFinder
