import Mathlib
import ModelFinder.Proofs.Backend.Transcript
import ModelFinder.Proofs.Text.Numeral
/-!
Printed models. A program prints the literals of a model in any order, over any number of lines and
with any blanks between them, and a zero after the last one; the status and comments stand anywhere
between these lines. What is read back is the printed model.
-/

namespace ModelFinder

/-! Lines -/

/-- A blank that does not end a line. -/
abbrev Space := {character : Char // Text.isBlank character = true ∧ character ≠ '\n'}

def Space.characters (spaces : List Space) : List Char := spaces.map Subtype.val

theorem Space.blank_of_mem {spaces : List Space} :
    ∀ character ∈ characters spaces, Text.isBlank character = true := by
  simp only [characters, List.mem_map]
  rintro _ ⟨space, -, rfl⟩
  exact space.2.1

theorem Space.notMem (spaces : List Space) : '\n' ∉ characters spaces := by
  simp only [characters, List.mem_map, not_exists, not_and]
  exact fun space _ => space.2.2

/-- Lines that a program prints about a model: comments, the status, and values. Spaces may follow
the status, and stand before the first number and after each one; between numbers they must. -/
inductive PrintedLine where
  | comment (remark : List Char) (whole : '\n' ∉ remark)
  | status (after : List Space)
  | values (before : List Space) (numbers : List (Int32 × List Space))
      (separated : ∀ number ∈ numbers.dropLast, number.2 ≠ [])

namespace PrintedLine

def numeral (number : Int32) : List Char := (toString number.toInt).toList

def numberTexts (numbers : List (Int32 × List Space)) : List Char :=
  numbers.flatMap fun number => numeral number.1 ++ Space.characters number.2

def text : PrintedLine → List Char
  | .comment remark _ => 'c' :: ' ' :: remark
  | .status after => 's' :: ' ' :: ("SATISFIABLE".toList ++ Space.characters after)
  | .values before numbers _ => 'v' :: ' ' :: (Space.characters before ++ numberTexts numbers)

def numbers : PrintedLine → List Int32
  | .values _ numbers _ => numbers.map Prod.fst
  | _ => []

def isStatus : PrintedLine → Bool
  | .status _ => true
  | _ => false

theorem isWord_numeral (number : Int32) : Text.IsWord (numeral number) :=
  Text.isWord_toString number.toInt

theorem words_numberTexts {numbers : List (Int32 × List Space)}
    (separated : ∀ number ∈ numbers.dropLast, number.2 ≠ []) :
    Text.words (numberTexts numbers) = numbers.map fun number => numeral number.1 := by
  induction numbers with
  | nil => rfl
  | cons number rest hypothesis =>
      rcases rest with _ | ⟨second, others⟩
      · simp only [numberTexts, List.flatMap_cons, List.flatMap_nil, List.append_nil]
        rw [Text.words_append_blanks Space.blank_of_mem,
          Text.words_of_isWord (isWord_numeral _)]
        rfl
      · rw [List.dropLast_cons_cons, List.forall_mem_cons] at separated
        rcases spaces : number.2 with _ | ⟨space, after⟩
        · exact absurd spaces separated.1
        · have text : numberTexts (number :: second :: others) =
              numeral number.1 ++ space.1 :: (Space.characters after ++
                numberTexts (second :: others)) := by
            simp [numberTexts, spaces, Space.characters]
          rw [text, Text.words_append_cons space.2.1, Text.words_of_isWord (isWord_numeral _),
            Text.words_blanks_append Space.blank_of_mem, hypothesis separated.2]
          rfl

theorem notMem_numberTexts (numbers : List (Int32 × List Space)) :
    '\n' ∉ numberTexts numbers := by
  simp only [numberTexts, List.mem_flatMap, List.mem_append, not_exists, not_and, not_or]
  exact fun number _ =>
    ⟨fun member => absurd ((isWord_numeral number.1).unbroken _ member) (by decide),
      Space.notMem number.2⟩

theorem notMem_text (line : PrintedLine) : '\n' ∉ line.text := by
  cases line with
  | comment remark whole => simpa [text] using whole
  | status after => simpa [text] using Space.notMem after
  | values before numbers separated =>
      simpa [text] using ⟨Space.notMem before, notMem_numberTexts numbers⟩

theorem text_ne_nil (line : PrintedLine) : line.text ≠ [] := by
  cases line <;> simp [text]

theorem status?_text (line : PrintedLine) : Reading.status? line.text =
    if line.isStatus then some (Reading.statusOf true) else none := by
  cases line with
  | comment remark whole =>
      rw [Reading.status?, text, Reading.marked?_cons_of_ne (by decide) (by decide)]
      rfl
  | values before numbers separated =>
      rw [Reading.status?, text, Reading.marked?_cons_of_ne (by decide) (by decide)]
      rfl
  | status after =>
      have trimmed : Text.trim (text (.status after)) = "s SATISFIABLE".toList :=
        Text.trim_cons_append (by decide) (by decide : Text.IsWord "SATISFIABLE".toList)
          Space.blank_of_mem [' ']
      rw [Reading.status?, Reading.marked?, trimmed]
      rfl

/-- A line without numbers may be no line of values; the words of the others are their numbers. -/
theorem values?_text (line : PrintedLine) :
    Reading.values? line.text = none ∧ line.numbers = [] ∨
      Reading.values? line.text = some (line.numbers.map numeral) := by
  cases line with
  | comment remark whole =>
      refine .inl ⟨?_, rfl⟩
      rw [Reading.values?, text, Reading.marked?_cons_of_ne (by decide) (by decide)]
      rfl
  | status after =>
      refine .inl ⟨?_, rfl⟩
      rw [Reading.values?, text]
      exact congrArg _ (Reading.marked?_cons_of_ne (by decide) (by decide))
  | values before numbers separated =>
      have words : Text.words (Space.characters before ++ numberTexts numbers) =
          numbers.map fun number => numeral number.1 := by
        rw [Text.words_blanks_append Space.blank_of_mem, words_numberTexts separated]
      rw [text, PrintedLine.numbers, List.map_map]
      rcases Reading.values?_cons (Space.characters before ++ numberTexts numbers) with
        ⟨noValues, noWords⟩ | values
      · rw [words, List.map_eq_nil_iff] at noWords
        exact .inl ⟨noValues, by rw [noWords, List.map_nil]⟩
      · rw [words] at values
        exact .inr values

theorem readInt32_numeral (number : Int32) :
    Text.readInt32 (numeral number) = some number.toInt :=
  Text.readInt32_toString number.le_toInt number.toInt_lt

theorem upToZero_numerals (numbers : List Int32) : Reading.upToZero (numbers.map numeral) =
    (numbers.takeWhile (· ≠ 0)).map numeral := by
  rw [Reading.upToZero, List.takeWhile_map]
  congr 2
  funext number
  rw [Function.comp_apply, readInt32_numeral]
  by_cases zero : number = 0
  · rw [zero]
    rfl
  · have nonzero : number.toInt ≠ 0 := fun none => zero (Int32.toInt_inj.mp none)
    simp [zero, nonzero]

theorem literals_numerals (numbers : List Int32) : Reading.literals (numbers.map numeral) =
    (numbers.takeWhile (· ≠ 0)).map Int32.toInt := by
  have read : Text.readInt32 ∘ numeral = some ∘ Int32.toInt := funext readInt32_numeral
  rw [Reading.literals, upToZero_numerals, List.filterMap_map, read, List.filterMap_eq_map]

theorem readable_text (line : PrintedLine) : Reading.Readable line.text := by
  constructor
  · intro status given
    rw [status?_text, Option.mem_def, Option.ite_none_right_eq_some, Option.some.injEq] at given
    exact ⟨true, given.2.symm⟩
  · intro words given word member
    rcases line.values?_text with ⟨noValues, -⟩ | values
    · cases noValues.symm.trans given
    · rw [← Option.some.inj (values.symm.trans given), upToZero_numerals, List.mem_map] at member
      rcases member with ⟨number, -, rfl⟩
      rw [readInt32_numeral]
      rfl

def join (ended : Bool) : List PrintedLine → List Char
  | [] => []
  | [line] => line.text ++ if ended then ['\n'] else []
  | line :: next :: rest => line.text ++ '\n' :: join ended (next :: rest)

theorem lines_join (ended : Bool) (lines : List PrintedLine) :
    Text.lines (join ended lines) = lines.map text := by
  induction lines with
  | nil => rfl
  | cons line rest hypothesis =>
      cases rest with
      | nil =>
          cases ended with
          | false =>
              rw [join, if_neg (by decide), List.append_nil,
                Text.lines_of_notMem line.notMem_text line.text_ne_nil]
              rfl
          | true =>
              rw [join, if_pos rfl, Text.lines_append_cons line.notMem_text]
              rfl
      | cons next others =>
          rw [join, Text.lines_append_cons line.notMem_text, hypothesis]
          rfl

theorem filterMap_status?_text (lines : List PrintedLine) :
    (lines.map text).filterMap Reading.status? =
      List.replicate (lines.countP isStatus) (Reading.statusOf true) := by
  induction lines with
  | nil => rfl
  | cons line rest hypothesis =>
      have given := line.status?_text
      cases isStatus : line.isStatus with
      | false =>
          rw [isStatus, if_neg (by decide)] at given
          rw [List.map_cons, List.filterMap_cons_none given, hypothesis,
            List.countP_cons_of_neg (by simp [isStatus])]
      | true =>
          rw [isStatus, if_pos rfl] at given
          rw [List.map_cons, List.filterMap_cons_some given, hypothesis,
            List.countP_cons_of_pos isStatus, List.replicate_succ]

/-- The literals of every line count up to its first zero. -/
theorem literals_filterMap_values?_text (lines : List PrintedLine) :
    ((lines.map text).filterMap Reading.values?).flatMap Reading.literals =
      (lines.flatMap fun line => line.numbers.takeWhile (· ≠ 0)).map Int32.toInt := by
  induction lines with
  | nil => rfl
  | cons line rest hypothesis =>
      rw [List.map_cons, List.flatMap_cons, List.map_append, ← hypothesis]
      rcases line.values?_text with ⟨noValues, noNumbers⟩ | values
      · rw [List.filterMap_cons_none noValues, noNumbers]
        rfl
      · rw [List.filterMap_cons_some values, List.flatMap_cons, literals_numerals]

theorem flatMap_takeWhile_eq {numbers : List (List Int32)} {literals : List Int32}
    (nonzero : ∀ literal ∈ literals, literal ≠ 0)
    (closed : numbers.flatten = literals ++ [0]) :
    numbers.flatMap (·.takeWhile (· ≠ 0)) = literals := by
  induction numbers generalizing literals with
  | nil => cases literals <;> cases closed
  | cons first rest hypothesis =>
      rw [List.flatMap_cons]
      rw [List.flatten_cons, List.append_eq_append_iff] at closed
      rcases closed with ⟨more, rfl, closed⟩ | ⟨more, rfl, closed⟩
      · rw [List.forall_mem_append] at nonzero
        rw [hypothesis nonzero.2 closed, List.takeWhile_eq_self_iff.mpr (by simpa using nonzero.1)]
      · have kept : ∀ literal ∈ literals, decide (literal ≠ 0) = true := by
          simpa using nonzero
        rw [List.takeWhile_append_of_pos kept]
        rcases more with _ | ⟨zero, others⟩
        · have noMore : rest.flatMap (·.takeWhile (· ≠ 0)) = [] :=
            hypothesis (List.forall_mem_nil _) closed.symm
          rw [noMore]
          simp
        · simp only [List.cons_append, List.cons.injEq, List.nil_eq, List.append_eq_nil_iff,
            List.flatten_eq_nil_iff] at closed
          rcases closed with ⟨rfl, rfl, none⟩
          have noMore : rest.flatMap (·.takeWhile (· ≠ 0)) = [] :=
            List.flatMap_eq_nil_iff.mpr fun numbers member => by rw [none numbers member]; rfl
          rw [noMore]
          simp

end PrintedLine

/-! Models -/

namespace Reading

variable {variableCount : Nat} {assignment : Nat → Bool}

theorem contains_setValue {literal : Literal} (holds : literal.holds assignment = true)
    (covered : literal.natAbs ≤ variableCount) (model : TrueVariables) (name : Nat) :
    (setValue variableCount model literal).contains name =
      if name = literal.natAbs then assignment name else model.contains name := by
  rw [Literal.holds] at holds
  rw [setValue, if_neg covered.not_gt]
  split at holds
  · rename_i negative
    rw [if_pos negative, Std.ExtTreeSet.contains_erase]
    by_cases same : name = literal.natAbs
    · subst same
      simpa using holds
    · simp [same, Ne.symm same]
  · rename_i positive
    rw [if_neg positive, Std.ExtTreeSet.contains_insert]
    by_cases same : name = literal.natAbs
    · subst same
      simpa using holds
    · simp [same, Ne.symm same]

theorem contains_foldl_setValue {literals : List Literal}
    (holds : ∀ literal ∈ literals, literal.holds assignment = true)
    (covered : ∀ literal ∈ literals, literal.natAbs ≤ variableCount) (model : TrueVariables)
    (name : Nat) : (literals.foldl (setValue variableCount) model).contains name =
      if name ∈ literals.map Int.natAbs then assignment name else model.contains name := by
  induction literals generalizing model with
  | nil => rfl
  | cons literal rest hypothesis =>
      rw [List.forall_mem_cons] at holds covered
      rw [List.foldl_cons, hypothesis holds.2 covered.2, contains_setValue holds.1 covered.1]
      simp only [List.map_cons, List.mem_cons]
      split <;> simp [*]

end Reading

/-- Lines that print a model of the variables from 1 to `variableCount`. The numbers on all of them
are a literal for every variable, in some order, and a zero; all of the literals hold. One line
gives the status. The last line may lack its line feed. Literals are signed words of 32 bits, so
nothing prints a model of more than `2 ^ 31` variables. -/
structure PrintedModel (variableCount : Nat) (assignment : Nat → Bool) where
  lines : List PrintedLine
  literals : List Int32
  numbers : lines.flatMap PrintedLine.numbers = literals ++ [0]
  complete : (literals.map fun literal => literal.toInt.natAbs).Perm (List.range' 1 variableCount)
  holds : ∀ literal ∈ literals, Literal.holds assignment literal.toInt = true
  status : lines.countP PrintedLine.isStatus = 1
  ended : Bool

namespace PrintedModel

variable {variableCount : Nat} {assignment : Nat → Bool}

def literalOf (assignment : Nat → Bool) (name : Nat) : Int32 :=
  .ofInt (if assignment name then name else -name)

theorem toInt_literalOf {name : Nat} (few : name < 2 ^ 31) :
    (literalOf assignment name).toInt = if assignment name then (name : Int) else -name := by
  refine Int32.toInt_ofInt_of_le ?_ ?_ <;> split <;> omega

theorem holds_literalOf {name : Nat} (positive : 1 ≤ name) (few : name < 2 ^ 31) :
    Literal.holds assignment (literalOf assignment name).toInt = true := by
  rw [toInt_literalOf few]
  cases value : assignment name with
  | true =>
      have sign : ¬(name : Int) < 0 := by omega
      rw [if_pos rfl, Literal.holds, if_neg sign, Int.natAbs_natCast, value]
  | false =>
      have sign : -(name : Int) < 0 := by omega
      rw [if_neg (by decide), Literal.holds, if_pos sign, Int.natAbs_neg, Int.natAbs_natCast,
        value]
      rfl

/-- All values can be printed, as long as 32-bit words count the variables: here in order, after
the status. -/
theorem nonempty (few : variableCount < 2 ^ 31) (assignment : Nat → Bool) :
    Nonempty (PrintedModel variableCount assignment) := by
  let literals := (List.range' 1 variableCount).map (literalOf assignment)
  let space : Space := ⟨' ', by decide⟩
  let spaced := literals.map fun literal => (literal, [space])
  have bounds : ∀ name ∈ List.range' 1 variableCount, 1 ≤ name ∧ name < 2 ^ 31 := by
    intro name member
    rw [List.mem_range'_1] at member
    omega
  refine ⟨{ lines := [.status [], .values [] (spaced ++ [(0, [])]) ?_], literals := literals
            numbers := ?_, complete := ?_, holds := ?_, status := rfl, ended := true }⟩
  · simp [spaced]
  · simp [PrintedLine.numbers, spaced, Function.comp_def]
  · have names : literals.map (fun literal => literal.toInt.natAbs) =
        List.range' 1 variableCount := by
      rw [List.map_map, List.map_congr_left, List.map_id']
      intro name member
      rw [Function.comp_apply, toInt_literalOf (bounds name member).2]
      split <;> simp
    rw [names]
  · rw [List.forall_mem_map]
    exact fun name member => holds_literalOf (bounds name member).1 (bounds name member).2

def transcript (printed : PrintedModel variableCount assignment) (exitCode : Option Int) :
    Transcript :=
  ⟨PrintedLine.join printed.ended printed.lines, exitCode⟩

variable (printed : PrintedModel variableCount assignment) (exitCode : Option Int)

theorem mem_names {name : Nat} :
    name ∈ printed.literals.map (fun literal => literal.toInt.natAbs) ↔
      1 ≤ name ∧ name ≤ variableCount := by
  rw [printed.complete.mem_iff, List.mem_range'_1]
  omega

theorem nonzero {literal : Int32} (member : literal ∈ printed.literals) : literal ≠ 0 := by
  rintro rfl
  have named := printed.mem_names.mp (List.mem_map_of_mem member)
  exact absurd named.1 (by decide)

theorem statuses_transcript :
    (printed.transcript exitCode).statuses = [Reading.statusOf true] := by
  rw [Transcript.statuses, transcript, PrintedLine.lines_join, PrintedLine.filterMap_status?_text,
    printed.status]
  rfl

theorem literals_transcript : (printed.transcript exitCode).valueLines.flatMap Reading.literals =
    printed.literals.map Int32.toInt := by
  rw [Transcript.valueLines, transcript, PrintedLine.lines_join,
    PrintedLine.literals_filterMap_values?_text]
  congr 1
  have closed : (printed.lines.map PrintedLine.numbers).flatten = printed.literals ++ [0] :=
    List.flatMap_def.symm.trans printed.numbers
  rw [← PrintedLine.flatMap_takeWhile_eq (fun _ => printed.nonzero) closed, List.flatMap_map]

theorem readable_transcript : (printed.transcript exitCode).Readable := by
  rw [Transcript.readable_iff, transcript, PrintedLine.lines_join, List.forall_mem_map]
  exact fun line _ => line.readable_text

theorem valueLines_transcript_ne_nil (some : 0 < variableCount) :
    (printed.transcript exitCode).valueLines ≠ [] := by
  intro none
  have noLiterals := printed.literals_transcript exitCode
  rw [none, List.flatMap_nil, eq_comm, List.map_eq_nil_iff] at noLiterals
  have first := printed.mem_names.mpr ⟨le_refl 1, some⟩
  rw [noLiterals] at first
  cases first

theorem answer?_transcript (executable : String) :
    (printed.transcript exitCode).answer? executable variableCount =
      .ok (some ((printed.transcript exitCode).model variableCount)) :=
  Transcript.answer?_eq_ok_iff.mpr
    ⟨printed.readable_transcript exitCode, .inr ⟨.inl (by rw [statuses_transcript]; rfl),
      printed.valueLines_transcript_ne_nil exitCode, rfl⟩⟩

theorem contains_model (name : Nat) :
    ((printed.transcript exitCode).model variableCount).contains name =
      (decide (1 ≤ name ∧ name ≤ variableCount) && assignment name) := by
  have holds : ∀ literal ∈ printed.literals.map Int32.toInt,
      Literal.holds assignment literal = true :=
    List.forall_mem_map.mpr printed.holds
  have covered : ∀ literal ∈ printed.literals.map Int32.toInt,
      literal.natAbs ≤ variableCount :=
    List.forall_mem_map.mpr fun literal member =>
      (printed.mem_names.mp (List.mem_map_of_mem member)).2
  have names : name ∈ printed.literals.map (Int.natAbs ∘ Int32.toInt) ↔
      1 ≤ name ∧ name ≤ variableCount := printed.mem_names
  rw [Transcript.model, literals_transcript, Reading.contains_foldl_setValue holds covered,
    List.map_map]
  by_cases named : 1 ≤ name ∧ name ≤ variableCount
  · rw [if_pos (names.mpr named), decide_eq_true named, Bool.true_and]
  · rw [if_neg (fun member => named (names.mp member)), decide_eq_false named, Bool.false_and,
      Std.ExtTreeSet.contains_empty]

end PrintedModel

/-- A printed model is read back, whatever was known before and whatever the exit code is. -/
theorem ExternalState.readAnswer_printed (state : ExternalState) {assignment : Nat → Bool}
    (printed : PrintedModel state.program.cnf.variableCount assignment)
    (exitCode : Option Int) :
    let outcome := state.readAnswer (printed.transcript exitCode)
    outcome.1 = .ok true ∧ ∀ name, outcome.2.value name =
      (decide (1 ≤ name ∧ name ≤ state.program.cnf.variableCount) && assignment name) := by
  rw [readAnswer, printed.answer?_transcript]
  exact ⟨rfl, printed.contains_model exitCode⟩

theorem ExternalState.readAnswer_printed_apart :
    let output := "c first\nv 3\t-1\ns SATISFIABLE \nc second\nv  -2 0"
    let state : ExternalState :=
      ⟨Disk.initial, ⟨"solver", "clauses", false, false, ⟨3, #[[3, 1], [-2]]⟩, {2}⟩⟩
    let outcome := state.readAnswer ⟨output.toList, some 20⟩
    outcome.1 = .ok true ∧ ∀ name, outcome.2.value name = (name == 3) := by
  intro output state outcome
  let space : Space := ⟨' ', by decide⟩
  let tab : Space := ⟨'\t', by decide⟩
  let printed : PrintedModel 3 fun name => name == 3 :=
    { lines := [.comment "first".toList (by decide),
        .values [] [(3, [tab]), (-1, [])] (by simp), .status [space],
        .comment "second".toList (by decide),
        .values [space] [(-2, [space]), (0, [])] (by simp)]
      literals := [3, -1, -2]
      numbers := rfl
      complete := by decide
      holds := List.all_eq_true.mp (by decide)
      status := rfl
      ended := false }
  have text : printed.transcript (some 20) = ⟨output.toList, some 20⟩ := by
    rw [PrintedModel.transcript, Transcript.mk.injEq]
    exact ⟨by decide +kernel, rfl⟩
  have read := state.readAnswer_printed printed (some 20)
  rw [text] at read
  refine ⟨read.1, fun name => (read.2 name).trans ?_⟩
  by_cases third : name = 3
  · subst third
    rfl
  · simp [third]

end ModelFinder
