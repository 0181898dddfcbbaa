import Mathlib
import ModelFinder.Backend.External
import ModelFinder.Cnf.Reader
import ModelFinder.Proofs.Cnf.Clauses
import ModelFinder.Proofs.Text.Numeral
/-!
DIMACS texts. The reader finds the variables and the clauses that were written, in their order, if
no literal is zero and the variables cover all literals. So they do in every conjunction that an
external program is offered, however variables and clauses are announced, and no two of these
conjunctions have the same text.
-/

namespace ModelFinder

open Text

/-! Written clauses -/

namespace Cnf

def clauseText (clause : Clause) : List Char :=
  (clause.flatMap fun literal => (toString literal).toList ++ [' ']) ++ ['0']

theorem toList_clauseLine (clause : Clause) :
    (clauseLine clause).toList = clauseText clause ++ ['\n'] := by
  rw [clauseLine, String.toList_append, String.toList_join, List.flatMap_map, clauseText]
  simp only [String.toList_append, List.append_assoc]
  rfl

theorem words_clauseText (clause : Clause) :
    words (clauseText clause) = (clause ++ [0]).map fun number => (toString number).toList := by
  induction clause with
  | nil => rfl
  | cons literal rest hypothesis =>
      have step : clauseText (literal :: rest) =
          (toString literal).toList ++ ' ' :: clauseText rest := by
        simp [clauseText]
      rw [step, words_append_cons (by decide), words_of_isWord (isWord_toString literal),
        hypothesis]
      rfl

def headerText (cnf : Cnf) : List Char :=
  ['p', ' ', 'c', 'n', 'f', ' '] ++ (toString cnf.variableCount).toList ++ ' ' ::
    (toString cnf.clauseCount).toList

theorem toList_dimacs (cnf : Cnf) : cnf.dimacs.toList =
    cnf.headerText ++ '\n' ::
      cnf.clauses.toList.flatMap fun clause => clauseText clause ++ ['\n'] := by
  have lines : (cnf.clauses.toList.map clauseLine).flatMap String.toList =
      cnf.clauses.toList.flatMap fun clause => clauseText clause ++ ['\n'] := by
    rw [List.flatMap_map]
    exact List.flatMap_congr fun clause _ => toList_clauseLine clause
  rw [dimacs]
  simp only [String.toList_append, String.toList_join, lines, headerText, List.append_assoc]
  rfl

theorem words_headerText (cnf : Cnf) : words cnf.headerText =
    [['p'], ['c', 'n', 'f'], (toString cnf.variableCount).toList,
      (toString cnf.clauseCount).toList] := by
  have split : cnf.headerText = ['p'] ++ ' ' :: (['c', 'n', 'f'] ++ ' ' ::
      ((toString cnf.variableCount).toList ++ ' ' :: (toString cnf.clauseCount).toList)) := by
    simp [headerText]
  have blank : isBlank ' ' = true := by decide
  have problem : IsWord ['p'] := by decide
  have format : IsWord ['c', 'n', 'f'] := by decide
  rw [split, words_append_cons blank, words_append_cons blank, words_append_cons blank,
    words_of_isWord problem, words_of_isWord format, words_of_isWord (isWord_natCast _),
    words_of_isWord (isWord_natCast _)]
  rfl

theorem notMem_of_isWord {word : List Char} (isWord : IsWord word) : '\n' ∉ word := fun member =>
  absurd (isWord.unbroken _ member) (by decide)

theorem notMem_clauseText (clause : Clause) : '\n' ∉ clauseText clause := by
  simp only [clauseText, List.mem_append, List.mem_flatMap, List.mem_singleton, not_or, not_exists,
    not_and]
  refine ⟨fun literal _ => ⟨notMem_of_isWord (isWord_toString literal), by decide⟩, by decide⟩

theorem notMem_headerText (cnf : Cnf) : '\n' ∉ cnf.headerText := by
  simp only [headerText, List.mem_append, List.mem_cons, not_or]
  exact ⟨⟨by decide, notMem_of_isWord (isWord_natCast _)⟩, by decide,
    notMem_of_isWord (isWord_natCast _)⟩

theorem lines_dimacs (cnf : Cnf) :
    lines cnf.dimacs.toList = cnf.headerText :: cnf.clauses.toList.map clauseText := by
  rw [toList_dimacs, lines_append_cons cnf.notMem_headerText]
  congr 1
  induction cnf.clauses.toList with
  | nil => rfl
  | cons clause rest hypothesis =>
      rw [List.flatMap_cons, List.append_assoc, List.singleton_append,
        lines_append_cons (notMem_clauseText clause), hypothesis, List.map_cons]

theorem isComment_clauseText (clause : Clause) : Dimacs.isComment (clauseText clause) = false := by
  rw [Dimacs.isComment, beq_eq_false_iff_ne]
  cases clause with
  | nil => decide
  | cons literal rest =>
      have first : (clauseText (literal :: rest)).head? = (toString literal).toList.head? := by
        simp only [clauseText, List.flatMap_cons, List.append_assoc]
        exact List.head?_append_of_ne_nil _ (isWord_toString literal).nonempty
      rw [first]
      intro letter
      rw [toList_toString] at letter
      split at letter
      · simp at letter
      · have digit := Nat.isDigit_of_mem_toDigits (by decide) (by decide)
          (List.mem_of_mem_head? letter)
        exact absurd digit (by decide)

end Cnf

/-! Reading -/

namespace Dimacs

theorem mapM_readInt (numbers : List Int) :
    (numbers.map fun number => (toString number).toList).mapM readInt = some numbers := by
  induction numbers with
  | nil => rfl
  | cons number rest hypothesis =>
      rw [List.map_cons, List.mapM_cons, hypothesis, readInt_toString]
      rfl

theorem header?_words (cnf : Cnf) :
    header? (words cnf.headerText) = some (cnf.variableCount, cnf.clauseCount) := by
  rw [Cnf.words_headerText, header?, if_pos (by decide), readDigits_natCast, readDigits_natCast]
  rfl

theorem content?_dimacs (cnf : Cnf) : content? cnf.dimacs =
    some ⟨cnf.variableCount, cnf.clauseCount, cnf.clauses.toList.flatMap (· ++ [0])⟩ := by
  have uncommented : (lines cnf.dimacs.toList).filter (fun line => !isComment line) =
      cnf.headerText :: cnf.clauses.toList.map Cnf.clauseText := by
    rw [cnf.lines_dimacs, List.filter_eq_self]
    simp only [List.forall_mem_cons, List.forall_mem_map, Cnf.isComment_clauseText]
    exact ⟨rfl, fun _ _ => rfl⟩
  have numbers : ((cnf.clauses.toList.map Cnf.clauseText).flatMap words).mapM readInt =
      some (cnf.clauses.toList.flatMap (· ++ [0])) := by
    rw [List.flatMap_map]
    simp only [Cnf.words_clauseText]
    rw [← List.map_flatMap]
    exact mapM_readInt _
  rw [content?, uncommented]
  dsimp only
  rw [header?_words, numbers]
  rfl

theorem clauses?_append {clause : Clause} (nonzero : ∀ literal ∈ clause, literal ≠ 0)
    (begun : Clause) (rest : List Int) :
    clauses? begun (clause ++ 0 :: rest) = (clauses? [] rest).map ((begun ++ clause) :: ·) := by
  induction clause generalizing begun with
  | nil => rw [List.nil_append, clauses?, if_pos rfl, List.append_nil]
  | cons literal others hypothesis =>
      rw [List.forall_mem_cons] at nonzero
      rw [List.cons_append, clauses?, if_neg nonzero.1, hypothesis nonzero.2, List.append_assoc,
        List.singleton_append]

/-- Zeros close the clauses that they were written after. -/
theorem clauses?_flatMap {clauses : List Clause}
    (nonzero : ∀ clause ∈ clauses, ∀ literal ∈ clause, literal ≠ 0) :
    clauses? [] (clauses.flatMap (· ++ [0])) = some clauses := by
  induction clauses with
  | nil => rfl
  | cons clause rest hypothesis =>
      rw [List.forall_mem_cons] at nonzero
      rw [List.flatMap_cons, List.append_assoc, List.singleton_append, clauses?_append nonzero.1,
        hypothesis nonzero.2]
      rfl

theorem count_flatMap {clauses : List Clause}
    (nonzero : ∀ clause ∈ clauses, ∀ literal ∈ clause, literal ≠ 0) :
    (clauses.flatMap (· ++ [0])).count 0 = clauses.length := by
  induction clauses with
  | nil => rfl
  | cons clause rest hypothesis =>
      rw [List.forall_mem_cons] at nonzero
      rw [List.flatMap_cons, List.count_append, List.count_append, hypothesis nonzero.2,
        List.count_eq_zero_of_not_mem fun member => nonzero.1 0 member rfl, List.length_cons]
      simp [Nat.add_comm]

end Dimacs

/-- The literals of a conjunction are not zero, and its variables cover them. -/
structure Cnf.Covered (cnf : Cnf) : Prop where
  nonzero : ∀ clause ∈ cnf.clauses.toList, ∀ literal ∈ clause, literal ≠ 0
  covered : ∀ clause ∈ cnf.clauses.toList, ∀ literal ∈ clause,
    literal.natAbs ≤ cnf.variableCount

theorem Cnf.Covered.natAbs_le {cnf : Cnf} (covered : cnf.Covered) :
    ∀ number ∈ cnf.clauses.toList.flatMap (· ++ [0]), number.natAbs ≤ cnf.variableCount := by
  simp only [List.mem_flatMap, List.mem_append, List.mem_singleton]
  rintro number ⟨clause, member, literal | rfl⟩
  · exact covered.covered clause member number literal
  · exact Nat.zero_le _

theorem Cnf.Covered.read?_dimacs {cnf : Cnf} (covered : cnf.Covered) :
    Dimacs.read? cnf.dimacs = some cnf := by
  rw [Dimacs.read?, Dimacs.content?_dimacs]
  dsimp only [Option.bind_eq_bind, Option.bind_some]
  rw [Dimacs.clauses?_flatMap covered.nonzero]
  dsimp only [Option.bind_some]
  have bounded : (cnf.clauses.toList.flatMap (· ++ [0])).all
      (fun number => number.natAbs ≤ cnf.variableCount) = true := by
    simpa only [List.all_eq_true, decide_eq_true_iff] using covered.natAbs_le
  rw [if_pos ⟨rfl, bounded⟩]
  rfl

/-! Conjunctions that a program is offered -/

/-- What a program is told before it is run. -/
inductive Announcement where
  | variableCount (further : Nat)
  | clause (literals : Clause)

def Announcement.Nonzero : Announcement → Prop
  | .variableCount _ => True
  | .clause literals => ∀ literal ∈ literals, literal ≠ 0

def ExternalState.announce (state : ExternalState) : Announcement → Except Error ExternalState
  | .variableCount further => state.addVariables further
  | .clause literals => .ok (state.addClause literals).2

/-- Conjunctions that a fresh program holds after announcements in any order. -/
def Cnf.Announced (cnf : Cnf) : Prop :=
  ∃ disk executable path, ∃ announcements : List Announcement, ∃ state : ExternalState,
    (∀ announcement ∈ announcements, announcement.Nonzero) ∧
    announcements.foldlM ExternalState.announce (ExternalState.start disk executable path) =
      .ok state ∧ state.program.cnf = cnf

namespace Cnf

theorem covered_empty : empty.Covered := ⟨by simp [empty], by simp [empty]⟩

theorem Covered.addVariables {cnf : Cnf} (covered : cnf.Covered) {count : Nat}
    (le : cnf.variableCount ≤ count) : Covered { cnf with variableCount := count } :=
  ⟨covered.nonzero, fun clause member literal isLiteral =>
    (covered.covered clause member literal isLiteral).trans le⟩

theorem Covered.add {cnf : Cnf} (covered : cnf.Covered) {clause : Clause}
    (nonzero : ∀ literal ∈ clause, literal ≠ 0) : (cnf.add clause).Covered := by
  have bounds := variableCount_add_le.mp (le_refl (cnf.add clause).variableCount)
  have clauses : (cnf.add clause).clauses.toList = cnf.clauses.toList ++ [clause] := by
    simp [Cnf.add]
  constructor
  · rw [clauses, List.forall_mem_append, List.forall_mem_singleton]
    exact ⟨covered.nonzero, nonzero⟩
  · rw [clauses, List.forall_mem_append, List.forall_mem_singleton]
    exact ⟨fun other member literal isLiteral =>
      (covered.covered other member literal isLiteral).trans bounds.1, bounds.2⟩

end Cnf

theorem ExternalState.covered_announce {state after : ExternalState} {announcement : Announcement}
    (nonzero : announcement.Nonzero) (taken : state.announce announcement = .ok after)
    (covered : state.program.cnf.Covered) : after.program.cnf.Covered := by
  cases announcement with
  | variableCount further =>
      simp only [announce, addVariables, addVariableCount] at taken
      split at taken
      · cases taken
        exact covered.addVariables (Nat.le_add_right _ _)
      · cases taken
  | clause literals =>
      cases taken
      exact covered.add nonzero

theorem ExternalState.covered_announcements {announcements : List Announcement}
    {state after : ExternalState} (nonzero : ∀ announcement ∈ announcements, announcement.Nonzero)
    (taken : announcements.foldlM announce state = .ok after)
    (covered : state.program.cnf.Covered) : after.program.cnf.Covered := by
  induction announcements generalizing state with
  | nil =>
      cases taken
      exact covered
  | cons first rest hypothesis =>
      rw [List.forall_mem_cons] at nonzero
      rw [List.foldlM_cons] at taken
      rcases isFirst : state.announce first with error | middle
      · rw [isFirst] at taken
        cases taken
      · rw [isFirst] at taken
        exact hypothesis nonzero.2 taken (covered_announce nonzero.1 isFirst covered)

theorem Cnf.Announced.covered {cnf : Cnf} (announced : cnf.Announced) : cnf.Covered := by
  rcases announced with ⟨disk, executable, path, announcements, state, nonzero, taken, rfl⟩
  refine ExternalState.covered_announcements nonzero taken ?_
  cases path <;> exact covered_empty

/-- Nothing is lost where an announced conjunction is written. The text is read back as the same
conjunction; its header covers the numbers after it and counts the zeros among them; and no other
announced conjunction has this text. -/
theorem Cnf.Announced.dimacs_lossless {cnf : Cnf} (announced : cnf.Announced) :
    Dimacs.read? cnf.dimacs = some cnf ∧
    (∃ content, Dimacs.content? cnf.dimacs = some content ∧
      (∀ number ∈ content.numbers, number.natAbs ≤ content.variableCount) ∧
      content.clauseCount = content.numbers.count 0) ∧
    ∀ other : Cnf, other.Announced → other.dimacs = cnf.dimacs → other = cnf := by
  have covered := announced.covered
  refine ⟨covered.read?_dimacs, ⟨_, Dimacs.content?_dimacs cnf, covered.natAbs_le, ?_⟩,
    fun other otherAnnounced same => ?_⟩
  · exact (Dimacs.count_flatMap covered.nonzero).symm
  · have read := otherAnnounced.covered.read?_dimacs
    rw [same, covered.read?_dimacs] at read
    exact (Option.some.inj read).symm

theorem Cnf.dimacs_lossless_between :
    let cnf : Cnf := ⟨7, #[[1, -2], [], [7, -4]]⟩
    let text := "p cnf 7 3\n1 -2 0\n0\n7 -4 0\n"
    cnf.Announced ∧ cnf.dimacs = text ∧ Dimacs.read? text = some cnf ∧
      ∀ other : Cnf, other.Announced → other.dimacs = text → other = cnf := by
  intro cnf text
  have announced : cnf.Announced :=
    ⟨Disk.initial, "solver", some "clauses", [.clause [1, -2], .variableCount 2, .clause [],
      .clause [7, -4]], _, by simp [Announcement.Nonzero], rfl, rfl⟩
  have written : cnf.dimacs = text := by decide +kernel
  have lossless := announced.dimacs_lossless
  rw [written] at lossless
  exact ⟨announced, written, lossless.1, lossless.2.2⟩

end ModelFinder
