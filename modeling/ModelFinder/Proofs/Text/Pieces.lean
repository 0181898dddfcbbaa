import Mathlib
import ModelFinder.Text.Blank
/-!
Cutting of text. A piece that holds no separator is cut off where one follows, so lines and words
can be read back from texts that are put together from them.
-/

namespace ModelFinder.Text

section

variable {separates : Char → Bool} {piece text : List Char}

theorem splitAt_cons (separates : Char → Bool) (character : Char) (text : List Char) :
    splitAt separates (character :: text) = match splitAt separates text with
      | [] => [[character]]
      | piece :: pieces =>
        if separates character then [] :: piece :: pieces
        else (character :: piece) :: pieces := rfl

theorem splitAt_ne_nil (separates : Char → Bool) (text : List Char) :
    splitAt separates text ≠ [] := by
  cases text with
  | nil => exact List.cons_ne_nil _ _
  | cons character rest =>
      rw [splitAt_cons]
      split
      · exact List.cons_ne_nil _ _
      · split <;> exact List.cons_ne_nil _ _

theorem splitAt_cons_of_separates {character : Char} (cut : separates character = true)
    (text : List Char) :
    splitAt separates (character :: text) = [] :: splitAt separates text := by
  rcases isPieces : splitAt separates text with _ | ⟨piece, pieces⟩
  · exact absurd isPieces (splitAt_ne_nil separates text)
  · rw [splitAt_cons, isPieces]
    exact if_pos cut

theorem splitAt_of_separates_none (whole : ∀ character ∈ piece, separates character = false) :
    splitAt separates piece = [piece] := by
  induction piece with
  | nil => rfl
  | cons character rest hypothesis =>
      rw [List.forall_mem_cons] at whole
      rw [splitAt_cons, hypothesis whole.2]
      simp [whole.1]

theorem splitAt_append_cons {character : Char} (cut : separates character = true)
    (before text : List Char) :
    splitAt separates (before ++ character :: text) =
      splitAt separates before ++ splitAt separates text := by
  induction before with
  | nil => exact splitAt_cons_of_separates cut text
  | cons first rest hypothesis =>
      rcases isPieces : splitAt separates rest with _ | ⟨piece, pieces⟩
      · exact absurd isPieces (splitAt_ne_nil separates rest)
      · rw [isPieces, List.cons_append] at hypothesis
        rw [List.cons_append, splitAt_cons, splitAt_cons, hypothesis, isPieces]
        dsimp only
        split <;> rfl

end

/-! Lines -/

@[simp] theorem lines_nil : lines [] = [] := rfl

theorem splitAt_line {line : List Char} (whole : '\n' ∉ line) :
    splitAt (· == '\n') line = [line] :=
  splitAt_of_separates_none fun character member => by
    rw [beq_eq_false_iff_ne]
    exact fun equal => whole (equal ▸ member)

theorem lines_of_notMem {line : List Char} (whole : '\n' ∉ line) (nonempty : line ≠ []) :
    lines line = [line] := by
  rw [lines, splitAt_line whole]
  simp [nonempty]

/-- A line feed ends a line. -/
theorem lines_append_cons {line : List Char} (whole : '\n' ∉ line) (text : List Char) :
    lines (line ++ '\n' :: text) = line :: lines text := by
  have pieces : splitAt (· == '\n') (line ++ '\n' :: text) =
      line :: splitAt (· == '\n') text := by
    rw [splitAt_append_cons (by simp), splitAt_line whole, List.singleton_append]
  rw [lines, lines, pieces, List.getLast?_cons_of_ne_nil (splitAt_ne_nil _ _)]
  split
  · exact List.dropLast_cons_of_ne_nil (splitAt_ne_nil _ _)
  · rfl

/-! Words -/

@[simp] theorem words_nil : words [] = [] := rfl

theorem words_cons_of_blank {blank : Char} (isBlank : isBlank blank = true) (text : List Char) :
    words (blank :: text) = words text := by
  rw [words, splitAt_cons_of_separates isBlank]
  rfl

theorem words_append_cons {blank : Char} (isBlank : isBlank blank = true)
    (before text : List Char) : words (before ++ blank :: text) = words before ++ words text := by
  rw [words, splitAt_append_cons isBlank, List.filter_append, words, words]

theorem words_blanks_append {blanks : List Char}
    (blank : ∀ character ∈ blanks, isBlank character = true) (text : List Char) :
    words (blanks ++ text) = words text := by
  induction blanks with
  | nil => rfl
  | cons first rest hypothesis =>
      rw [List.forall_mem_cons] at blank
      rw [List.cons_append, words_cons_of_blank blank.1, hypothesis blank.2]

theorem words_of_blank {blanks : List Char}
    (blank : ∀ character ∈ blanks, isBlank character = true) : words blanks = [] := by
  simpa using words_blanks_append blank []

/-- A word is a nonempty text without blanks. -/
structure IsWord (word : List Char) : Prop where
  nonempty : word ≠ []
  unbroken : ∀ character ∈ word, isBlank character = false

theorem isWord_iff {word : List Char} :
    IsWord word ↔ word ≠ [] ∧ word.all fun character => !isBlank character := by
  rw [List.all_eq_true]
  simp only [Bool.not_eq_true']
  exact ⟨fun isWord => ⟨isWord.nonempty, isWord.unbroken⟩, fun both => ⟨both.1, both.2⟩⟩

instance (word : List Char) : Decidable (IsWord word) := decidable_of_iff' _ isWord_iff

theorem words_of_isWord {word : List Char} (isWord : IsWord word) : words word = [word] := by
  rw [words, splitAt_of_separates_none isWord.unbroken]
  simp [isWord.nonempty]

theorem words_append_blanks {blanks : List Char}
    (blank : ∀ character ∈ blanks, isBlank character = true) (text : List Char) :
    words (text ++ blanks) = words text := by
  cases blanks with
  | nil => rw [List.append_nil]
  | cons first rest =>
      rw [List.forall_mem_cons] at blank
      rw [words_append_cons blank.1, words_of_blank blank.2, List.append_nil]

/-! Trimming -/

theorem trim_eq (text : List Char) : trim text = (text.dropWhile isBlank).rdropWhile isBlank := rfl

theorem trim_cons {first : Char} (visible : isBlank first = false) (rest : List Char) :
    trim (first :: rest) = first :: rest.rdropWhile isBlank := by
  rw [trim_eq, List.dropWhile_cons_of_neg (by simp [visible]), List.rdropWhile, List.reverse_cons,
    List.dropWhile_append, List.dropWhile_cons_of_neg (by simp [visible])]
  split
  · rename_i none
    rw [List.rdropWhile, List.isEmpty_iff.mp none]
    rfl
  · rw [List.reverse_append]
    rfl

theorem rdropWhile_append_of_blank {blanks : List Char}
    (blank : ∀ character ∈ blanks, isBlank character = true) (text : List Char) :
    (text ++ blanks).rdropWhile isBlank = text.rdropWhile isBlank := by
  rw [List.rdropWhile, List.reverse_append, List.dropWhile_append_of_pos, List.rdropWhile]
  simpa using blank

theorem rdropWhile_cons {text : List Char} (visible : text.rdropWhile isBlank ≠ [])
    (first : Char) : (first :: text).rdropWhile isBlank = first :: text.rdropWhile isBlank := by
  have kept : text.reverse.dropWhile isBlank ≠ [] := by simpa [List.rdropWhile] using visible
  rw [List.rdropWhile, List.reverse_cons, List.dropWhile_append, if_neg (by simpa using kept),
    List.reverse_append]
  rfl

theorem words_rdropWhile (text : List Char) : words (text.rdropWhile isBlank) = words text := by
  have blank : ∀ character ∈ text.rtakeWhile isBlank, isBlank character = true :=
    fun character => List.mem_rtakeWhile_imp
  rw [← words_append_blanks blank, List.rdropWhile_append_rtakeWhile]

theorem rdropWhile_append_word {word : List Char} (isWord : IsWord word) (text : List Char) :
    (text ++ word).rdropWhile isBlank = text ++ word := by
  rw [List.rdropWhile_eq_self_iff]
  intro _
  rw [List.getLast_append_of_ne_nil _ isWord.nonempty]
  simp [isWord.unbroken _ (List.getLast_mem isWord.nonempty)]

theorem trim_cons_append {first : Char} (visible : isBlank first = false) {word blanks : List Char}
    (isWord : IsWord word) (blank : ∀ character ∈ blanks, isBlank character = true)
    (text : List Char) :
    trim (first :: (text ++ word ++ blanks)) = first :: (text ++ word) := by
  rw [trim_cons visible, rdropWhile_append_of_blank blank, rdropWhile_append_word isWord]

end ModelFinder.Text
