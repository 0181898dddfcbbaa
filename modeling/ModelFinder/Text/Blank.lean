/-!
Blank characters, and the cutting of text into lines and words by them.

Blank here is the Unicode white-space property, which is wider than the ASCII
blanks: no-break space and the ideographic space separate words too.
-/

namespace ModelFinder.Text

def isBlank (character : Char) : Bool :=
  let code := character.toNat
  (9 ≤ code && code ≤ 13) || code == 0x20 || code == 0x85 || code == 0xa0 || code == 0x1680
    || (0x2000 ≤ code && code ≤ 0x200a) || code == 0x2028 || code == 0x2029
    || code == 0x202f || code == 0x205f || code == 0x3000

/-- The ideographic space is blank, a zero-width space is not. -/
example : isBlank '\u3000' ∧ ¬ isBlank '\u200b' := by decide

def trim (text : List Char) : List Char :=
  ((text.dropWhile isBlank).reverse.dropWhile isBlank).reverse

/-- Cuts text at the characters that satisfy `separates`; `n` cuts give `n + 1` pieces. -/
def splitAt (separates : Char → Bool) : List Char → List (List Char)
  | [] => [[]]
  | character :: rest =>
    match splitAt separates rest with
    | [] => [[character]]
    | piece :: pieces =>
      if separates character then [] :: piece :: pieces else (character :: piece) :: pieces

def words (text : List Char) : List (List Char) :=
  (splitAt isBlank text).filter (fun piece => !piece.isEmpty)

def lines (text : List Char) : List (List Char) :=
  let pieces := splitAt (· == '\n') text
  if pieces.getLast? == some [] then pieces.dropLast else pieces

example : words " a\tbc ".toList = [['a'], ['b', 'c']] := by decide

/-- A final line feed ends the last line and starts no further one. -/
example : lines "a\n\nb\n".toList = [['a'], [], ['b']] := by decide

end ModelFinder.Text
