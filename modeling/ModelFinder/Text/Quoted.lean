import ModelFinder.Text.Hidden
/-!
Quoted text: a string between double quotes, on one line, with everything a reader
could not see or could mistake written as an escape.
-/

namespace ModelFinder.Text

/-- The escape `\u{...}` of a code point, in lower-case hexadecimal digits. -/
def codeEscape (character : Char) : List Char :=
  "\\u\x7b".toList ++ Nat.toDigits 16 character.toNat ++ ['\x7d']

def quoteChar (character : Char) : List Char :=
  if character == '\x00' then ['\\', '0']
  else if character == '\t' then ['\\', 't']
  else if character == '\r' then ['\\', 'r']
  else if character == '\n' then ['\\', 'n']
  else if character == '\\' || character == '"' then ['\\', character]
  else if isHidden character then codeEscape character
  else [character]

def quote (text : String) : String :=
  String.ofList ('"' :: text.toList.flatMap quoteChar ++ ['"'])

/-- An apostrophe needs no escape, a quote and a delete control do. -/
example : "it's \"x\x7f\"".toList.flatMap quoteChar
    = "it's \\\"x\\u\x7b7f\x7d\\\"".toList := by decide +kernel

end ModelFinder.Text
