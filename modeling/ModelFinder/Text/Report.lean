/-!
Reports of the operating system in messages. A message about a failure of the operating
system ends in a colon and what the system says, which includes the number of the failure
in the form ` (os error 2)`. What it says differs from system to system, so messages are
shown without it.
-/

namespace ModelFinder.Text

def occurs (part : List Char) : List Char → Bool
  | [] => part.isEmpty
  | character :: rest => part.isPrefixOf (character :: rest) || occurs part rest

/-- What stands before the last occurrence of a part. -/
def beforeLast? (part : List Char) : List Char → Option (List Char)
  | [] => none
  | character :: rest =>
    match beforeLast? part rest with
    | some before => some (character :: before)
    | none => if part.isPrefixOf (character :: rest) then some [] else none

def failureMark : List Char := " (os error ".toList

/-- A message up to its last colon if it contains the mark of a report, and all of it
otherwise. -/
def withoutReport (message : List Char) : List Char :=
  if occurs failureMark message then
    (beforeLast? [':', ' '] message).getD message
  else message

/-- The mark may also be part of a name, and then the message is cut all the same. -/
example : withoutReport "could not read x: gone (os error 2)".toList = "could not read x".toList
    ∧ withoutReport "no x (os error 2): y".toList = "no x (os error 2)".toList
    ∧ withoutReport "no x: y".toList = "no x: y".toList := by decide +kernel

end ModelFinder.Text
