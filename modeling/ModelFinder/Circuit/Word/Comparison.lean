import ModelFinder.Circuit.Word.Basic
/-!
Comparison of words. The narrower word is extended by its sign.
-/

namespace ModelFinder.Word

/-- The bits that tell where two words agree, or nothing more once they are found to differ
in constants. -/
def agreements : List (Bit × Bit) → Build (Option (List Bit))
  | [] => pure (some [])
  | (left, right) :: rest => do
    let agree ← Build.iff left right
    if agree.isFalse then return none
    return (← agreements rest).map (agree :: ·)

def eq (left right : Word) : Build Bit := do
  match ← agreements (left.pairs right) with
  | some bits => Build.all bits
  | none => return .const false

/-- The conditions under which the first of two digit sequences is at most the second, most
significant digits first: a digit may drop only if all digits before it agree. -/
def descents (agreeAbove : Bit) : List (Bit × Bit) → Build (List Bit)
  | [] => pure []
  | (left, right) :: rest => do
    let notAbove ← Build.implies left right
    let condition ← Build.implies agreeAbove notAbove
    let agree ← Build.iff left right
    let agree ← Build.and agreeAbove agree
    return condition :: (← descents agree rest)

/-- Whether the first word is at most the second. A negative second word needs a negative
first one; below the sign, the digits must not rise before they drop. -/
def lte (left right : Word) : Build Bit := do
  match (left.pairs right).reverse with
  | [] => return .const true
  | (leftSign, rightSign) :: below =>
    let signs ← Build.implies rightSign leftSign
    let agree ← Build.iff leftSign rightSign
    Build.all (signs :: (← descents agree below))

def lt (left right : Word) : Build Bit := do
  let atMost ← left.lte right
  let equal ← left.eq right
  Build.and atMost (← Build.not equal)

def gt (left right : Word) : Build Bit := right.lt left

def gte (left right : Word) : Build Bit := right.lte left

end ModelFinder.Word
