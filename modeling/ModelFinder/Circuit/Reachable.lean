import ModelFinder.Circuit.Bit
import Std.Data.ExtTreeMap
/-!
The part of a circuit that some bits depend on.
-/

namespace ModelFinder.Bit

mutual

/-- Adds a bit's gates to the gates found so far, under their labels. A gate that has been
found already brings nothing new, nor do its operands. -/
def addGates (found : Std.ExtTreeMap Int Bit) (bit : Bit) : Std.ExtTreeMap Int Bit :=
  match bit with
  | .const _ | .var _ => found
  | .and label operands =>
    if found.contains label then found
    else addAllGates (found.insert label (.and label operands)) operands
  | .or label operands =>
    if found.contains label then found
    else addAllGates (found.insert label (.or label operands)) operands
  | .not label operand =>
    if found.contains label then found
    else addGates (found.insert label (.not label operand)) operand
  | .ite label condition thenBit elseBit =>
    if found.contains label then found
    else
      addGates (addGates (addGates (found.insert label (.ite label condition thenBit elseBit))
        condition) thenBit) elseBit

def addAllGates (found : Std.ExtTreeMap Int Bit) : List Bit → Std.ExtTreeMap Int Bit
  | [] => found
  | bit :: rest => addAllGates (addGates found bit) rest

end

def reachable (roots : List Bit) : List Bit := (addAllGates ∅ roots).toList.map Prod.snd

/-- A shared operand is listed once. -/
example : (reachable [.or 5 [.not 4 (.var 1), .var 2], .not 4 (.var 1)]).map label = [4, 5] := by
  decide +kernel

end ModelFinder.Bit
