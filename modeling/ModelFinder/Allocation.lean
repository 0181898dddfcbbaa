import ModelFinder.Error
/-!
Allocation of primary variables. Every tuple that a relation may but need not hold gets a
variable; the variables of a relation follow each other, and relations follow each other in
the order in which they are allocated.
-/

namespace ModelFinder

/-- Labels from `start` up to, and without, `stop`. -/
structure LabelRange where
  start : Nat
  stop : Nat
deriving DecidableEq

def LabelRange.labels (range : LabelRange) : List Nat :=
  (List.range (range.stop - range.start)).map (range.start + ·)

/-- The next free label and the ranges handed out, the latest range of a relation first. -/
structure Allocation where
  next : Nat
  ranges : List (Relation × LabelRange)

namespace Allocation

def empty : Allocation := ⟨1, []⟩

/-- Hands out one label for every tuple of the upper bound beyond the lower one. A relation
without such tuples gets the empty range, which is not kept. Labels and their number are
32-bit words: of a larger number the low bits count, and a range must end within them. -/
def allocate? (allocation : Allocation) (relation : Relation) (lowerSize upperSize : Nat) :
    Except Error (LabelRange × Allocation) :=
  if upperSize ≤ lowerSize then .ok (⟨0, 0⟩, allocation)
  else
    let stop := allocation.next + (upperSize - lowerSize) % UInt32.size
    if stop < UInt32.size then
      let range : LabelRange := ⟨allocation.next, stop⟩
      .ok (range, ⟨stop, (relation, range) :: allocation.ranges⟩)
    else .error (.violation .overflow)

def total (allocation : Allocation) : Nat := allocation.next - 1

def range? (allocation : Allocation) (relation : Relation) : Option LabelRange :=
  (allocation.ranges.find? fun entry => entry.1 == relation).map Prod.snd

end Allocation

end ModelFinder
