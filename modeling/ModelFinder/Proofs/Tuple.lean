import Mathlib
import ModelFinder.Proofs.Bounds
import ModelFinder.Proofs.Semantics.Sequences
/-!
Tuples by name and by position. The atoms of a universe have different names, so a tuple is the
sequence of its atoms' names as much as that of their positions, and the position of the tuple among
all tuples of its arity determines it.
-/

namespace ModelFinder

namespace Universe

variable {id : Nat} {names : List String} {univ : Universe}

end Universe

namespace Tuple

variable {univ : Universe} {atoms : List Nat} {names : List String} {arity index : Nat}

/-- Some names are those of the atoms at some positions, in order. -/
def Spells (univ : Universe) : List Nat → List String → Prop :=
  List.Forall₂ fun atom name => univ.atom? atom = some name

theorem Spells.within (spells : Spells univ atoms names) :
    Index.Within univ.size names.length atoms := by
  refine ⟨spells.length_eq, ?_⟩
  induction spells with
  | nil => exact List.forall_mem_nil _
  | cons named _ hypothesis =>
      exact List.forall_mem_cons.mpr ⟨(List.getElem?_eq_some_iff.mp named).1, hypothesis⟩

theorem ofIndex?_eq (positive : 0 < univ.size) (fits : univ.size ^ arity < Index.limit)
    (short : arity < tooLong) (inRange : index < univ.size ^ arity) :
    ofIndex? univ arity index = .ok ⟨univ, Index.decode univ.size arity index⟩ := by
  have words : ¬(tooLong ≤ arity ∨ (2 ≤ univ.size ∧ UInt32.size ≤ arity)) := by
    rintro (long | ⟨atLeastTwo, wide⟩)
    · exact absurd short (not_lt.mpr long)
    · have small := Index.exponent_lt atLeastTwo fits
      have size : UInt32.size = 4294967296 := by decide
      omega
  rw [ofIndex?, Index.capacity_of_lt positive fits]
  change (if univ.size ^ arity ≤ index then _ else _) = _
  rw [if_neg (not_le.mpr inRange), if_neg words]
  rfl

theorem ofIndex?_of_long (positive : 0 < univ.size) (fits : univ.size ^ arity < Index.limit)
    (long : tooLong ≤ arity) (inRange : index < univ.size ^ arity) :
    ofIndex? univ arity index = .error (.violation .overflow) := by
  rw [ofIndex?, Index.capacity_of_lt positive fits]
  change (if univ.size ^ arity ≤ index then _ else _) = _
  rw [if_neg (not_le.mpr inRange), if_pos (.inl long)]
  rfl

end Tuple

end ModelFinder
