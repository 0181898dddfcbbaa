import Mathlib
import ModelFinder.Allocation
import ModelFinder.Proofs.Outcomes
/-!
Labels for one relation after the other. As long as relations differ, their ranges lie side by
side in the order of the demands, without gaps and from 1 on, and every relation keeps the range
that it was given. The number of labels is cut to 32 bits before it is used, so a demand for more
of them than there are words is not refused but met with too few.
-/

namespace ModelFinder

/-- A demand for labels: one for every tuple of a relation's upper bound beyond the lower one. -/
structure Demand where
  relation : Relation
  lowerSize : Nat
  upperSize : Nat

namespace Demand

def openCount (demand : Demand) : Nat := demand.upperSize - demand.lowerSize

/-- The number of labels that are given. -/
def labelCount (demand : Demand) : Nat := demand.openCount % UInt32.size

theorem labelCount_eq_iff (demand : Demand) :
    demand.labelCount = demand.openCount ↔ demand.openCount < UInt32.size :=
  Nat.mod_eq_iff_lt (by decide)

end Demand

theorem LabelRange.labels_eq (range : LabelRange) :
    range.labels = List.range' range.start (range.stop - range.start) :=
  List.range'_eq_map_range.symm

namespace Allocation

def meet? (allocation : Allocation) (demand : Demand) : Except Error (LabelRange × Allocation) :=
  allocation.allocate? demand.relation demand.lowerSize demand.upperSize

def meetAll? (allocation : Allocation) : List Demand → Except Error (List LabelRange × Allocation)
  | [] => .ok ([], allocation)
  | demand :: rest => do
    let (range, middle) ← allocation.meet? demand
    let (ranges, after) ← middle.meetAll? rest
    return (range :: ranges, after)

/-! One demand -/

theorem range?_cons (allocation : Allocation) (relation other : Relation) (range : LabelRange)
    (next : Nat) :
    range? ⟨next, (relation, range) :: allocation.ranges⟩ other =
      if relation = other then some range else allocation.range? other := by
  rw [range?, List.find?_cons]
  by_cases same : relation = other
  · simp [same]
  · have differ : (relation == other) = false := by simpa using same
    simp [same, differ, range?]

theorem meet?_eq (allocation : Allocation) (demand : Demand) :
    allocation.meet? demand =
      let stop := allocation.next + demand.labelCount
      let range : LabelRange := ⟨allocation.next, stop⟩
      if demand.openCount = 0 then .ok (⟨0, 0⟩, allocation)
      else if stop < UInt32.size then
        .ok (range, ⟨stop, (demand.relation, range) :: allocation.ranges⟩)
      else .error (.violation .overflow) := by
  rw [meet?, allocate?]
  simp only [← Nat.sub_eq_zero_iff_le]
  rfl

/-- What meeting a demand changes: the labels from the next one on are handed out, and the relation
has their range, unless it needs none. -/
structure Meets (before : Allocation) (demand : Demand) (range : LabelRange)
    (after : Allocation) : Prop where
  labels : range.labels = List.range' before.next demand.labelCount
  next : after.next = before.next + demand.labelCount
  ranges : ∀ relation, after.range? relation =
    if demand.relation = relation ∧ demand.openCount ≠ 0 then some range
    else before.range? relation

variable {before after : Allocation} {demand : Demand} {range : LabelRange}

theorem meets_of_meet? (met : before.meet? demand = .ok (range, after)) :
    before.Meets demand range after := by
  rw [meet?_eq] at met
  dsimp only at met
  split at met
  · rename_i zero
    cases met
    have noLabels : demand.labelCount = 0 := by rw [Demand.labelCount, zero, Nat.zero_mod]
    constructor
    · rw [noLabels]
      rfl
    · rw [noLabels, Nat.add_zero]
    · intro relation
      rw [if_neg (fun both => both.2 zero)]
  · rename_i some
    split at met
    · cases met
      constructor
      · rw [LabelRange.labels_eq, Nat.add_sub_cancel_left]
      · rfl
      · intro relation
        rw [range?_cons]
        simp only [ne_eq, some, not_false_eq_true, and_true]
    · cases met

theorem meet?_ok_iff (low : before.next < UInt32.size) :
    (∃ range after, before.meet? demand = .ok (range, after)) ↔
      before.next + demand.labelCount < UInt32.size := by
  rw [meet?_eq]
  dsimp only
  split
  · rename_i zero
    rw [Demand.labelCount, zero, Nat.zero_mod, Nat.add_zero]
    exact ⟨fun _ => low, fun _ => ⟨_, _, rfl⟩⟩
  · split
    · rename_i enough
      exact ⟨fun _ => enough, fun _ => ⟨_, _, rfl⟩⟩
    · rename_i short
      constructor
      · rintro ⟨_, _, refused⟩
        cases refused
      · intro enough
        exact absurd enough short

/-! Demands in order -/

/-- What meeting demands changes: their ranges follow each other from the next label on, and every
relation that needs labels has its own range. -/
structure MeetsAll (before : Allocation) (demands : List Demand) (ranges : List LabelRange)
    (after : Allocation) : Prop where
  labels : ranges.flatMap LabelRange.labels =
    List.range' before.next (demands.map Demand.labelCount).sum
  next : after.next = before.next + (demands.map Demand.labelCount).sum
  lengths : List.Forall₂ (fun demand range => range.labels.length = demand.labelCount)
    demands ranges
  own : List.Forall₂ (fun demand range => after.range? demand.relation =
    if demand.openCount = 0 then before.range? demand.relation else some range) demands ranges
  others : ∀ relation, relation ∉ demands.map Demand.relation →
    after.range? relation = before.range? relation

variable {demands : List Demand} {ranges : List LabelRange}

theorem of_meetAll?_cons {rest : List Demand}
    (met : before.meetAll? (demand :: rest) = .ok (ranges, after)) :
    ∃ range middle others, before.meet? demand = .ok (range, middle) ∧
      middle.meetAll? rest = .ok (others, after) ∧ ranges = range :: others := by
  rw [meetAll?] at met
  rcases Except.bind_eq_ok_iff.mp met with ⟨⟨range, middle⟩, first, met⟩
  rcases Except.bind_eq_ok_iff.mp met with ⟨⟨others, last⟩, later, met⟩
  cases met
  exact ⟨range, middle, others, first, later, rfl⟩

theorem Meets.cons {middle : Allocation} {rest : List Demand}
    (first : before.Meets demand range middle) (later : middle.MeetsAll rest ranges after)
    (fresh : demand.relation ∉ rest.map Demand.relation) :
    before.MeetsAll (demand :: rest) (range :: ranges) after where
  labels := by
    rw [List.flatMap_cons, first.labels, later.labels, first.next, List.map_cons, List.sum_cons,
      List.range'_append_1]
  next := by rw [later.next, first.next, List.map_cons, List.sum_cons, Nat.add_assoc]
  lengths := .cons (by rw [first.labels, List.length_range']) later.lengths
  own := by
    apply List.Forall₂.cons
    · rw [later.others _ fresh, first.ranges]
      simp only [true_and, ite_not]
    · -- the ranges that the later demands found are those from before, the first one's apart
      have unchanged : ∀ other ∈ rest,
          middle.range? other.relation = before.range? other.relation := by
        intro other member
        rw [first.ranges, if_neg]
        rintro ⟨same, -⟩
        exact fresh (same ▸ List.mem_map_of_mem member)
      have owned := later.own
      rw [List.forall₂_iff_zip] at owned ⊢
      refine ⟨owned.1, fun {other otherRange} member => ?_⟩
      rw [← unchanged other (List.of_mem_zip member).1]
      exact owned.2 member
  others relation absent := by
    rw [List.map_cons, List.mem_cons, not_or] at absent
    rw [later.others relation absent.2, first.ranges, if_neg]
    rintro ⟨same, -⟩
    exact absent.1 same.symm

theorem meetsAll_of_meetAll? (distinct : (demands.map Demand.relation).Nodup)
    (met : before.meetAll? demands = .ok (ranges, after)) :
    before.MeetsAll demands ranges after := by
  induction demands generalizing before ranges with
  | nil =>
      cases met
      exact ⟨rfl, rfl, .nil, .nil, fun _ _ => rfl⟩
  | cons demand rest hypothesis =>
      rw [List.map_cons, List.nodup_cons] at distinct
      rcases of_meetAll?_cons met with ⟨range, middle, others, first, later, rfl⟩
      exact (meets_of_meet? first).cons (hypothesis distinct.2 later) distinct.1

theorem meetAll?_ok_iff (low : before.next < UInt32.size) :
    (∃ ranges after, before.meetAll? demands = .ok (ranges, after)) ↔
      before.next + (demands.map Demand.labelCount).sum < UInt32.size := by
  induction demands generalizing before with
  | nil => exact ⟨fun _ => low, fun _ => ⟨_, _, rfl⟩⟩
  | cons demand rest hypothesis =>
      rw [List.map_cons, List.sum_cons, ← Nat.add_assoc]
      constructor
      · rintro ⟨ranges, after, met⟩
        rcases of_meetAll?_cons met with ⟨range, middle, others, first, later, -⟩
        have enough := (meet?_ok_iff low).mp ⟨range, middle, first⟩
        have next := (meets_of_meet? first).next
        rw [← next] at enough ⊢
        exact (hypothesis enough).mp ⟨others, after, later⟩
      · intro enough
        rcases (meet?_ok_iff low).mpr (by omega : before.next + demand.labelCount < _) with
          ⟨range, middle, first⟩
        have next := (meets_of_meet? first).next
        rw [← next] at enough
        rcases (hypothesis (by omega)).mpr enough with ⟨others, after, later⟩
        refine ⟨range :: others, after, ?_⟩
        rw [meetAll?, first, Except.ok_bind]
        dsimp only
        rw [later, Except.ok_bind]
        rfl

theorem complete_iff (lengths : List.Forall₂
      (fun demand range => range.labels.length = demand.labelCount) demands ranges) :
    List.Forall₂ (fun demand range => range.labels.length = demand.openCount) demands ranges ↔
      ∀ demand ∈ demands, demand.openCount < UInt32.size := by
  induction lengths with
  | nil => simp
  | cons length _ hypothesis =>
      rw [List.forall₂_cons, hypothesis, length, Demand.labelCount_eq_iff, List.forall_mem_cons]

/-- Labels are handed out in order and without gaps, as many as the 32-bit words of the demands say.
Demands are met just if there are labels for all of these words. Then the ranges follow each other
from 1 to the number of labels, and a relation has the range that it was given, if it needed
any. A range has all labels that were needed as long as their number is a word itself. -/
theorem labels_consecutive (distinct : (demands.map Demand.relation).Nodup) :
    ((∃ ranges after, empty.meetAll? demands = .ok (ranges, after)) ↔
      1 + (demands.map fun demand => demand.openCount % UInt32.size).sum < UInt32.size) ∧
    ∀ ranges after, empty.meetAll? demands = .ok (ranges, after) →
      List.Forall₂ (fun demand range =>
        range.labels.length = demand.openCount % UInt32.size) demands ranges ∧
      (List.Forall₂ (fun demand range => range.labels.length = demand.openCount) demands ranges ↔
        ∀ demand ∈ demands, demand.openCount < UInt32.size) ∧
      ranges.flatMap LabelRange.labels = List.range' 1 after.total ∧
      ranges.Pairwise (fun earlier later =>
        ∀ first ∈ earlier.labels, ∀ second ∈ later.labels, first < second) ∧
      List.Forall₂ (fun demand range => after.range? demand.relation =
        if demand.openCount = 0 then none else some range) demands ranges := by
  refine ⟨meetAll?_ok_iff (by decide), fun ranges after met => ?_⟩
  have meets := meetsAll_of_meetAll? distinct met
  have total : after.total = (demands.map Demand.labelCount).sum := by
    rw [Allocation.total, meets.next]
    exact Nat.add_sub_cancel_left 1 _
  have consecutive : ranges.flatMap LabelRange.labels = List.range' 1 after.total := by
    rw [total]
    exact meets.labels
  refine ⟨meets.lengths, ?_, consecutive, ?_, ?_⟩
  · exact complete_iff meets.lengths
  · have ordered : (List.range' 1 after.total).Pairwise (· < ·) := List.pairwise_lt_range'
    rw [← consecutive, List.pairwise_flatMap] at ordered
    exact ordered.2
  · exact meets.own

theorem labels_consecutive_barn :
    let cow : Relation := ⟨0, "cow", 1⟩
    let fence : Relation := ⟨1, "fence", 2⟩
    let grain : Relation := ⟨2, "grain", 1⟩
    let demands : List Demand := [⟨cow, 1, 3⟩, ⟨fence, 2, 2⟩, ⟨grain, 0, 4294967299⟩]
    (demands.map Demand.relation).Nodup ∧
    ∃ ranges after, empty.meetAll? demands = .ok (ranges, after) ∧
      ranges.flatMap LabelRange.labels = [1, 2, 3, 4, 5] ∧
      List.Forall₂ (fun demand range => range.labels.length = demand.openCount % UInt32.size)
        demands ranges ∧
      List.Forall₂ (fun demand range => after.range? demand.relation =
        if demand.openCount = 0 then none else some range) demands ranges := by
  intro cow fence grain demands
  have distinct : (demands.map Demand.relation).Nodup := by decide
  rcases (labels_consecutive distinct).1.mpr (by decide) with ⟨ranges, after, met⟩
  rcases (labels_consecutive distinct).2 ranges after met with
    ⟨lengths, -, consecutive, -, own⟩
  refine ⟨distinct, ranges, after, met, ?_, lengths, own⟩
  have last : ((empty.meetAll? demands).toOption.map fun met => met.2.total) = some 5 := by decide
  rw [met] at last
  have total : after.total = 5 := Option.some.inj last
  rw [consecutive, total]
  rfl

/-- A relation with more open tuples than there are words is given labels for a few of them. -/
theorem labels_missing :
    let grain : Demand := ⟨⟨0, "grain", 1⟩, 0, 4294967299⟩
    ∃ range after, empty.meetAll? [grain] = .ok ([range], after) ∧ range.labels = [1, 2, 3] ∧
      range.labels.length ≠ grain.upperSize - grain.lowerSize := by
  intro grain
  exact ⟨⟨1, 4⟩, ⟨4, [(grain.relation, ⟨1, 4⟩)]⟩, by cbv, by decide, by decide⟩

end Allocation

end ModelFinder
