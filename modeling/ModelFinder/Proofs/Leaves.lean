import Mathlib
import ModelFinder.Leaves
import ModelFinder.Proofs.Allocation
import ModelFinder.Proofs.Bounds
import ModelFinder.Proofs.Circuit.Soundness
import ModelFinder.Proofs.Circuit.Matrix.Basic
/-!
Primary variables of bounds. The open tuples of all bound relations, in order, have the
variables 1, 2, 3 and so on, each tuple one of its own, and the matrix of a relation holds
the variable of an open tuple in the tuple's cell.
-/

namespace ModelFinder

namespace RelationBound

def uncertain (bound : RelationBound) : List Nat :=
  bound.upper.toList.filter fun index => !bound.lower.containsIndex index

def openCount (bound : RelationBound) : Nat := bound.upper.size - bound.lower.size

/-- The number of open tuples that get a variable. -/
def labelCount (bound : RelationBound) : Nat := bound.openCount % UInt32.size

variable {univ : Universe} {bound : RelationBound}

theorem mem_uncertain {index : Nat} : index ∈ bound.uncertain ↔
    bound.upper.containsIndex index = true ∧ bound.lower.containsIndex index = false := by
  rw [uncertain, List.mem_filter, TupleSet.mem_toList, Bool.not_eq_true']

theorem nodup_uncertain (bound : RelationBound) : bound.uncertain.Nodup :=
  (bound.upper.pairwise_toList.sublist List.filter_sublist).nodup

theorem Sound.length_uncertain (sound : bound.Sound univ) :
    bound.uncertain.length = bound.openCount := by
  have certain : bound.lower.toList =
      bound.upper.toList.filter fun index => bound.lower.containsIndex index := by
    apply TupleSet.toList_eq (bound.upper.pairwise_toList.sublist List.filter_sublist)
    intro index
    rw [List.mem_filter, TupleSet.mem_toList]
    exact ⟨fun held => held.2, fun held => ⟨sound.subset index held, held⟩⟩
  have split := List.length_eq_length_filter_add (fun index => bound.lower.containsIndex index)
    (l := bound.upper.toList)
  rw [openCount, TupleSet.size_eq_length, TupleSet.size_eq_length, certain, uncertain]
  omega

end RelationBound

def Bounds.openCount (bounds : Bounds) : Nat :=
  (bounds.entries.map RelationBound.openCount).sum

def RelationBound.demand (bound : RelationBound) : Demand :=
  ⟨bound.relation, bound.lower.size, bound.upper.size⟩

namespace Allocation

def allocateAll (allocation : Allocation) (entries : List RelationBound) :
    Except Error Allocation :=
  entries.foldlM
    (fun allocation entry =>
      (allocation.allocate? entry.relation entry.lower.size entry.upper.size).map Prod.snd)
    allocation

theorem allocateAll_eq (allocation : Allocation) (entries : List RelationBound) :
    allocation.allocateAll entries =
      (allocation.meetAll? (entries.map RelationBound.demand)).map Prod.snd := by
  induction entries generalizing allocation with
  | nil => rfl
  | cons entry rest hypothesis =>
      have opened : allocation.allocateAll (entry :: rest) =
          ((allocation.meet? entry.demand).map Prod.snd >>= fun middle =>
            middle.allocateAll rest) := rfl
      rw [opened, List.map_cons, meetAll?]
      rcases allocation.meet? entry.demand with error | ⟨range, middle⟩
      · rfl
      · change middle.allocateAll rest =
          (middle.meetAll? (rest.map RelationBound.demand) >>= fun later =>
            pure (range :: later.1, later.2)).map Prod.snd
        rw [hypothesis]
        cases middle.meetAll? (rest.map RelationBound.demand) <;> rfl

private theorem map_fst_zip_eq_take {α β : Type} (elements : List α) (partners : List β) :
    (elements.zip partners).map Prod.fst = elements.take partners.length := by
  induction elements generalizing partners with
  | nil => simp
  | cons element rest hypothesis =>
      cases partners with
      | nil => rfl
      | cons partner others => exact congrArg (element :: ·) (hypothesis others)

private theorem openTuples_of_range {entry : RelationBound} {allocation : Allocation}
    {range : LabelRange} (length : range.labels.length = entry.labelCount)
    (found : allocation.range? entry.relation =
      if entry.openCount = 0 then none else some range) :
    entry.openTuples allocation = entry.uncertain.zip range.labels := by
  rw [RelationBound.openTuples, found]
  split
  · rename_i none
    rw [RelationBound.labelCount, none, Nat.zero_mod, List.length_eq_zero_iff] at length
    rw [length]
    rfl
  · rfl

private theorem openTuples_labels {univ : Universe} {entry : RelationBound}
    {allocation : Allocation} {range : LabelRange} (sound : entry.Sound univ)
    (length : range.labels.length = entry.labelCount)
    (found : allocation.range? entry.relation =
      if entry.openCount = 0 then none else some range) :
    (entry.openTuples allocation).map Prod.fst = entry.uncertain.take entry.labelCount ∧
    (entry.openTuples allocation).map Prod.snd = range.labels := by
  have short : range.labels.length ≤ entry.uncertain.length := by
    rw [length, sound.length_uncertain]
    exact Nat.mod_le _ _
  rw [openTuples_of_range length found, List.map_snd_zip short, map_fst_zip_eq_take, length]
  exact ⟨rfl, rfl⟩

/-- Labels are handed out without gaps; relations without open tuples get none. The open tuples of
a relation that are more than there are labels go without. -/
theorem allocateAll_labels {univ : Universe} {entries : List RelationBound}
    (sound : ∀ entry ∈ entries, entry.Sound univ)
    (distinct : (entries.map RelationBound.relation).Nodup) {before after : Allocation}
    (fresh : ∀ entry ∈ entries, before.range? entry.relation = none)
    (allocated : before.allocateAll entries = .ok after) :
    after.next = before.next + (entries.map RelationBound.labelCount).sum ∧
    (∀ relation, relation ∉ entries.map RelationBound.relation →
      after.range? relation = before.range? relation) ∧
    (entries.flatMap fun entry => (entry.openTuples after).map Prod.snd) =
      List.range' before.next (entries.map RelationBound.labelCount).sum ∧
    ∀ entry ∈ entries,
      (entry.openTuples after).map Prod.fst = entry.uncertain.take entry.labelCount := by
  rw [allocateAll_eq] at allocated
  rcases met : before.meetAll? (entries.map RelationBound.demand) with error | ⟨ranges, last⟩
  · rw [met] at allocated
    cases allocated
  rw [met] at allocated
  rw [show last = after from Except.ok.inj allocated] at met
  have relations : (entries.map RelationBound.demand).map Demand.relation =
      entries.map RelationBound.relation := List.map_map
  have counts : (entries.map RelationBound.demand).map Demand.labelCount =
      entries.map RelationBound.labelCount := List.map_map
  have meets := meetsAll_of_meetAll? (by rwa [relations]) met
  have each : List.Forall₂ (fun entry range =>
      (entry.openTuples after).map Prod.fst = entry.uncertain.take entry.labelCount ∧
      (entry.openTuples after).map Prod.snd = range.labels) entries ranges := by
    have lengths := List.forall₂_map_left_iff.mp meets.lengths
    have own := List.forall₂_map_left_iff.mp meets.own
    rw [List.forall₂_iff_zip] at lengths own ⊢
    refine ⟨lengths.1, fun {entry range} member => ?_⟩
    have isEntry := (List.of_mem_zip member).1
    have found := own.2 member
    rw [RelationBound.demand, fresh entry isEntry] at found
    exact openTuples_labels (sound entry isEntry) (lengths.2 member) found
  rw [List.forall₂_and_left] at each
  have labels : entries.map (fun entry => (entry.openTuples after).map Prod.snd) =
      ranges.map LabelRange.labels := by
    rw [← List.forall₂_eq_eq_eq, List.forall₂_map_left_iff, List.forall₂_map_right_iff]
    exact each.2
  refine ⟨by rw [meets.next, counts], ?_, ?_, each.1⟩
  · intro relation absent
    apply meets.others
    rwa [relations]
  · rw [List.flatMap_def, labels, ← List.flatMap_def, meets.labels, counts]

theorem of_allocateAll {univ : Universe} {entries : List RelationBound}
    (sound : ∀ entry ∈ entries, entry.Sound univ)
    (distinct : (entries.map RelationBound.relation).Nodup) {before after : Allocation}
    (fresh : ∀ entry ∈ entries, before.range? entry.relation = none)
    (small : (entries.map RelationBound.openCount).sum < UInt32.size)
    (allocated : before.allocateAll entries = .ok after) :
    after.next = before.next + (entries.map RelationBound.openCount).sum ∧
    (∀ relation, relation ∉ entries.map RelationBound.relation →
      after.range? relation = before.range? relation) ∧
    (entries.flatMap fun entry => (entry.openTuples after).map Prod.snd) =
      List.range' before.next (entries.map RelationBound.openCount).sum ∧
    ∀ entry ∈ entries, (entry.openTuples after).map Prod.fst = entry.uncertain := by
  have all (entry : RelationBound) (member : entry ∈ entries) :
      entry.labelCount = entry.openCount := by
    have le := List.le_sum_of_mem (List.mem_map_of_mem (f := RelationBound.openCount) member)
    exact Nat.mod_eq_of_lt (le.trans_lt small)
  rcases allocateAll_labels sound distinct fresh allocated with ⟨next, ranges, labels, positions⟩
  rw [List.map_congr_left all] at next labels
  refine ⟨next, ranges, labels, fun entry member => ?_⟩
  rw [positions entry member, all entry member, ← (sound entry member).length_uncertain,
    List.take_length]

end Allocation

namespace Leaves

/-- Every variable belongs to one of the tuples that sound bounds leave open. -/
structure Labelled (leaves : Leaves) : Prop where
  sound : leaves.bounds.Sound
  labels : (leaves.bounds.entries.flatMap fun entry =>
    (entry.openTuples leaves.allocation).map Prod.snd) = List.range' 1 leaves.primary
  listed : ∀ entry ∈ leaves.bounds.entries,
    ((entry.openTuples leaves.allocation).map Prod.fst).Sublist entry.uncertain

/-- What holds of the leaves of sound bounds for whose open tuples there are enough variables. -/
structure Laid (leaves : Leaves) : Prop extends leaves.Labelled where
  primary_eq : leaves.primary = leaves.bounds.openCount
  positions : ∀ entry ∈ leaves.bounds.entries,
    (entry.openTuples leaves.allocation).map Prod.fst = entry.uncertain

theorem of_ofBounds? {bounds : Bounds} {leaves : Leaves}
    (allocated : ofBounds? bounds = .ok leaves) : leaves.bounds = bounds ∧
      Allocation.empty.allocateAll bounds.entries = .ok leaves.allocation := by
  change (Allocation.empty.allocateAll bounds.entries >>= fun _ => _) = _ at allocated
  cases made : Allocation.empty.allocateAll bounds.entries with
  | error error =>
      rw [made] at allocated
      cases allocated
  | ok allocation =>
      rw [made] at allocated
      cases allocated
      exact ⟨rfl, rfl⟩

theorem labelled_of_ofBounds? {bounds : Bounds} {leaves : Leaves} (sound : bounds.Sound)
    (allocated : ofBounds? bounds = .ok leaves) : leaves.Labelled := by
  rcases of_ofBounds? allocated with ⟨rfl, handed⟩
  have spread := Allocation.allocateAll_labels sound.bound sound.distinct (fun _ _ => rfl) handed
  have primary : leaves.primary = (leaves.bounds.entries.map RelationBound.labelCount).sum := by
    rw [Leaves.primary, Allocation.total, spread.1]
    exact Nat.add_sub_cancel_left ..
  refine ⟨sound, primary ▸ spread.2.2.1, fun entry member => ?_⟩
  rw [spread.2.2.2 entry member]
  exact List.take_sublist _ _

theorem laid {bounds : Bounds} {leaves : Leaves} (sound : bounds.Sound)
    (small : bounds.openCount < UInt32.size) (allocated : ofBounds? bounds = .ok leaves) :
    leaves.Laid := by
  rcases of_ofBounds? allocated with ⟨rfl, handed⟩
  have spread := Allocation.of_allocateAll sound.bound sound.distinct
    (fun _ _ => rfl) small handed
  have primary : leaves.primary = leaves.bounds.openCount := by
    rw [Leaves.primary, Allocation.total, spread.1]
    exact Nat.add_sub_cancel_left ..
  exact ⟨labelled_of_ofBounds? sound allocated, primary, spread.2.2.2⟩

namespace Labelled

variable {leaves : Leaves} (laid : leaves.Labelled)

include laid

theorem label_bounds {entry : RelationBound} (member : entry ∈ leaves.bounds.entries)
    {tuple : Nat × Nat} (openMember : tuple ∈ entry.openTuples leaves.allocation) :
    0 < tuple.2 ∧ tuple.2 ≤ leaves.primary := by
  have listed : tuple.2 ∈ leaves.bounds.entries.flatMap fun entry =>
      (entry.openTuples leaves.allocation).map Prod.snd :=
    List.mem_flatMap.mpr ⟨entry, member, List.mem_map_of_mem openMember⟩
  rw [laid.labels, List.mem_range'_1] at listed
  omega

theorem nodup_positions {entry : RelationBound} (member : entry ∈ leaves.bounds.entries) :
    ((entry.openTuples leaves.allocation).map Prod.fst).Nodup :=
  entry.nodup_uncertain.sublist (laid.listed entry member)

/-- Whether an open tuple is chosen depends on its own variable only. -/
theorem chosen_iff {entry : RelationBound} (member : entry ∈ leaves.bounds.entries)
    {tuple : Nat × Nat} (openMember : tuple ∈ entry.openTuples leaves.allocation)
    (assignment : Nat → Bool) :
    (entry.lower.containsIndex tuple.1 ||
      (entry.openTuples leaves.allocation).any fun other =>
        other.1 == tuple.1 && assignment other.2) = assignment tuple.2 := by
  have listed : tuple.1 ∈ (entry.openTuples leaves.allocation).map Prod.fst :=
    List.mem_map_of_mem openMember
  have uncertain := RelationBound.mem_uncertain.mp ((laid.listed entry member).subset listed)
  rw [uncertain.2, Bool.false_or, Bool.eq_iff_iff,
    List.any_eq_true]
  constructor
  · rintro ⟨other, otherMember, both⟩
    rw [Bool.and_eq_true, beq_iff_eq] at both
    have same := List.inj_on_of_nodup_map (laid.nodup_positions member) otherMember openMember
      both.1
    rw [← same]
    exact both.2
  · intro holds
    exact ⟨tuple, openMember, by rw [holds, Bool.and_true, beq_self_eq_true]⟩

end Labelled

namespace Laid

variable {leaves : Leaves} (laid : leaves.Laid)

include laid

theorem matrix (inRange : leaves.bounds.InRange) {entry : RelationBound}
    (member : entry ∈ leaves.bounds.entries) {circuit : Circuit} (valid : circuit.Valid)
    (primary : circuit.primary = leaves.primary)
    (small : leaves.primary < 2147483648) :
    circuit.KnowsMatrix leaves.universeSize entry.relation.arity
        (entry.matrix leaves.universeSize leaves.allocation) ∧
      ∀ assignment index,
        ((entry.matrix leaves.universeSize leaves.allocation).cell index).eval assignment =
          (entry.lower.containsIndex index ||
            (entry.openTuples leaves.allocation).any fun tuple =>
              tuple.1 == index && assignment tuple.2) := by
  have sound := laid.sound.bound entry member
  have positions := laid.positions entry member
  have bounded : ∀ index, entry.upper.containsIndex index = true →
      index < leaves.universeSize ^ entry.relation.arity :=
    fun _ held => sound.index_lt (inRange.tuples entry member) held
  have certain : circuit.KnowsMatrix leaves.universeSize entry.relation.arity
      (Matrix.constant leaves.universeSize entry.relation.arity entry.lower.toList) := by
    apply Circuit.knowsMatrix_constant
    intro index held
    exact bounded index (sound.subset index (TupleSet.mem_toList.mp held))
  let entries := (entry.openTuples leaves.allocation).map fun tuple => (tuple.1, Bit.var tuple.2)
  have keys : entries.map Prod.fst = entry.uncertain := by
    rw [← positions, List.map_map]
    rfl
  have distinct : (entries.map Prod.fst).Nodup := keys ▸ entry.nodup_uncertain
  have cellsInRange : ∀ cell ∈ entries, cell.1 < leaves.universeSize ^ entry.relation.arity := by
    intro cell cellMember
    have listed : cell.1 ∈ entries.map Prod.fst := List.mem_map_of_mem cellMember
    rw [keys] at listed
    exact bounded _ (RelationBound.mem_uncertain.mp listed).1
  have known : ∀ cell ∈ entries, circuit.Knows cell.2 := by
    intro cell cellMember
    rcases List.mem_map.mp cellMember with ⟨tuple, openMember, rfl⟩
    have bounds := laid.label_bounds member openMember
    refine .var bounds.1 ?_
    rw [primary, Bit.lastVariable_of_lt small]
    exact_mod_cast bounds.2
  have made := Build.Yields.of_pure (Build.setAll_yields certain distinct cellsInRange known) valid
  have same : entries.foldl (fun matrix cell => matrix.set cell.1 cell.2)
      (Matrix.constant leaves.universeSize entry.relation.arity entry.lower.toList) =
        entry.matrix leaves.universeSize leaves.allocation := by
    rw [RelationBound.matrix, List.foldl_map]
  rw [same] at made
  rcases made with ⟨matrixKnown, values, frame⟩
  refine ⟨matrixKnown, fun assignment index => ?_⟩
  by_cases isOpen : index ∈ entries.map Prod.fst
  · rcases List.mem_map.mp isOpen with ⟨_, cellMember, rfl⟩
    rcases List.mem_map.mp cellMember with ⟨tuple, openMember, rfl⟩
    rw [laid.chosen_iff member openMember]
    exact (values (tuple.1, .var tuple.2) (List.mem_map_of_mem openMember) assignment).trans
      (by rw [Bit.eval])
  · have none : (entry.openTuples leaves.allocation).any (fun tuple =>
        tuple.1 == index && assignment tuple.2) = false := by
      rw [List.any_eq_false]
      intro tuple tupleMember both
      rw [Bool.and_eq_true, beq_iff_eq] at both
      apply isOpen
      rw [keys, ← positions, ← both.1]
      exact List.mem_map_of_mem tupleMember
    rw [frame index isOpen, Matrix.cell_constant, Bit.eval, none, Bool.or_false,
      Bool.eq_iff_iff, decide_eq_true_iff, TupleSet.mem_toList]

end Laid

end Leaves

end ModelFinder
