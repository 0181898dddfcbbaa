import Mathlib
import ModelFinder.Evaluate
import ModelFinder.Proofs.Bounds
/-!
Instances that are made by giving relations values and integers atoms. Every value is of the
relation's arity; in the instances that evaluation is specified for its members are tuples, and
integers stand for atoms of the universe.
-/

namespace ModelFinder.Instance

/-- What a caller can make: instances over a universe of atoms, in which relations have values
and integers have atoms. -/
inductive Made : Instance → Prop
  | empty {id : Nat} {atoms : List String} {univ : Universe} :
      Universe.ofAtoms? id atoms = .ok univ → Made (Instance.empty univ)
  | add {before after : Instance} {relation : Relation} {tuples : TupleSet} :
      Made before → before.add? relation tuples = .ok after → Made after
  | addInt {before after : Instance} {value : Int} {tuples : TupleSet} :
      Made before → before.addInt? value tuples = .ok after → Made after

def AtomsInRange (model : Instance) : Prop :=
  ∀ entry ∈ model.ints, entry.2 < model.univ.size

/-- The values of relations hold tuples, and integers stand for atoms. Like bounds, instances also
take sets of other positions. -/
structure InRange (model : Instance) : Prop where
  tuples : ∀ entry ∈ model.entries, entry.2.InRange
  atoms : model.AtomsInRange

structure Sound (model : Instance) : Prop where
  nonempty : 0 < model.univ.size
  value : ∀ {relation : Relation} {set : TupleSet}, model.tuples? relation = some set →
    set.univ = model.univ ∧ set.arity = relation.arity ∧ set.InRange
  atomsInRange : model.AtomsInRange

theorem mem_ints {model : Instance} {value : Int} {atom : Nat} :
    (value, atom) ∈ model.ints ↔ model.intAtom? value = some atom :=
  Std.ExtTreeMap.mem_toList_iff_getElem?_eq_some

theorem put_eq (relation : Relation) (tuples : TupleSet) (entries : List (Relation × TupleSet)) :
    put relation tuples entries = Entries.put Prod.fst (relation, tuples) entries := by
  induction entries with
  | nil => rfl
  | cons first rest hypothesis => rw [put, Entries.put, hypothesis]

theorem of_add? {before after : Instance} {relation : Relation} {tuples : TupleSet}
    (added : before.add? relation tuples = .ok after) :
    after = { before with entries := put relation tuples before.entries } ∧
      tuples.univ = before.univ ∧ tuples.arity = relation.arity := by
  rw [add?] at added
  split at added
  · cases added
  · rename_i sameUniverse
    split at added
    · cases added
    · rename_i sameArity
      exact ⟨(Except.ok.inj added).symm, not_not.mp sameUniverse, not_not.mp sameArity⟩

theorem of_addInt? {before after : Instance} {value : Int} {tuples : TupleSet}
    (added : before.addInt? value tuples = .ok after) :
    ∃ atom, tuples.univ = before.univ ∧ tuples.singleAtom? = some atom ∧
      after = { before with intAtoms := before.intAtoms.insert value atom } := by
  rw [addInt?] at added
  split at added
  · cases added
  · rename_i sameUniverse
    split at added
    · rename_i atom single
      exact ⟨atom, not_not.mp sameUniverse, single, (Except.ok.inj added).symm⟩
    · cases added

theorem Made.formed {model : Instance} (made : Made model) : 0 < model.univ.size ∧
    ∀ {relation : Relation} {set : TupleSet}, model.tuples? relation = some set →
      set.univ = model.univ ∧ set.arity = relation.arity := by
  induction made with
  | empty named => exact ⟨Universe.size_pos named, by simp [tuples?, Instance.empty]⟩
  | @add before after relation tuples _ added hypothesis =>
      rcases of_add? added with ⟨rfl, sameUniverse, sameArity⟩
      refine ⟨hypothesis.1, fun {other set} found => ?_⟩
      rw [tuples?, put_eq, Entries.find?_put] at found
      split at found
      · rename_i same
        cases found
        exact ⟨sameUniverse, same ▸ sameArity⟩
      · exact hypothesis.2 found
  | @addInt before after value tuples _ added hypothesis =>
      rcases of_addInt? added with ⟨atom, -, -, rfl⟩
      exact hypothesis

theorem Made.sound {model : Instance} (made : Made model) (inRange : model.InRange) :
    Sound model := by
  refine ⟨made.formed.1, fun {relation set} found => ?_, inRange.atoms⟩
  rcases made.formed.2 found with ⟨sameUniverse, sameArity⟩
  rcases Option.map_eq_some_iff.mp found with ⟨entry, entryFound, rfl⟩
  exact ⟨sameUniverse, sameArity, inRange.tuples entry (List.mem_of_find?_eq_some entryFound)⟩

theorem Made.addAtom {model : Instance} (made : model.Made) (value : Int) (atom : Nat) :
    Made { model with intAtoms := model.intAtoms.insert value atom } := by
  have sameUniverse : (TupleSet.ofAtomIndex model.univ atom).univ = model.univ := rfl
  have added : model.addInt? value (.ofAtomIndex model.univ atom) =
      .ok { model with intAtoms := model.intAtoms.insert value atom } := by
    rw [addInt?, if_neg (not_not.mpr sameUniverse), TupleSet.singleAtom?_ofAtomIndex]
  exact made.addInt added

/-! The atoms of an integer -/

variable {model : Instance}

theorem mem_castAtoms_value {range : IntRange} {value : Int} {atom : Nat} :
    atom ∈ model.castAtoms range .value value ↔ (value, atom) ∈ model.ints := by
  simp only [castAtoms, List.mem_map, List.mem_filter, beq_iff_eq]
  constructor
  · rintro ⟨entry, ⟨member, rfl⟩, rfl⟩
    exact member
  · intro member
    exact ⟨_, ⟨member, rfl⟩, rfl⟩

theorem mem_castAtoms_bitset {range : IntRange} {value : Int} {atom : Nat} :
    atom ∈ model.castAtoms range .bitset value ↔
      (∃ position < range.bitwidth - 1, Digits.digit value position = true ∧
        model.intAtom? (Digits.weight position) = some atom) ∨
      value < 0 ∧ model.intAtom? range.min = some atom := by
  simp only [castAtoms, IntRange.digits, List.mem_append, List.mem_filterMap, List.mem_filter,
    List.mem_range]
  refine or_congr ⟨?_, ?_⟩ ?_
  · rintro ⟨position, ⟨below, set⟩, found⟩
    exact ⟨position, below, set, found⟩
  · rintro ⟨position, below, set, found⟩
    exact ⟨position, ⟨below, set⟩, found⟩
  · split
    · rename_i negative
      simp only [negative, true_and, Option.mem_toList]
    · rename_i nonnegative
      simp only [nonnegative, false_and, List.not_mem_nil]

theorem AtomsInRange.castAtoms_lt (inRange : model.AtomsInRange) {range : IntRange}
    {cast : IntCast} {value : Int} {atom : Nat} (member : atom ∈ model.castAtoms range cast value) :
    atom < model.univ.size := by
  cases cast with
  | value => exact inRange _ (mem_castAtoms_value.mp member)
  | bitset =>
      rcases mem_castAtoms_bitset.mp member with ⟨position, -, -, found⟩ | ⟨-, found⟩
      · exact inRange _ (mem_ints.mpr found)
      · exact inRange _ (mem_ints.mpr found)

end ModelFinder.Instance

namespace ModelFinder

/-! A relation and an integer of what is no atom. -/

def strayModel : Instance := ⟨animals, [(stranger, .stray)], (∅ : IntAtoms).insert 1 3⟩

def someInt : Formula := .multiplicity .some (.constant .ints)

theorem strayModel_made : strayModel.Made := by
  have added : (Instance.empty animals).add? stranger .stray =
      .ok ⟨animals, [(stranger, .stray)], ∅⟩ := rfl
  have counted : Instance.addInt? ⟨animals, [(stranger, .stray)], ∅⟩ 1 .stray =
      .ok strayModel := by
    rw [Instance.addInt?, stray_singleAtom?]
    rfl
  exact .addInt (.add (.empty animals_named) added) counted

theorem Instance.someInt_refused {model : Instance} {value : Int} {atom : Nat}
    (countable : Index.capacity model.univ.size 1 = .ok model.univ.size)
    (bound : model.intAtom? value = some atom) (beyond : model.univ.size ≤ atom) :
    ∃ last, model.formula? 4 someInt = .error (.invalidArgument (.indexOutOfRange last 1)) := by
  have member : atom ∈ model.ints.map Prod.snd := List.mem_map.mpr ⟨_, mem_ints.mpr bound, rfl⟩
  rcases TupleSet.ofIndices?_of_beyond countable member beyond with ⟨last, refused⟩
  refine ⟨last, ?_⟩
  rw [formula?, run?]
  simp only [someInt, Formula.evaluate, Expr.evaluate, constant?, refused]
  rfl

end ModelFinder
