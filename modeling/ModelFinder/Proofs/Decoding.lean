import Mathlib
import ModelFinder.Proofs.Leaves
import ModelFinder.Proofs.Outcomes
/-!
Instances of assignments. As long as relations are bound to tuples, and their tuples can be
counted, every assignment has an instance, which lies within the bounds.
-/

namespace ModelFinder

theorem TupleSet.of_ofIndices? {univ : Universe} {arity : Nat} {indices : List Nat}
    {set : TupleSet} (made : ofIndices? univ arity indices = .ok set) :
    set = ⟨univ, arity, .ofList indices⟩ := by
  rcases Except.bind_eq_ok_iff.mp made with ⟨capacity, counted, -⟩
  rw [ofIndices?_of_counted counted] at made
  split at made
  · split at made
    · cases made
    · exact (Except.ok.inj made).symm
  · exact (Except.ok.inj made).symm

def RelationLayout.decoded (layout : RelationLayout) (univ : Universe)
    (assignment : Nat → Bool) : TupleSet :=
  ⟨univ, layout.relation.arity, .ofList (layout.lower.toList ++
    (layout.openTuples.filter fun entry => assignment entry.2).map Prod.fst)⟩

theorem RelationLayout.eq_decoded_of_decode? {layout : RelationLayout} {univ : Universe}
    {assignment : Nat → Bool} {set : TupleSet} (ran : layout.decode? univ assignment = .ok set) :
    set = layout.decoded univ assignment :=
  TupleSet.of_ofIndices? ran

namespace Instance

theorem put_of_not_mem {relation : Relation} (tuples : TupleSet)
    {entries : List (Relation × TupleSet)} (fresh : relation ∉ entries.map Prod.fst) :
    put relation tuples entries = entries ++ [(relation, tuples)] := by
  induction entries with
  | nil => rfl
  | cons first rest hypothesis =>
      simp only [List.map_cons, List.mem_cons, not_or] at fresh
      have different : (first.1 == relation) = false := by
        simpa using Ne.symm fresh.1
      rw [put, different, hypothesis fresh.2]
      rfl

theorem add?_of_eq {model : Instance} {relation : Relation} {tuples : TupleSet}
    (univ : tuples.univ = model.univ) (arity : tuples.arity = relation.arity) :
    model.add? relation tuples =
      .ok { model with entries := put relation tuples model.entries } := by
  rw [add?, if_neg (not_not.mpr univ), if_neg (not_not.mpr arity)]

theorem addInt?_ofAtomIndex (model : Instance) (value : Int) (atom : Nat) :
    model.addInt? value (TupleSet.ofAtomIndex model.univ atom) =
      .ok { model with intAtoms := model.intAtoms.insert value atom } := by
  have sameUniverse : (TupleSet.ofAtomIndex model.univ atom).univ = model.univ := rfl
  rw [addInt?, if_neg (not_not.mpr sameUniverse), TupleSet.singleAtom?_ofAtomIndex]

/-- Relations that have no value yet get theirs in order. -/
theorem addAll_eq {univ : Universe} {holds : Nat → Bool} {parts : List RelationLayout}
    {value : RelationLayout → TupleSet} (model : Instance)
    (decoded : ∀ part ∈ parts, part.decode? univ holds = .ok (value part) ∧
      (value part).univ = model.univ ∧ (value part).arity = part.relation.arity)
    (distinct : (model.relations ++ parts.map RelationLayout.relation).Nodup) :
    parts.foldlM (fun model part => do
        model.add? part.relation (← part.decode? univ holds)) model =
      .ok { model with
        entries := model.entries ++ parts.map fun part => (part.relation, value part) } := by
  induction parts generalizing model with
  | nil => rw [List.map_nil, List.append_nil]; rfl
  | cons part rest hypothesis =>
      rw [List.forall_mem_cons] at decoded
      rcases decoded with ⟨⟨made, sameUniverse, sameArity⟩, others⟩
      have fresh : part.relation ∉ model.relations := by
        intro member
        exact (List.nodup_append.mp distinct).2.2 _ member _ List.mem_cons_self rfl
      rw [List.foldlM_cons, made]
      change (model.add? part.relation (value part) >>= fun _ => _) = _
      rw [add?_of_eq sameUniverse sameArity, put_of_not_mem _ fresh]
      refine (hypothesis { model with
        entries := model.entries ++ [(part.relation, value part)] } others ?_).trans ?_
      · simpa [relations] using distinct
      · rw [List.map_cons, List.append_assoc]
        rfl

theorem parts_of_addAll {univ : Universe} {holds : Nat → Bool} {parts : List RelationLayout}
    {model after : Instance} (added : parts.foldlM (fun model part => do
      model.add? part.relation (← part.decode? univ holds)) model = .ok after) :
    ∀ part ∈ parts, part.decode? univ holds = .ok (part.decoded univ holds) := by
  induction parts generalizing model with
  | nil => exact List.forall_mem_nil _
  | cons part rest hypothesis =>
      rw [List.foldlM_cons] at added
      rcases Except.bind_eq_ok_iff.mp added with ⟨middle, first, others⟩
      rcases Except.bind_eq_ok_iff.mp first with ⟨value, decoded, -⟩
      refine List.forall_mem_cons.mpr ⟨?_, hypothesis others⟩
      rw [decoded, RelationLayout.eq_decoded_of_decode? decoded]

theorem addInts_eq {univ : Universe} (ints : List (Int × Nat)) (model : Instance)
    (sameUniverse : model.univ = univ) :
    ints.foldlM (fun model entry => model.addInt? entry.1 (TupleSet.ofAtomIndex univ entry.2))
        model =
      .ok { model with
        intAtoms :=
          ints.foldl (fun made entry => made.insert entry.1 entry.2) model.intAtoms } := by
  induction ints generalizing model with
  | nil => rfl
  | cons entry rest hypothesis =>
      subst sameUniverse
      rw [List.foldlM_cons, addInt?_ofAtomIndex]
      exact hypothesis _ rfl

end Instance

theorem IntAtoms.foldl_toList (atoms : IntAtoms) :
    atoms.toList.foldl (fun made entry => made.insert entry.1 entry.2) (∅ : IntAtoms) =
      atoms := by
  rw [← Std.ExtTreeMap.ofList_eq_foldl]
  apply Std.ExtTreeMap.ext_getElem?
  intro value
  have distinct : atoms.toList.Pairwise fun left right => ¬compare left.1 right.1 = .eq :=
    Std.ExtTreeMap.distinct_keys_toList
  cases found : atoms[value]? with
  | some atom =>
      exact Std.ExtTreeMap.getElem?_ofList_of_mem Std.ReflCmp.compare_self distinct
        (Std.ExtTreeMap.mem_toList_iff_getElem?_eq_some.mpr found)
  | none =>
      apply Std.ExtTreeMap.getElem?_ofList_of_contains_eq_false
      rw [Std.ExtTreeMap.map_fst_toList_eq_keys, Bool.eq_false_iff]
      intro present
      rw [List.contains_iff_mem, Std.ExtTreeMap.mem_keys, Std.ExtTreeMap.mem_iff_isSome_getElem?,
        found] at present
      cases present

theorem RelationLayout.containsIndex_decoded (layout : RelationLayout) (univ : Universe)
    (assignment : Nat → Bool) (index : Nat) :
    (layout.decoded univ assignment).containsIndex index =
      (layout.lower.containsIndex index ||
        layout.openTuples.any fun entry => entry.1 == index && assignment entry.2) := by
  rw [decoded, TupleSet.containsIndex_ofList, Bool.eq_iff_iff, List.contains_iff_mem,
    List.mem_append, TupleSet.mem_toList, Bool.or_eq_true, List.any_eq_true]
  simp only [List.mem_map, List.mem_filter, Bool.and_eq_true, beq_iff_eq]
  constructor
  · rintro (held | ⟨entry, ⟨member, chosen⟩, same⟩)
    · exact .inl held
    · exact .inr ⟨entry, member, same, chosen⟩
  · rintro (held | ⟨entry, member, same, chosen⟩)
    · exact .inl held
    · exact .inr ⟨entry, ⟨member, chosen⟩, same⟩

/-- The tuples of every bound relation are no more than machine words can count, whatever the
number of columns. -/
def Bounds.Countable (bounds : Bounds) : Prop :=
  ∀ entry ∈ bounds.entries, bounds.univ.size ^ entry.relation.arity < Index.limit

namespace Leaves

def decoded (leaves : Leaves) (assignment : Nat → Bool) : Instance where
  univ := leaves.bounds.univ
  entries := leaves.layout.map fun part =>
    (part.relation, part.decoded leaves.bounds.univ assignment)
  intAtoms := leaves.bounds.intAtoms

theorem decodeInstance?_of_parts {leaves : Leaves} (distinct : leaves.bounds.relations.Nodup)
    {assignment : Nat → Bool} (parts : ∀ part ∈ leaves.layout,
      part.decode? leaves.bounds.univ assignment =
        .ok (part.decoded leaves.bounds.univ assignment)) :
    decodeInstance? leaves.bounds leaves.layout assignment = .ok (leaves.decoded assignment) := by
  have relations := Instance.addAll_eq (Instance.empty leaves.bounds.univ)
    (fun part member => ⟨parts part member, rfl, rfl⟩)
    (by
      rw [Leaves.layout, List.map_map]
      exact distinct)
  have ints := Instance.addInts_eq leaves.bounds.intAtoms.toList
    { leaves.decoded assignment with intAtoms := ∅ } rfl
  rw [IntAtoms.foldl_toList] at ints
  rw [decodeInstance?, relations]
  exact ints

/-- What is decoded is the instance of the assignment, whether or not tuples can be counted. -/
theorem eq_decoded_of_decodeInstance? {leaves : Leaves} (distinct : leaves.bounds.relations.Nodup)
    {assignment : Nat → Bool} {model : Instance}
    (ran : decodeInstance? leaves.bounds leaves.layout assignment = .ok model) :
    model = leaves.decoded assignment := by
  have parts : ∀ part ∈ leaves.layout, part.decode? leaves.bounds.univ assignment =
      .ok (part.decoded leaves.bounds.univ assignment) := by
    rw [decodeInstance?] at ran
    rcases Except.bind_eq_ok_iff.mp ran with ⟨relations, added, -⟩
    exact Instance.parts_of_addAll added
  exact Except.ok.inj (ran.symm.trans (decodeInstance?_of_parts distinct parts))

namespace Labelled

variable {leaves : Leaves} (laid : leaves.Labelled)

include laid

theorem decode?_eq (inRange : leaves.bounds.InRange) (countable : leaves.bounds.Countable)
    {part : RelationLayout} (member : part ∈ leaves.layout) (assignment : Nat → Bool) :
    part.decode? leaves.bounds.univ assignment =
      .ok (part.decoded leaves.bounds.univ assignment) := by
  rcases List.mem_map.mp member with ⟨entry, entryMember, rfl⟩
  have sound := laid.sound.bound entry entryMember
  apply TupleSet.ofIndices?_of_capacity
    (Index.capacity_of_lt laid.sound.nonempty (countable entry entryMember))
  intro index listed
  apply sound.index_lt (inRange.tuples entry entryMember)
  rcases List.mem_append.mp listed with certain | chosen
  · exact sound.subset index (TupleSet.mem_toList.mp certain)
  · rcases List.mem_map.mp chosen with ⟨tuple, tupleMember, rfl⟩
    have listed : tuple.1 ∈ (entry.openTuples leaves.allocation).map Prod.fst :=
      List.mem_map_of_mem (List.mem_of_mem_filter tupleMember)
    exact (RelationBound.mem_uncertain.mp ((laid.listed entry entryMember).subset listed)).1

theorem decodeInstance?_eq_decoded (inRange : leaves.bounds.InRange)
    (countable : leaves.bounds.Countable) (assignment : Nat → Bool) :
    decodeInstance? leaves.bounds leaves.layout assignment = .ok (leaves.decoded assignment) :=
  decodeInstance?_of_parts laid.sound.distinct fun _ member =>
    laid.decode?_eq inRange countable member assignment

theorem eq_of_label {entry entry' : RelationBound} (member : entry ∈ leaves.bounds.entries)
    (member' : entry' ∈ leaves.bounds.entries) {tuple tuple' : Nat × Nat}
    (openMember : tuple ∈ entry.openTuples leaves.allocation)
    (openMember' : tuple' ∈ entry'.openTuples leaves.allocation)
    (same : tuple.2 = tuple'.2) : entry = entry' ∧ tuple = tuple' := by
  have distinct : (leaves.bounds.entries.flatMap fun entry =>
      (entry.openTuples leaves.allocation).map Prod.snd).Nodup := by
    rw [laid.labels]
    exact List.nodup_range'
  rcases List.nodup_flatMap.mp distinct with ⟨within, across⟩
  have sameEntry : entry = entry' := by
    by_contra different
    have symmetric : Std.Symm (Function.onFun List.Disjoint fun entry : RelationBound =>
        (entry.openTuples leaves.allocation).map Prod.snd) :=
      ⟨fun _ _ disjoint => disjoint.symm⟩
    have disjoint := across.forall member member' different
    exact disjoint (List.mem_map_of_mem openMember) (same ▸ List.mem_map_of_mem openMember')
  subst sameEntry
  exact ⟨rfl, List.inj_on_of_nodup_map (within entry member) openMember openMember' same⟩

theorem exists_of_label {label : Nat} (positive : 0 < label) (le : label ≤ leaves.primary) :
    ∃ entry ∈ leaves.bounds.entries, ∃ tuple ∈ entry.openTuples leaves.allocation,
      tuple.2 = label := by
  have listed : label ∈ List.range' 1 leaves.primary := by
    rw [List.mem_range'_1]
    omega
  rw [← laid.labels] at listed
  rcases List.mem_flatMap.mp listed with ⟨entry, member, listedLabel⟩
  rcases List.mem_map.mp listedLabel with ⟨tuple, openMember, same⟩
  exact ⟨entry, member, tuple, openMember, same⟩

theorem decoded_eq_iff (first second : Nat → Bool) :
    leaves.decoded first = leaves.decoded second ↔
      ∀ label, 0 < label → label ≤ leaves.primary → first label = second label := by
  constructor
  · intro same label positive le
    rcases laid.exists_of_label positive le with ⟨entry, member, tuple, openMember, rfl⟩
    have entries := congrArg Instance.entries same
    simp only [decoded, Leaves.layout, List.map_map, List.map_inj_left] at entries
    have sets := congrArg Prod.snd (entries entry member)
    have values := congrArg (fun set => TupleSet.containsIndex set tuple.1) sets
    simp only [Function.comp_apply, RelationLayout.containsIndex_decoded] at values
    rwa [laid.chosen_iff member openMember, laid.chosen_iff member openMember] at values
  · intro agree
    have parts : ∀ part ∈ leaves.layout, part.decoded leaves.bounds.univ first =
        part.decoded leaves.bounds.univ second := by
      intro part partMember
      rcases List.mem_map.mp partMember with ⟨entry, member, rfl⟩
      have same : (entry.openTuples leaves.allocation).filter (fun tuple => first tuple.2) =
          (entry.openTuples leaves.allocation).filter fun tuple => second tuple.2 := by
        apply List.filter_congr
        intro tuple openMember
        have bounds := laid.label_bounds member openMember
        exact agree tuple.2 bounds.1 bounds.2
      simp only [RelationLayout.decoded, same]
    have entries := List.map_congr_left fun part partMember =>
      congrArg (Prod.mk part.relation) (parts part partMember)
    rw [decoded, decoded, entries]

end Labelled

end Leaves

/-! Instances within bounds -/

/-- An instance gives every bound relation a value between its bounds, and integers the atoms
that they are bound to. -/
structure Bounds.Admits (bounds : Bounds) (model : Instance) : Prop where
  univ : model.univ = bounds.univ
  intAtoms : model.intAtoms = bounds.intAtoms
  between : ∀ entry ∈ bounds.entries, ∃ set, model.tuples? entry.relation = some set ∧
    set.univ = bounds.univ ∧ set.arity = entry.relation.arity ∧ ∀ index,
      (entry.lower.containsIndex index = true → set.containsIndex index = true) ∧
      (set.containsIndex index = true → entry.upper.containsIndex index = true)

/-- The open tuples that an instance holds are those whose variables are true. -/
structure Leaves.Realizes (leaves : Leaves) (assignment : Nat → Bool) (model : Instance) :
    Prop where
  univ : model.univ = leaves.bounds.univ
  intAtoms : model.intAtoms = leaves.bounds.intAtoms
  chosen : ∀ entry ∈ leaves.bounds.entries, ∃ set, model.tuples? entry.relation = some set ∧
    set.univ = leaves.bounds.univ ∧ set.arity = entry.relation.arity ∧ ∀ index,
      set.containsIndex index = (entry.lower.containsIndex index ||
        (entry.openTuples leaves.allocation).any fun tuple =>
          tuple.1 == index && assignment tuple.2)

theorem Instance.tuples?_of_mem {model : Instance} {relation : Relation} {set : TupleSet}
    (distinct : model.relations.Nodup) (member : (relation, set) ∈ model.entries) :
    model.tuples? relation = some set := by
  rw [tuples?, List.find?_of_nodup_map distinct member]
  rfl

namespace Leaves.Laid

variable {leaves : Leaves} (laid : leaves.Laid)

include laid

theorem realizes_decoded (assignment : Nat → Bool) :
    leaves.Realizes assignment (leaves.decoded assignment) := by
  refine ⟨rfl, rfl, fun entry member => ?_⟩
  have relations : (leaves.decoded assignment).relations = leaves.bounds.relations := by
    simp only [Instance.relations, decoded, Leaves.layout, List.map_map]
    rfl
  refine ⟨RelationLayout.decoded ⟨entry.relation, entry.lower,
    entry.openTuples leaves.allocation⟩ leaves.bounds.univ assignment,
    Instance.tuples?_of_mem (relations ▸ laid.sound.distinct) ?_, rfl, rfl, fun index =>
      RelationLayout.containsIndex_decoded _ _ _ _⟩
  exact List.mem_map_of_mem (List.mem_map_of_mem member)

/-- The instances within the bounds are those that some values of the variables stand for. -/
theorem admits_iff (model : Instance) :
    leaves.bounds.Admits model ↔ ∃ assignment, leaves.Realizes assignment model := by
  constructor
  · intro admits
    let holds (label : Nat) : Prop := ∃ entry ∈ leaves.bounds.entries,
      ∃ tuple ∈ entry.openTuples leaves.allocation, tuple.2 = label ∧
        ∃ set, model.tuples? entry.relation = some set ∧ set.containsIndex tuple.1 = true
    classical
    refine ⟨fun label => decide (holds label), admits.univ, admits.intAtoms,
      fun entry member => ?_⟩
    rcases admits.between entry member with ⟨set, found, univ, arity, between⟩
    refine ⟨set, found, univ, arity, fun index => ?_⟩
    rw [Bool.eq_iff_iff, Bool.or_eq_true, List.any_eq_true]
    simp only [Bool.and_eq_true, beq_iff_eq, decide_eq_true_iff]
    constructor
    · intro held
      by_cases certain : entry.lower.containsIndex index = true
      · exact .inl certain
      · have listed : index ∈ entry.uncertain := RelationBound.mem_uncertain.mpr
          ⟨(between index).2 held, Bool.eq_false_iff.mpr certain⟩
        rw [← laid.positions entry member] at listed
        rcases List.mem_map.mp listed with ⟨tuple, openMember, rfl⟩
        exact .inr ⟨tuple, openMember, rfl, entry, member, tuple, openMember, rfl, set, found, held⟩
    · rintro (certain | ⟨tuple, openMember, rfl, entry', member', tuple', openMember', same,
        set', found', held⟩)
      · exact (between index).1 certain
      · rcases laid.eq_of_label member' member openMember' openMember same with ⟨rfl, rfl⟩
        cases found.symm.trans found'
        exact held
  · rintro ⟨assignment, realizes⟩
    refine ⟨realizes.univ, realizes.intAtoms, fun entry member => ?_⟩
    rcases realizes.chosen entry member with ⟨set, found, univ, arity, chosen⟩
    refine ⟨set, found, univ, arity, fun index => ⟨fun certain => ?_, fun held => ?_⟩⟩
    · rw [chosen, certain, Bool.true_or]
    · rw [chosen, Bool.or_eq_true, List.any_eq_true] at held
      rcases held with certain | ⟨tuple, openMember, both⟩
      · exact (laid.sound.bound entry member).subset index certain
      · rw [Bool.and_eq_true, beq_iff_eq] at both
        have listed : tuple.1 ∈ (entry.openTuples leaves.allocation).map Prod.fst :=
          List.mem_map_of_mem openMember
        rw [laid.positions entry member, both.1] at listed
        exact (RelationBound.mem_uncertain.mp listed).1

end Leaves.Laid

end ModelFinder
