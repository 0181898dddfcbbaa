import Mathlib
import ModelFinder.Proofs.Decoding
import ModelFinder.Proofs.Compile.Agreement
/-!
Open tuples, variables and instances. The open tuples of bounds correspond one to one to the
variables 1, 2, 3 and so on, the assignments of these variables to the instances within the
bounds, and the true cells of a relation's matrix to the tuples of the relation.
-/

namespace ModelFinder

/-- A list of pairs in which nothing is repeated on either side pairs the two sides off. -/
theorem List.exists_bijOn {α β : Type} [DecidableEq α] [Inhabited β] {pairs : List (α × β)}
    (left : (pairs.map Prod.fst).Nodup) (right : (pairs.map Prod.snd).Nodup) :
    ∃ partner : α → β,
      Set.BijOn partner {first | first ∈ pairs.map Prod.fst}
        {second | second ∈ pairs.map Prod.snd} ∧
      ∀ first second, (first, second) ∈ pairs ↔
        first ∈ pairs.map Prod.fst ∧ partner first = second := by
  let partner (first : α) : β :=
    ((pairs.find? fun pair => pair.1 == first).map Prod.snd).getD default
  have paired : ∀ pair ∈ pairs, partner pair.1 = pair.2 := by
    intro pair member
    simp only [partner, List.find?_of_nodup_map left member, Option.map_some, Option.getD_some]
  refine ⟨partner, ⟨?_, ?_, ?_⟩, fun first second => ⟨fun member => ?_, ?_⟩⟩
  · intro first member
    rcases List.mem_map.mp member with ⟨pair, pairMember, rfl⟩
    exact paired pair pairMember ▸ List.mem_map_of_mem pairMember
  · intro first member first' member' same
    rcases List.mem_map.mp member with ⟨pair, pairMember, rfl⟩
    rcases List.mem_map.mp member' with ⟨pair', pairMember', rfl⟩
    rw [paired pair pairMember, paired pair' pairMember'] at same
    rw [List.inj_on_of_nodup_map right pairMember pairMember' same]
  · intro second member
    rcases List.mem_map.mp member with ⟨pair, pairMember, rfl⟩
    exact ⟨pair.1, List.mem_map_of_mem pairMember, paired pair pairMember⟩
  · exact ⟨List.mem_map_of_mem (f := Prod.fst) member, paired _ member⟩
  · rintro ⟨member, rfl⟩
    rcases List.mem_map.mp member with ⟨pair, pairMember, rfl⟩
    rwa [paired pair pairMember]

theorem Instance.ext_of_tuples? {left right : Instance} (univ : left.univ = right.univ)
    (intAtoms : left.intAtoms = right.intAtoms) (relations : left.relations = right.relations)
    (distinct : left.relations.Nodup)
    (same : ∀ relation ∈ left.relations, left.tuples? relation = right.tuples? relation) :
    left = right := by
  have entries : left.entries = right.entries := by
    have lengths : left.entries.length = right.entries.length := by
      have := congrArg List.length relations
      rwa [Instance.relations, Instance.relations, List.length_map, List.length_map] at this
    refine List.ext_getElem lengths fun index inLeft inRight => ?_
    have first : left.entries[index].1 = right.entries[index].1 := by
      have := congrArg (fun list => list[index]?) relations
      simpa [Instance.relations, inLeft, inRight] using this
    have member : left.entries[index].1 ∈ left.relations :=
      List.mem_map_of_mem (List.getElem_mem inLeft)
    have leftFound : left.tuples? left.entries[index].1 = some left.entries[index].2 :=
      tuples?_of_mem distinct (List.getElem_mem inLeft)
    have rightFound : right.tuples? right.entries[index].1 = some right.entries[index].2 :=
      tuples?_of_mem (relations ▸ distinct) (List.getElem_mem inRight)
    have second := same _ member
    rw [leftFound, first, rightFound] at second
    exact Prod.ext first (Option.some.inj second)
  cases left
  cases right
  cases univ
  cases intAtoms
  cases entries
  rfl

def Bounds.uncertain (bounds : Bounds) : List (Relation × Nat) :=
  bounds.entries.flatMap fun entry => entry.uncertain.map fun index => (entry.relation, index)

theorem Bounds.Sound.length_uncertain {bounds : Bounds} (sound : bounds.Sound) :
    bounds.uncertain.length = bounds.openCount := by
  rw [uncertain, List.length_flatMap, openCount]
  congr 1
  apply List.map_congr_left
  intro entry member
  rw [List.length_map, (sound.bound entry member).length_uncertain]

/-! Allocation -/

namespace Allocation

theorem allocateAll_succeeds {entries : List RelationBound} {before : Allocation}
    (small : before.next + (entries.map RelationBound.openCount).sum < UInt32.size) :
    ∃ after, before.allocateAll entries = .ok after := by
  have fewer : ((entries.map RelationBound.demand).map Demand.labelCount).sum ≤
      (entries.map RelationBound.openCount).sum := by
    rw [List.map_map]
    exact List.sum_le_sum fun entry _ => Nat.mod_le _ _
  have low : before.next < UInt32.size := by omega
  have enough : before.next + ((entries.map RelationBound.demand).map Demand.labelCount).sum <
      UInt32.size := by omega
  rcases (meetAll?_ok_iff low).mpr enough with ⟨ranges, after, met⟩
  refine ⟨after, ?_⟩
  rw [allocateAll_eq, met]
  rfl

end Allocation

namespace Leaves

theorem ofBounds?_succeeds {bounds : Bounds} (few : bounds.openCount < 2147483648) :
    ∃ leaves, ofBounds? bounds = .ok leaves := by
  have size : UInt32.size = 4294967296 := by decide
  have start : Allocation.empty.next = 1 := rfl
  have small : Allocation.empty.next + (bounds.entries.map RelationBound.openCount).sum <
      UInt32.size := by
    rw [Bounds.openCount] at few
    omega
  rcases Allocation.allocateAll_succeeds small with ⟨allocation, allocated⟩
  have opened : ofBounds? bounds =
      (Allocation.empty.allocateAll bounds.entries >>= fun allocation => pure ⟨bounds, allocation,
        bounds.entries.map fun bound =>
          (bound.relation, bound.matrix bounds.univ.size allocation)⟩) := rfl
  rw [opened, allocated]
  exact ⟨_, rfl⟩

theorem relations_decoded (leaves : Leaves) (assignment : Nat → Bool) :
    (leaves.decoded assignment).relations = leaves.bounds.relations := by
  rw [Instance.relations, decoded, layout, List.map_map, List.map_map]
  rfl

def labelled (leaves : Leaves) : List ((Relation × Nat) × Nat) :=
  leaves.layout.flatMap fun part => part.openTuples.map fun tuple =>
    ((part.relation, tuple.1), tuple.2)

namespace Laid

variable {leaves : Leaves} (laid : leaves.Laid)

include laid

theorem labelled_fst : leaves.labelled.map Prod.fst = leaves.bounds.uncertain := by
  rw [labelled, List.map_flatMap, Leaves.layout, List.flatMap_map, Bounds.uncertain]
  apply List.flatMap_congr
  intro entry member
  rw [← laid.positions entry member, List.map_map, List.map_map]
  rfl

theorem labelled_snd : leaves.labelled.map Prod.snd = List.range' 1 leaves.primary := by
  rw [labelled, List.map_flatMap, Leaves.layout, List.flatMap_map, ← laid.labels]
  apply List.flatMap_congr
  intro entry member
  rw [List.map_map]
  rfl

theorem nodup_uncertain : leaves.bounds.uncertain.Nodup := by
  rw [Bounds.uncertain, List.nodup_flatMap]
  refine ⟨fun entry _ => entry.nodup_uncertain.map fun _ _ same => (Prod.mk.inj same).2, ?_⟩
  have distinct : leaves.bounds.entries.Pairwise fun left right =>
      left.relation ≠ right.relation := List.pairwise_map.mp laid.sound.distinct
  refine distinct.imp fun different tuple left right => ?_
  rcases List.mem_map.mp left with ⟨index, -, rfl⟩
  rcases List.mem_map.mp right with ⟨index', -, same⟩
  exact different (Prod.mk.inj same).1.symm

theorem exists_label : ∃ label : Relation × Nat → Nat,
    Set.BijOn label {tuple | tuple ∈ leaves.bounds.uncertain} (Set.Icc 1 leaves.primary) ∧
    ∀ part ∈ leaves.layout, ∀ index number, (index, number) ∈ part.openTuples ↔
      (part.relation, index) ∈ leaves.bounds.uncertain ∧
        label (part.relation, index) = number := by
  have fst := laid.labelled_fst
  have snd := laid.labelled_snd
  rcases List.exists_bijOn (fst ▸ laid.nodup_uncertain) (snd ▸ List.nodup_range') with
    ⟨label, bijective, paired⟩
  rw [fst] at bijective paired
  rw [snd] at bijective
  have interval : {number | number ∈ List.range' 1 leaves.primary} =
      Set.Icc 1 leaves.primary := by
    ext number
    rw [Set.mem_ofPred_eq, List.mem_range'_1, Set.mem_Icc]
    omega
  rw [interval] at bijective
  refine ⟨label, bijective, fun part member index number => ?_⟩
  rw [← paired]
  constructor
  · intro openMember
    exact List.mem_flatMap.mpr ⟨part, member, List.mem_map_of_mem openMember⟩
  · intro listed
    rcases List.mem_flatMap.mp listed with ⟨part', member', openMember⟩
    rcases List.mem_map.mp openMember with ⟨tuple, openMember, same⟩
    simp only [Prod.mk.injEq] at same
    rcases same with ⟨⟨sameRelation, rfl⟩, rfl⟩
    have distinct : (leaves.layout.map RelationLayout.relation).Nodup := by
      rw [Leaves.layout, List.map_map]
      exact laid.sound.distinct
    rwa [List.inj_on_of_nodup_map distinct member member' sameRelation.symm]

theorem eq_decoded {assignment : Nat → Bool} {model : Instance}
    (realizes : leaves.Realizes assignment model)
    (relations : model.relations = leaves.bounds.relations) :
    model = leaves.decoded assignment := by
  have decoded := laid.realizes_decoded assignment
  have decodedRelations := leaves.relations_decoded assignment
  refine Instance.ext_of_tuples? (realizes.univ.trans decoded.univ.symm)
    (realizes.intAtoms.trans decoded.intAtoms.symm) (relations.trans decodedRelations.symm)
    (relations ▸ laid.sound.distinct) fun relation member => ?_
  rw [relations] at member
  rcases List.mem_map.mp member with ⟨entry, entryMember, rfl⟩
  rcases realizes.chosen entry entryMember with ⟨set, found, univ, arity, members⟩
  rcases decoded.chosen entry entryMember with ⟨set', found', univ', arity', members'⟩
  rw [found, found']
  exact congrArg some (TupleSet.ext_iff.mpr ⟨univ.trans univ'.symm, arity.trans arity'.symm,
    fun index => (members index).trans (members' index).symm⟩)

/-- Decoding is a bijection between the values of the variables and the instances of the bound
relations within the bounds. -/
theorem exists_decode (inRange : leaves.bounds.InRange) (countable : leaves.bounds.Countable) :
    ∃ decode : (Fin leaves.primary → Bool) → {model : Instance //
        leaves.bounds.Admits model ∧ model.relations = leaves.bounds.relations},
      Function.Bijective decode ∧ ∀ holds : Nat → Bool,
        decodeInstance? leaves.bounds leaves.layout holds =
          .ok (decode fun index => holds (index + 1)).val := by
  have admitted : ∀ holds, leaves.bounds.Admits (leaves.decoded holds) ∧
      (leaves.decoded holds).relations = leaves.bounds.relations := fun holds =>
    ⟨(laid.admits_iff _).mpr ⟨holds, laid.realizes_decoded holds⟩, leaves.relations_decoded holds⟩
  let extended (values : Fin leaves.primary → Bool) (label : Nat) : Bool :=
    if bounded : label - 1 < leaves.primary then values ⟨label - 1, bounded⟩ else false
  have restored : ∀ holds : Nat → Bool,
      leaves.decoded (extended fun index => holds (index + 1)) = leaves.decoded holds := by
    intro holds
    refine (laid.decoded_eq_iff _ _).mpr fun label positive le => ?_
    have bounded : label - 1 < leaves.primary := by omega
    simp only [extended, dif_pos bounded, Nat.sub_add_cancel positive]
  refine ⟨fun values => ⟨leaves.decoded (extended values), admitted _⟩, ⟨?_, ?_⟩, fun holds => ?_⟩
  · intro first second same
    have agree := (laid.decoded_eq_iff _ _).mp (congrArg Subtype.val same)
    funext index
    have here := agree (index + 1) (Nat.succ_pos _) index.isLt
    simpa [extended] using here
  · rintro ⟨model, admits, relations⟩
    rcases (laid.admits_iff model).mp admits with ⟨holds, realizes⟩
    exact ⟨fun index => holds (index + 1),
      Subtype.ext ((restored holds).trans (laid.eq_decoded realizes relations).symm)⟩
  · rw [laid.decodeInstance?_eq_decoded inRange countable]
    exact congrArg Except.ok (restored holds).symm

end Laid

end Leaves

section

variable {bounds : Bounds} (made : bounds.Made) (inRange : bounds.InRange)
  (few : bounds.uncertain.length < 2147483648) (countable : bounds.Countable)

include made inRange few countable

/-- Open tuples, variables and instances correspond. The open tuples of bounds are numbered
from 1 on, each by a number of its own, which the layout of its relation names. Every
assignment of these numbers is decoded, and decoding is a bijection between the assignments
and the instances of the bound relations within the bounds. In the matrix of a bound relation
the cells that are true under an assignment are those of the tuples that the relation holds in
the instance of the assignment. -/
theorem Leaves.correspond : ∃ leaves, Leaves.ofBounds? bounds = .ok leaves ∧
    (∃ label : Relation × Nat → Nat,
      Set.BijOn label {tuple | tuple ∈ bounds.uncertain} (Set.Icc 1 leaves.primary) ∧
      ∀ part ∈ leaves.layout, ∀ index number, (index, number) ∈ part.openTuples ↔
        (part.relation, index) ∈ bounds.uncertain ∧ label (part.relation, index) = number) ∧
    (∃ decode : (Fin leaves.primary → Bool) →
        {model : Instance // bounds.Admits model ∧ model.relations = bounds.relations},
      Function.Bijective decode ∧ ∀ holds : Nat → Bool,
        decodeInstance? bounds leaves.layout holds =
          .ok (decode fun index => holds (index + 1)).val) ∧
    ∀ relation ∈ bounds.relations, ∃ matrix, leaves.relationMatrix? relation = .ok matrix ∧
      ∀ holds model, decodeInstance? bounds leaves.layout holds = .ok model →
        ∃ set, model.tuples? relation = some set ∧
          ∀ index, (matrix.cell index).eval holds = set.containsIndex index := by
  have sound := made.sound
  rw [sound.length_uncertain] at few
  have size : UInt32.size = 4294967296 := by decide
  rcases Leaves.ofBounds?_succeeds few with ⟨leaves, allocated⟩
  have laid := Leaves.laid sound (by omega) allocated
  rcases Leaves.of_ofBounds? allocated with ⟨rfl, -⟩
  refine ⟨leaves, allocated, laid.exists_label, laid.exists_decode inRange countable,
    fun relation member => ?_⟩
  rcases List.mem_map.mp member with ⟨entry, entryMember, rfl⟩
  have found := Bounds.bound?_of_mem sound.distinct entryMember
  have matrix := (laid.matrix inRange entryMember (Circuit.valid_empty leaves.primary 1) rfl
    (by rw [laid.primary_eq]; exact few)).2
  refine ⟨_, by rw [Leaves.relationMatrix?_of_ofBounds? allocated, found], ?_⟩
  intro holds model ran
  cases (laid.decodeInstance?_eq_decoded inRange countable holds).symm.trans ran
  rcases (laid.realizes_decoded holds).chosen entry entryMember with ⟨set, held, -, -, members⟩
  exact ⟨set, held, fun index => (matrix holds index).trans (members index).symm⟩

end

theorem correspond_pet : petBounds.Made ∧ petBounds.InRange ∧ petBounds.uncertain.length = 2 ∧
    petBounds.Countable ∧ ∃ leaves, Leaves.ofBounds? petBounds = .ok leaves ∧
      ∃ decode : (Fin leaves.primary → Bool) →
          {model : Instance // petBounds.Admits model ∧ model.relations = petBounds.relations},
        Function.Bijective decode := by
  have two : petBounds.uncertain.length = 2 := by decide +kernel
  have inRange := petBounds_inRange
  have countable := petBounds_countable
  rcases Leaves.correspond petBounds_made inRange (by omega) countable with
    ⟨leaves, allocated, -, ⟨decode, bijective, -⟩, -⟩
  exact ⟨petBounds_made, inRange, two, countable, leaves, allocated, decode, bijective⟩

/-! Tuples of 64 atoms, which cannot be counted even if a relation has none of them. -/

def alliance : Relation := ⟨1, "Alliance", 64⟩

def allianceBounds : Bounds :=
  ⟨animals, [⟨alliance, .empty animals 64, .empty animals 64⟩], ∅⟩

theorem allianceBounds_made : allianceBounds.Made := by
  have included : (TupleSet.empty animals 64).isSubset (.empty animals 64) = true := by
    decide +kernel
  have bound : (Bounds.empty animals).bindExactly? alliance (.empty animals 64) =
      .ok allianceBounds :=
    Bounds.bind?_of_isSubset rfl rfl rfl rfl included
  exact .bind (.empty animals_named) bound

theorem allianceBounds_inRange : allianceBounds.InRange :=
  .single (TupleSet.inRange_empty _ _)

theorem allianceBounds_refuses {leaves : Leaves}
    (allocated : Leaves.ofBounds? allianceBounds = .ok leaves) (holds : Nat → Bool) :
    decodeInstance? allianceBounds leaves.layout holds = .error (.violation .overflow) := by
  have layout : leaves.layout = [⟨alliance, .empty animals 64,
      RelationBound.openTuples ⟨alliance, .empty animals 64, .empty animals 64⟩
        leaves.allocation⟩] := by
    rw [Leaves.layout, (Leaves.of_ofBounds? allocated).1]
    rfl
  rw [layout]
  rfl

theorem strayBounds_countable : strayBounds.Countable :=
  List.forall_mem_singleton.mpr (by decide)

theorem strayBounds_refuses {leaves : Leaves}
    (allocated : Leaves.ofBounds? strayBounds = .ok leaves) (holds : Nat → Bool) :
    ∃ last, decodeInstance? strayBounds leaves.layout holds =
      .error (.invalidArgument (.indexOutOfRange last 1)) := by
  let part : RelationLayout :=
    ⟨stranger, .stray, RelationBound.openTuples ⟨stranger, .stray, .stray⟩ leaves.allocation⟩
  have layout : leaves.layout = [part] := by
    rw [Leaves.layout, (Leaves.of_ofBounds? allocated).1]
    rfl
  have member : 3 ∈ TupleSet.stray.toList := TupleSet.mem_toList.mpr rfl
  have counted : Index.capacity animals.size 1 = .ok 2 := rfl
  rcases TupleSet.ofIndices?_of_beyond counted (List.mem_append_left
    ((part.openTuples.filter fun entry => holds entry.2).map Prod.fst) member) (by decide) with
    ⟨last, refused⟩
  have decodes : part.decode? animals holds =
      .error (.invalidArgument (.indexOutOfRange last 1)) := refused
  refine ⟨last, ?_⟩
  rw [layout, decodeInstance?, List.foldlM_cons]
  change (part.decode? animals holds >>= _ >>= _ >>= _) = _
  rw [decodes]
  rfl

/-- Bounds that leave nothing open, of which still no assignment is decoded. In the first ones the
tuples of a relation cannot be counted, although there is nothing to decode; in the second ones
what a relation always holds is no tuple. -/
theorem decoding_refused :
    (allianceBounds.Made ∧ allianceBounds.InRange ∧ allianceBounds.uncertain.length = 0 ∧
      ∃ leaves, Leaves.ofBounds? allianceBounds = .ok leaves ∧ ∀ holds,
        decodeInstance? allianceBounds leaves.layout holds = .error (.violation .overflow)) ∧
    TupleSet.stray.Joined ∧ strayBounds.Made ∧ strayBounds.Countable ∧
      strayBounds.uncertain.length = 0 ∧
      ∃ leaves, Leaves.ofBounds? strayBounds = .ok leaves ∧ ∀ holds, ∃ last,
        decodeInstance? strayBounds leaves.layout holds =
          .error (.invalidArgument (.indexOutOfRange last 1)) := by
  have open_of : ∀ {bounds : Bounds}, bounds.Made → bounds.uncertain.length = 0 →
      ∃ leaves, Leaves.ofBounds? bounds = .ok leaves := by
    intro bounds made none
    apply Leaves.ofBounds?_succeeds
    rw [← made.sound.length_uncertain, none]
    decide
  have allied : allianceBounds.uncertain.length = 0 := by decide +kernel
  have strays : strayBounds.uncertain.length = 0 := by decide +kernel
  constructor
  · rcases open_of allianceBounds_made allied with ⟨leaves, allocated⟩
    exact ⟨allianceBounds_made, allianceBounds_inRange, allied, leaves, allocated,
      allianceBounds_refuses allocated⟩
  · rcases open_of strayBounds_made strays with ⟨leaves, allocated⟩
    exact ⟨TupleSet.stray_joined.1, strayBounds_made, strayBounds_countable, strays, leaves,
      allocated, strayBounds_refuses allocated⟩

end ModelFinder
