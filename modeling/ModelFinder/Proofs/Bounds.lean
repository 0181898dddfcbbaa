import Mathlib
import ModelFinder.Bounds
import ModelFinder.Proofs.Entries
import ModelFinder.Proofs.TupleSet
/-!
Bounds that are made by binding relations and integers. Every relation is bound at most once,
between two sets of its own arity. That the members of these sets are tuples, and integers stand
for atoms of the universe, is a property of its own, which a caller has to see to.
-/

namespace ModelFinder

theorem List.find?_of_nodup_map {α κ : Type} [BEq κ] [LawfulBEq κ] {key : α → κ}
    {elements : List α} (distinct : (elements.map key).Nodup) {element : α}
    (member : element ∈ elements) :
    (elements.find? fun other => key other == key element) = some element := by
  cases found : elements.find? fun other => key other == key element with
  | none => exact absurd (beq_self_eq_true (key element)) (List.find?_eq_none.mp found _ member)
  | some other =>
      have matching := List.find?_some found
      exact congrArg some (List.inj_on_of_nodup_map distinct (List.mem_of_find?_eq_some found)
        member (beq_iff_eq.mp matching))

theorem Universe.size_pos {id : Nat} {atoms : List String} {univ : Universe}
    (named : Universe.ofAtoms? id atoms = .ok univ) : 0 < univ.size := by
  rw [ofAtoms?] at named
  split at named
  · cases named
  · rename_i nonempty
    split at named
    · cases named
    · cases named
      rw [List.isEmpty_iff] at nonempty
      exact List.length_pos_iff.mpr nonempty

structure RelationBound.Sound (univ : Universe) (bound : RelationBound) : Prop where
  lower_univ : bound.lower.univ = univ
  upper_univ : bound.upper.univ = univ
  lower_arity : bound.lower.arity = bound.relation.arity
  upper_arity : bound.upper.arity = bound.relation.arity
  subset : ∀ index, bound.lower.containsIndex index = true →
    bound.upper.containsIndex index = true

theorem RelationBound.Sound.index_lt {univ : Universe} {bound : RelationBound}
    (sound : bound.Sound univ) (inRange : bound.upper.InRange) {index : Nat}
    (held : bound.upper.containsIndex index = true) : index < univ.size ^ bound.relation.arity := by
  have inside := inRange index held
  rwa [sound.upper_univ, sound.upper_arity] at inside

namespace Bounds

/-- What a caller can make: bounds over a universe of atoms to which relations and integers are
bound. -/
inductive Made : Bounds → Prop
  | empty {id : Nat} {atoms : List String} {univ : Universe} :
      Universe.ofAtoms? id atoms = .ok univ → Made (Bounds.empty univ)
  | bind {before after : Bounds} {relation : Relation} {lower upper : TupleSet} :
      Made before → before.bind? relation lower upper = .ok after → Made after
  | bindInt {before after : Bounds} {value : Int} {tuples : TupleSet} :
      Made before → before.bindInt? value tuples = .ok after → Made after

def AtomsInRange (bounds : Bounds) : Prop :=
  ∀ {value : Int} {atom : Nat}, bounds.intAtoms[value]? = some atom → atom < bounds.univ.size

/-- Relations are bound to tuples, and integers to atoms. Joining a set without columns makes
sets of other positions, which the checks of a binding let pass. -/
structure InRange (bounds : Bounds) : Prop where
  tuples : ∀ entry ∈ bounds.entries, entry.upper.InRange
  atoms : bounds.AtomsInRange

theorem InRange.single {univ : Universe} {entry : RelationBound} (inside : entry.upper.InRange) :
    InRange ⟨univ, [entry], ∅⟩ where
  tuples := List.forall_mem_singleton.mpr inside
  atoms found := by simp at found

theorem bound?_of_mem {bounds : Bounds} (distinct : bounds.relations.Nodup)
    {entry : RelationBound} (member : entry ∈ bounds.entries) :
    bounds.bound? entry.relation = some entry :=
  List.find?_of_nodup_map distinct member

structure Sound (bounds : Bounds) : Prop where
  nonempty : 0 < bounds.univ.size
  distinct : bounds.relations.Nodup
  bound : ∀ entry ∈ bounds.entries, entry.Sound bounds.univ

theorem put_eq (entry : RelationBound) (entries : List RelationBound) :
    put entry entries = Entries.put RelationBound.relation entry entries := by
  induction entries with
  | nil => rfl
  | cons first rest hypothesis => rw [put, Entries.put, hypothesis]

theorem of_bind? {before after : Bounds} {relation : Relation} {lower upper : TupleSet}
    (bound : before.bind? relation lower upper = .ok after) :
    after = { before with entries := put ⟨relation, lower, upper⟩ before.entries } ∧
      lower.univ = before.univ ∧ upper.univ = before.univ ∧
      lower.arity = relation.arity ∧ upper.arity = relation.arity ∧
      lower.isSubset upper = true := by
  rw [bind?] at bound
  split at bound
  · cases bound
  · rename_i universes
    split at bound
    · cases bound
    · rename_i arities
      split at bound
      · cases bound
      · rename_i included
        simp only [not_or, not_not] at universes arities
        refine ⟨(Except.ok.inj bound).symm, universes.1, universes.2, arities.1, arities.2, ?_⟩
        simpa using included

theorem bind?_of_isSubset {bounds : Bounds} {relation : Relation} {lower upper : TupleSet}
    (lowerUniv : lower.univ = bounds.univ) (upperUniv : upper.univ = bounds.univ)
    (lowerArity : lower.arity = relation.arity) (upperArity : upper.arity = relation.arity)
    (included : lower.isSubset upper = true) :
    bounds.bind? relation lower upper =
      .ok { bounds with entries := put ⟨relation, lower, upper⟩ bounds.entries } := by
  rw [bind?, if_neg (by simp [lowerUniv, upperUniv]), if_neg (by simp [lowerArity, upperArity]),
    if_neg (by simp [included])]

theorem of_bindInt? {before after : Bounds} {value : Int} {tuples : TupleSet}
    (bound : before.bindInt? value tuples = .ok after) :
    ∃ atom, tuples.univ = before.univ ∧ tuples.singleAtom? = some atom ∧
      after = { before with intAtoms := before.intAtoms.insert value atom } := by
  rw [bindInt?] at bound
  split at bound
  · cases bound
  · rename_i sameUniverse
    split at bound
    · rename_i atom single
      exact ⟨atom, not_not.mp sameUniverse, single, (Except.ok.inj bound).symm⟩
    · cases rendered : tuples.render? with
      | error error =>
          rw [rendered] at bound
          cases bound
      | ok text =>
          rw [rendered] at bound
          cases bound

theorem Made.sound {bounds : Bounds} (made : Made bounds) : Sound bounds := by
  induction made with
  | @empty id atoms univ named =>
      exact ⟨Universe.size_pos named, List.nodup_nil, by simp [Bounds.empty]⟩
  | @bind before after relation lower upper _ bound sound =>
      rcases of_bind? bound with ⟨rfl, lowerUniv, upperUniv, lowerArity, upperArity, included⟩
      refine ⟨sound.nonempty, ?_, ?_⟩
      · rw [relations, put_eq]
        exact Entries.nodup_put sound.distinct _
      · intro entry member
        rw [put_eq] at member
        rcases Entries.mem_put member with rfl | known
        · rw [TupleSet.isSubset_iff (lowerUniv.trans upperUniv.symm)
            (lowerArity.trans upperArity.symm)] at included
          exact ⟨lowerUniv, upperUniv, lowerArity, upperArity, included⟩
        · exact sound.bound entry known
  | @bindInt before after value tuples _ bound sound =>
      rcases of_bindInt? bound with ⟨atom, -, -, rfl⟩
      exact ⟨sound.nonempty, sound.distinct, sound.bound⟩

theorem Made.bindAtom {bounds : Bounds} (made : Made bounds) (value : Int) (atom : Nat) :
    Made { bounds with intAtoms := bounds.intAtoms.insert value atom } := by
  have sameUniverse : (TupleSet.ofAtomIndex bounds.univ atom).univ = bounds.univ := rfl
  have bound : bounds.bindInt? value (.ofAtomIndex bounds.univ atom) =
      .ok { bounds with intAtoms := bounds.intAtoms.insert value atom } := by
    rw [bindInt?, if_neg (not_not.mpr sameUniverse), TupleSet.singleAtom?_ofAtomIndex]
  exact made.bindInt bound

end Bounds

/-! An atom alone, and a relation with a column too many. -/

def hermitage : Universe := ⟨0, ["hermit"]⟩

def wide : Relation := ⟨0, "wide", 4294967296⟩

def hermitBounds : Bounds :=
  ⟨hermitage, [⟨wide, .empty hermitage 4294967296, .empty hermitage 4294967296⟩], ∅⟩

theorem hermitage_named : Universe.ofAtoms? 0 ["hermit"] = .ok hermitage := rfl

/-- Of a single atom, the tuples of any arity can be counted. -/
theorem hermitage_counted (arity : Nat) : hermitage.size ^ arity < Index.limit := by
  have single : hermitage.size = 1 := rfl
  rw [single, one_pow]
  decide

theorem hermitBounds_made : hermitBounds.Made := by
  have bound : (Bounds.empty hermitage).bindExactly? wide (.empty hermitage 4294967296) =
      .ok hermitBounds := rfl
  exact .bind (.empty hermitage_named) bound

theorem hermitBounds_inRange : hermitBounds.InRange :=
  .single (TupleSet.inRange_empty _ _)

/-! A relation and an integer that are bound to what is no atom. -/

def stranger : Relation := ⟨0, "stranger", 1⟩

def strayBounds : Bounds := ⟨animals, [⟨stranger, .stray, .stray⟩], ∅⟩

def strayInt : Bounds := ⟨animals, [], (∅ : IntAtoms).insert 1 3⟩

theorem stray_singleAtom? : TupleSet.stray.singleAtom? = some 3 := by decide +kernel

theorem strayBounds_made : strayBounds.Made := by
  have included : TupleSet.stray.isSubset .stray = true := by decide +kernel
  have bound : (Bounds.empty animals).bindExactly? stranger .stray = .ok strayBounds :=
    Bounds.bind?_of_isSubset rfl rfl rfl rfl included
  exact .bind (.empty animals_named) bound

theorem strayInt_made : strayInt.Made := by
  have bound : (Bounds.empty animals).bindInt? 1 .stray = .ok strayInt := by
    rw [Bounds.bindInt?, stray_singleAtom?]
    rfl
  exact .bindInt (.empty animals_named) bound

end ModelFinder
