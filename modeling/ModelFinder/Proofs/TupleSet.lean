import Mathlib
import ModelFinder.TupleSet
import ModelFinder.Proofs.Index
import ModelFinder.Proofs.Outcomes
/-!
Members of tuple sets. Every operation is described by the members of its result; as long as
positions fit into machine words, none is refused.
-/

namespace ModelFinder

namespace TupleSet

/-- Every member is a tuple of the set's arity. -/
def InRange (set : TupleSet) : Prop :=
  ∀ index, set.containsIndex index = true → index < set.univ.size ^ set.arity

theorem mem_toList {set : TupleSet} {index : Nat} :
    index ∈ set.toList ↔ set.containsIndex index = true := by
  rw [toList, Std.ExtTreeSet.mem_toList, containsIndex, Std.ExtTreeSet.contains_iff_mem]

theorem pairwise_toList (set : TupleSet) : set.toList.Pairwise (· < ·) :=
  Std.ExtTreeSet.ordered_toList.imp fun less => compare_lt_iff_lt.mp less

theorem toList_eq {set : TupleSet} {indices : List Nat} (ascending : indices.Pairwise (· < ·))
    (members : ∀ index, index ∈ indices ↔ set.containsIndex index = true) :
    set.toList = indices := by
  exact set.pairwise_toList.eq_of_mem_iff ascending fun index =>
    mem_toList.trans (members index).symm

theorem size_eq_length (set : TupleSet) : set.size = set.toList.length :=
  Std.ExtTreeSet.length_toList.symm

theorem InRange.atom_lt {tuples : TupleSet} {atom : Nat} (inRange : tuples.InRange)
    (single : tuples.singleAtom? = some atom) : atom < tuples.univ.size := by
  rw [singleAtom?] at single
  split at single
  · rename_i unary
    split at single
    · rename_i index only
      cases single
      have member : atom ∈ tuples.toList := by simp [only]
      have inside := inRange atom (mem_toList.mp member)
      rwa [unary, pow_one] at inside
    · cases single
  · cases single

theorem ext_iff {left right : TupleSet} :
    left = right ↔ left.univ = right.univ ∧ left.arity = right.arity ∧
      ∀ index, left.containsIndex index = right.containsIndex index := by
  constructor
  · rintro rfl
    exact ⟨rfl, rfl, fun _ => rfl⟩
  · rintro ⟨univ, arity, members⟩
    cases left
    cases right
    cases univ
    cases arity
    congr 1
    exact Std.ExtTreeSet.ext_contains members

@[simp] theorem containsIndex_empty (univ : Universe) (arity index : Nat) :
    (empty univ arity).containsIndex index = false := by
  simp [empty, containsIndex]

theorem inRange_empty (univ : Universe) (arity : Nat) : (empty univ arity).InRange := by
  simp [InRange]

@[simp] theorem containsIndex_ofList (univ : Universe) (arity : Nat) (indices : List Nat)
    (index : Nat) :
    containsIndex ⟨univ, arity, .ofList indices⟩ index = indices.contains index :=
  Std.ExtTreeSet.contains_ofList

theorem mem_ofAtomIndex {univ : Universe} {atom index : Nat} :
    (ofAtomIndex univ atom).containsIndex index = true ↔ index = atom := by
  rw [ofAtomIndex, containsIndex, Std.ExtTreeSet.contains_insert, Std.ExtTreeSet.contains_empty,
    Bool.or_false, beq_iff_eq, compare_eq_iff_eq, eq_comm]

theorem singleAtom?_ofAtomIndex (univ : Universe) (atom : Nat) :
    (ofAtomIndex univ atom).singleAtom? = some atom := by
  have only : (ofAtomIndex univ atom).toList = [atom] := by
    apply toList_eq (List.pairwise_singleton _ _)
    intro index
    rw [List.mem_singleton, mem_ofAtomIndex]
  rw [singleAtom?, only]
  rfl

theorem ofIndices?_of_counted {univ : Universe} {arity capacity : Nat}
    (counted : Index.capacity univ.size arity = .ok capacity) (indices : List Nat) :
    ofIndices? univ arity indices = match (Std.ExtTreeSet.ofList indices).max? with
      | some last =>
        if capacity ≤ last then .error (.invalidArgument (.indexOutOfRange last arity))
        else .ok ⟨univ, arity, .ofList indices⟩
      | none => .ok ⟨univ, arity, .ofList indices⟩ := by
  rw [ofIndices?, counted]
  rfl

theorem ofIndices?_of_capacity {univ : Universe} {arity : Nat} {indices : List Nat}
    (counted : Index.capacity univ.size arity = .ok (univ.size ^ arity))
    (inRange : ∀ index ∈ indices, index < univ.size ^ arity) :
    ofIndices? univ arity indices = .ok ⟨univ, arity, .ofList indices⟩ := by
  rw [ofIndices?_of_counted counted]
  cases found : (Std.ExtTreeSet.ofList indices).max? with
  | none => rfl
  | some last =>
      have member : last ∈ indices := by
        have inSet := Std.ExtTreeSet.max?_mem found
        rwa [Std.ExtTreeSet.mem_ofList, List.contains_iff_mem] at inSet
      exact if_neg (Nat.not_le.mpr (inRange last member))

theorem ofIndices?_of_beyond {univ : Universe} {arity capacity index : Nat} {indices : List Nat}
    (counted : Index.capacity univ.size arity = .ok capacity) (member : index ∈ indices)
    (beyond : capacity ≤ index) : ∃ last,
      ofIndices? univ arity indices = .error (.invalidArgument (.indexOutOfRange last arity)) := by
  have inSet : index ∈ (Std.ExtTreeSet.ofList indices : Std.ExtTreeSet Nat) := by
    rwa [Std.ExtTreeSet.mem_ofList, List.contains_iff_mem]
  obtain ⟨last, found⟩ := Option.isSome_iff_exists.mp (Std.ExtTreeSet.isSome_max?_of_mem inSet)
  have largest := (Std.ExtTreeSet.max?_eq_some_iff_mem_and_forall.mp found).2 index inSet
  rw [ofIndices?_of_counted counted, found]
  exact ⟨last, if_pos (beyond.trans (Nat.isLE_compare.mp largest))⟩

theorem all_of_capacity {univ : Universe} {arity : Nat}
    (counted : Index.capacity univ.size arity = .ok (univ.size ^ arity)) :
    all univ arity = .ok ⟨univ, arity, .ofList (List.range (univ.size ^ arity))⟩ := by
  rw [all, counted]
  rfl

section

variable {left right : TupleSet}

theorem compatible?_of_eq (univ : right.univ = left.univ) (arity : right.arity = left.arity) :
    left.compatible? right = .ok () := by
  rw [compatible?, if_neg (not_not.mpr univ), if_neg (not_not.mpr arity)]

theorem union?_of_eq (univ : right.univ = left.univ) (arity : right.arity = left.arity) :
    left.union? right = .ok { left with indices := left.indices ∪ right.indices } := by
  rw [union?, compatible?_of_eq univ arity]
  rfl

theorem intersection?_of_eq (univ : right.univ = left.univ) (arity : right.arity = left.arity) :
    left.intersection? right = .ok { left with indices := left.indices ∩ right.indices } := by
  rw [intersection?, compatible?_of_eq univ arity]
  rfl

theorem difference?_of_eq (univ : right.univ = left.univ) (arity : right.arity = left.arity) :
    left.difference? right = .ok { left with indices := left.indices \ right.indices } := by
  rw [difference?, compatible?_of_eq univ arity]
  rfl

@[simp] theorem containsIndex_union (index : Nat) :
    containsIndex { left with indices := left.indices ∪ right.indices } index =
      (left.containsIndex index || right.containsIndex index) :=
  Std.ExtTreeSet.contains_union

@[simp] theorem containsIndex_inter (index : Nat) :
    containsIndex { left with indices := left.indices ∩ right.indices } index =
      (left.containsIndex index && right.containsIndex index) :=
  Std.ExtTreeSet.contains_inter

@[simp] theorem containsIndex_sdiff (index : Nat) :
    containsIndex { left with indices := left.indices \ right.indices } index =
      (left.containsIndex index && !right.containsIndex index) :=
  Std.ExtTreeSet.contains_diff

theorem isSubset_iff (univ : left.univ = right.univ) (arity : left.arity = right.arity) :
    left.isSubset right = true ↔
      ∀ index, left.containsIndex index = true → right.containsIndex index = true := by
  simp only [isSubset, univ, arity, decide_true, Bool.true_and, List.all_eq_true, mem_toList]

end

theorem mapM_ok {ε β γ : Type} {elements : List β} {action : β → Except ε γ} {value : β → γ}
    (each : ∀ element ∈ elements, action element = .ok (value element)) :
    elements.mapM action = .ok (elements.map value) := by
  induction elements with
  | nil => rfl
  | cons first rest hypothesis =>
      rw [List.mapM_cons, each first List.mem_cons_self,
        hypothesis fun element member => each element (List.mem_cons_of_mem _ member)]
      rfl

/-- The tuples of a product: those of the left set, each continued by those of the right. -/
theorem product?_of_continuable {left right : TupleSet} (univ : right.univ = left.univ)
    (leftInRange : left.InRange) (rightInRange : right.InRange) (positive : 0 < left.univ.size)
    (continuable : Index.Continuable left.univ.size left.arity right.arity) :
    ∃ set, left.product? right = .ok set ∧ set.univ = left.univ ∧
      set.arity = left.arity + right.arity ∧
      ∀ index, set.containsIndex index = true ↔ ∃ first second,
        left.containsIndex first = true ∧ right.containsIndex second = true ∧
        first * left.univ.size ^ right.arity + second = index := by
  have capacity := Index.capacity_of_lt positive continuable.right
  have words : ((left.toList.flatMap fun i => right.toList.map fun j => (i, j)).mapM
      fun pair => Index.word (pair.1 * left.univ.size ^ right.arity + pair.2)) =
        .ok ((left.toList.flatMap fun i => right.toList.map fun j => (i, j)).map
          fun pair => pair.1 * left.univ.size ^ right.arity + pair.2) := by
    apply mapM_ok
    intro pair member
    simp only [List.mem_flatMap, List.mem_map] at member
    rcases member with ⟨first, firstMember, second, secondMember, rfl⟩
    have firstBound := leftInRange first (mem_toList.mp firstMember)
    have secondBound := rightInRange second (mem_toList.mp secondMember)
    rw [univ] at secondBound
    exact Index.word_of_lt
      ((Index.continued_lt firstBound secondBound).trans continuable.result)
  rw [product?, if_neg (not_not.mpr univ), capacity]
  change ∃ set, ((_ : Except Error (List Nat)) >>= fun _ => _) = .ok set ∧ _
  rw [words, continuable.columns]
  refine ⟨_, rfl, rfl, rfl, fun index => ?_⟩
  rw [containsIndex_ofList, List.contains_iff_mem]
  simp only [List.mem_map, List.mem_flatMap, mem_toList]
  constructor
  · rintro ⟨pair, ⟨first, firstMember, second, secondMember, rfl⟩, same⟩
    exact ⟨first, second, firstMember, secondMember, same⟩
  · rintro ⟨first, second, firstMember, secondMember, same⟩
    exact ⟨(first, second), ⟨first, firstMember, second, secondMember, rfl⟩, same⟩

/-- The tuples of a join: those that match in the last atom on the left and the first atom on
the right, without these atoms. -/
theorem join?_of_joinable {left right : TupleSet} {before after : Nat}
    (univ : right.univ = left.univ) (leftArity : left.arity = before + 1)
    (rightArity : right.arity = after + 1) (columns : 0 < before + after)
    (leftInRange : left.InRange) (positive : 0 < left.univ.size)
    (joinable : Index.Joinable left.univ.size before after) :
    ∃ set, left.join? right = .ok set ∧ set.univ = left.univ ∧ set.arity = before + after ∧
      ∀ index, set.containsIndex index = true ↔ ∃ first second,
        left.containsIndex first = true ∧ right.containsIndex second = true ∧
        second / left.univ.size ^ after = first % left.univ.size ∧
        Index.joined left.univ.size (left.univ.size ^ after) first second = index := by
  have both : Index.columns left.arity right.arity = .ok (before + after + 2) := by
    rw [leftArity, rightArity, joinable.columns]
    congr 1
    omega
  have rowLength := joinable.rowLength_eq positive
  rw [← rightArity] at rowLength
  let base := left.univ.size
  let matching (first : Nat) : List Nat :=
    right.toList.filter fun second => second / base ^ after == first % base
  have rows : (left.toList.mapM fun first => do
      (← Index.matching? (Index.rows id (base ^ after) right.toList) base (base ^ after)
        first).mapM fun second => Index.word (Index.joined base (base ^ after) first second)) =
      .ok (left.toList.map fun first => (matching first).map
        fun second => Index.joined base (base ^ after) first second) := by
    apply mapM_ok
    intro first member
    have firstBound := leftInRange first (mem_toList.mp member)
    rw [leftArity] at firstBound
    rw [Index.matching?_of_lt id right.toList joinable.right positive]
    apply mapM_ok
    intro second _
    exact Index.word_of_lt ((Index.joined_lt positive firstBound).trans joinable.result)
  have joined : left.join? right = .ok ⟨left.univ, before + after, .ofList
      (left.toList.map fun first => (matching first).map
        fun second => Index.joined base (base ^ after) first second).flatten⟩ := by
    have enough : ¬before + after + 2 < 3 := by omega
    simp only [join?, univ, ne_eq, not_true_eq_false, ite_false, both, enough, rowLength,
      Except.ok_bind, rows, base]
    rfl
  rw [joined]
  refine ⟨_, rfl, rfl, rfl, fun index => ?_⟩
  rw [containsIndex_ofList, List.contains_iff_mem]
  simp only [List.mem_flatten, List.mem_map, mem_toList, matching]
  constructor
  · rintro ⟨_, ⟨first, firstMember, rfl⟩, member⟩
    rcases List.mem_map.mp member with ⟨second, found, same⟩
    rcases List.mem_filter.mp found with ⟨secondMember, agree⟩
    exact ⟨first, second, firstMember, mem_toList.mp secondMember, beq_iff_eq.mp agree, same⟩
  · rintro ⟨first, second, firstMember, secondMember, agree, same⟩
    refine ⟨_, ⟨first, firstMember, rfl⟩, List.mem_map.mpr ⟨second, ?_, same⟩⟩
    exact List.mem_filter.mpr ⟨mem_toList.mpr secondMember, beq_iff_eq.mpr agree⟩

theorem join?_of_zero {left right : TupleSet} (sameUniverse : right.univ = left.univ)
    (columns : Index.columns left.arity right.arity = .ok (left.arity + right.arity))
    (remaining : ¬left.arity + right.arity < 3) (zero : right.arity % UInt32.size = 0) :
    left.join? right = .error (.violation .overflow) := by
  have rowLength : Index.rowLength left.univ.size right.arity = .error (.violation .overflow) :=
    if_pos zero
  simp only [join?, sameUniverse, ne_eq, not_true_eq_false, ite_false, columns, remaining,
    rowLength, Except.ok_bind]
  rfl

end TupleSet

/-! Sets of cats, dogs and neither -/

def animals : Universe := ⟨0, ["cat", "dog"]⟩

theorem animals_named : Universe.ofAtoms? 0 ["cat", "dog"] = .ok animals := by
  simp [Universe.ofAtoms?, Universe.firstRepeated?, animals]

namespace TupleSet

/-- A join of sets of tuples. -/
def Joined (set : TupleSet) : Prop :=
  ∃ left right : TupleSet, left.InRange ∧ right.InRange ∧ left.join? right = .ok set

def stray : TupleSet := ⟨animals, 1, .ofList [3]⟩

def strayDog : TupleSet := ⟨animals, 1, .ofList [1, 3]⟩

theorem inRange_animals (arity : Nat) (indices : List Nat)
    (bounded : ∀ index ∈ indices, index < 2 ^ arity) :
    InRange ⟨animals, arity, .ofList indices⟩ := by
  intro index held
  rw [containsIndex_ofList, List.contains_iff_mem] at held
  exact bounded index held

/-- The tuple without atoms can be joined with tuples of three atoms, and leaves the positions of
their last two atoms as members of a unary set. -/
theorem stray_joined : stray.Joined ∧ ¬stray.InRange := by
  have point := inRange_animals 0 [0] (by decide)
  have triple := inRange_animals 3 [3] (by decide)
  exact ⟨⟨_, _, point, triple, rfl⟩, fun inRange => absurd (inRange 3 rfl) (by decide)⟩

theorem strayDog_joined : strayDog.Joined ∧ ¬strayDog.InRange := by
  have point := inRange_animals 0 [0] (by decide)
  have triples := inRange_animals 3 [1, 3] (by decide)
  exact ⟨⟨_, _, point, triples, rfl⟩, fun inRange => absurd (inRange 3 rfl) (by decide)⟩

end TupleSet

end ModelFinder
