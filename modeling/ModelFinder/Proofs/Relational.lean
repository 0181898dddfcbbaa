import Mathlib
import ModelFinder.Proofs.Arities
import ModelFinder.Proofs.Decoding
import ModelFinder.Proofs.Requests
import ModelFinder.Proofs.Tuple
/-!
Tuple sets as relations. Whatever sets are made of tuples, positions and other sets, their members
are tuples, and every operation on them is the one on sets of sequences of atoms that its name says.
-/

namespace ModelFinder

/-- There is a column, the tuples of an arity can be counted, and one of them fits into memory. -/
structure Index.Countable (base arity : Nat) : Prop where
  positive : 0 < arity
  pow_lt : base ^ arity < limit
  short : arity < Tuple.tooLong

theorem Index.Countable.columns_eq {base left right : Nat} (leftCountable : Countable base left)
    (rightCountable : Countable base right) : columns left right = .ok (left + right) := by
  refine word_of_lt ((Nat.add_lt_add leftCountable.short rightCountable.short).trans ?_)
  decide

namespace Tuple

inductive Made (univ : Universe) : Tuple → Prop
  | named {names : List String} {tuple : Tuple} : ofNames? univ names = .ok tuple → Made univ tuple
  | placed {arity index : Nat} {tuple : Tuple} : ofIndex? univ arity index = .ok tuple →
      Made univ tuple

theorem Made.within {univ : Universe} {tuple : Tuple} (made : tuple.Made univ)
    (inhabited : 0 < univ.size) :
    tuple.univ = univ ∧ Index.Within univ.size tuple.arity tuple.atoms := by
  cases made with
  | @named names tuple found =>
      rw [ofNames?] at found
      split at found
      · cases found
      · obtain ⟨atoms, resolved, found⟩ := Except.bind_eq_ok_iff.mp found
        obtain ⟨_, -, found⟩ := Except.bind_eq_ok_iff.mp found
        cases found
        refine ⟨rfl, rfl, (Meets.mapM fun name _ => ?_ : Meets False
          (fun atoms => ∀ atom ∈ atoms, atom < univ.size) (names.mapM _)).of_ok resolved⟩
        cases known : univ.indexOf? name with
        | none => exact False.elim
        | some atom => exact (List.idxOf?_eq_some_iff.mp known).1
  | @placed arity index tuple found =>
      obtain ⟨capacity, counted, found⟩ := Except.bind_eq_ok_iff.mp found
      have below := Index.le_of_capacity inhabited counted
      dsimp only at found
      split at found
      · cases found
      · rename_i inRange
        split at found
        · cases found
        · cases found
          obtain ⟨within, -⟩ := Index.within_decode ((not_le.mp inRange).trans_le below)
          refine ⟨rfl, ?_⟩
          rw [Tuple.arity, within.length_eq]
          exact within

end Tuple

namespace TupleSet

/-- The sets that can be made over a universe, of countable arities. Adding to a set in place makes
another one of it. -/
inductive Built (univ : Universe) : TupleSet → Prop
  | empty {arity : Nat} : Index.Countable univ.size arity → Built univ (empty univ arity)
  | all {arity : Nat} {set : TupleSet} : Index.Countable univ.size arity →
      all univ arity = .ok set → Built univ set
  | ofIndices {arity : Nat} {indices : List Nat} {set : TupleSet} :
      Index.Countable univ.size arity → ofIndices? univ arity indices = .ok set → Built univ set
  | ofNames {tuples : List (List String)} {set : TupleSet} : ofNames? univ tuples = .ok set →
      Index.Countable univ.size set.arity → Built univ set
  | insert {before after : TupleSet} {tuple : Tuple} : Built univ before → tuple.Made univ →
      before.insert? tuple = .ok after → Built univ after
  | union {left right set : TupleSet} : Built univ left → Built univ right →
      left.union? right = .ok set → Built univ set
  | intersection {left right set : TupleSet} : Built univ left → Built univ right →
      left.intersection? right = .ok set → Built univ set
  | difference {left right set : TupleSet} : Built univ left → Built univ right →
      left.difference? right = .ok set → Built univ set
  | product {left right set : TupleSet} : Built univ left → Built univ right →
      left.product? right = .ok set → Index.Countable univ.size set.arity → Built univ set
  | join {left right set : TupleSet} : Built univ left → Built univ right →
      left.join? right = .ok set → Index.Countable univ.size set.arity → Built univ set

/-! What sets are made of -/

section

variable {univ : Universe} {arity : Nat} {set left right : TupleSet} {tuple : Tuple}

theorem Shaped.reads (shaped : set.Shaped univ arity) : set.Reads univ arity set.sequences := by
  obtain ⟨rfl, rfl, inRange⟩ := shaped
  exact ⟨rfl, rfl, fun _ held => inRange held, rfl⟩

theorem Reads.shaped {sequences : Finset (List Nat)} (reads : set.Reads univ arity sequences) :
    set.Shaped univ arity := by
  obtain ⟨rfl, rfl, inRange, -⟩ := reads
  exact ⟨rfl, rfl, fun held => inRange _ held⟩

theorem Shaped.countable (shaped : set.Shaped univ arity)
    (counted : Index.Countable univ.size arity) :
    Index.Countable univ.size set.arity ∧ set.Shaped univ set.arity := by
  rw [shaped.arity_eq]
  exact ⟨counted, shaped⟩

theorem insert?_isOk_iff : (set.insert? tuple).isOk = true ↔
    tuple.univ = set.univ ∧ tuple.arity = set.arity := by
  rw [insert?]
  split
  · rename_i foreign
    simp [foreign, Except.isOk, Except.toBool]
  · rename_i same
    split
    · rename_i other
      simp [other, Except.isOk, Except.toBool]
    · rename_i sameArity
      simp [not_not.mp same, not_not.mp sameArity, Except.isOk, Except.toBool]

theorem Reads.insert {sequences : Finset (List Nat)} (reads : set.Reads univ arity sequences)
    (sameUniverse : tuple.univ = univ) (within : Index.Within univ.size arity tuple.atoms) :
    ∃ after, set.insert? tuple = .ok after ∧
      after.Reads univ arity (Insert.insert tuple.atoms sequences) := by
  have univ_eq := reads.univ_eq
  have arity_eq := reads.arity_eq
  have sameArity : tuple.arity = set.arity := within.length_eq.trans arity_eq.symm
  refine ⟨{ set with indices := set.indices.insert tuple.index }, ?_, ?_⟩
  · rw [insert?, if_neg (not_not.mpr (sameUniverse.trans univ_eq.symm)),
      if_neg (not_not.mpr sameArity)]
  · have held : ∀ index, containsIndex { set with indices := set.indices.insert tuple.index }
        index = true ↔ Index.encode univ.size tuple.atoms = index ∨
          set.containsIndex index = true := by
      intro index
      rw [containsIndex, Std.ExtTreeSet.contains_insert, Bool.or_eq_true, beq_iff_eq,
        Std.LawfulEqCmp.compare_eq_iff_eq, Tuple.index, sameUniverse]
      rfl
    refine .of_members univ_eq arity_eq (fun index inSet => ?_) (fun atoms isWithin => ?_)
      fun atoms member => ?_
    · rcases (held index).mp inSet with rfl | old
      · exact within.encode_lt
      · exact reads.shaped.inRange old
    · rw [held, Finset.mem_insert, reads.mem_iff, and_iff_right isWithin]
      refine or_congr_left ⟨fun same => ?_, fun same => ?_⟩
      · exact (within.encode_inj isWithin same).symm
      · rw [same]
    · rcases Finset.mem_insert.mp member with rfl | old
      · exact within
      · exact reads.within old

theorem compatible?_of_arity_ne (univ : right.univ = left.univ) (arity : left.arity ≠ right.arity) :
    left.compatible? right =
      .error (.invalidArgument (.unexpectedArity left.arity right.arity)) := by
  rw [compatible?, if_neg (not_not.mpr univ), if_pos arity.symm]

theorem refused_of_arity_ne (univ : right.univ = left.univ) (arity : left.arity ≠ right.arity) :
    ∀ operation ∈ [union?, intersection?, difference?], operation left right =
      .error (.invalidArgument (.unexpectedArity left.arity right.arity)) := by
  have incompatible := compatible?_of_arity_ne univ arity
  simp only [List.forall_mem_cons, List.not_mem_nil, false_imp_iff, implies_true, and_true]
  refine ⟨?_, ?_, ?_⟩
  · rw [union?, incompatible]
    rfl
  · rw [intersection?, incompatible]
    rfl
  · rw [difference?, incompatible]
    rfl

end

/-- Operations column by column keep the arity and the members in range. -/
theorem columnwise_shaped {univ : Universe} {set left right : TupleSet}
    (leftShaped : left.Shaped univ left.arity) (rightShaped : right.Shaped univ right.arity)
    {operation : TupleSet → TupleSet → Except Error TupleSet}
    (listed : operation ∈ [union?, intersection?, difference?])
    (made : operation left right = .ok set) : set.Shaped univ left.arity := by
  by_cases sameArity : left.arity = right.arity
  · rw [← sameArity] at rightShaped
    simp only [List.mem_cons, List.not_mem_nil, or_false] at listed
    rcases listed with rfl | rfl | rfl
    · exact (meets_union leftShaped rightShaped : Meets False _ _).of_ok made
    · exact (meets_intersection leftShaped rightShaped : Meets False _ _).of_ok made
    · exact (meets_difference leftShaped rightShaped : Meets False _ _).of_ok made
  · have sameUniverse := rightShaped.univ_eq.trans leftShaped.univ_eq.symm
    rw [refused_of_arity_ne sameUniverse sameArity operation listed] at made
    cases made

theorem insert?_shaped {univ : Universe} {arity : Nat} {set after : TupleSet} {tuple : Tuple}
    (inhabited : 0 < univ.size) (shaped : set.Shaped univ arity) (made : tuple.Made univ)
    (added : set.insert? tuple = .ok after) : after.Shaped univ arity := by
  have accepted : tuple.univ = set.univ ∧ tuple.arity = set.arity :=
    insert?_isOk_iff.mp (by rw [added]; rfl)
  obtain ⟨sameUniverse, within⟩ := made.within inhabited
  rw [accepted.2, shaped.arity_eq] at within
  obtain ⟨_, same, reads⟩ := shaped.reads.insert sameUniverse within
  rw [added] at same
  cases same
  exact reads.shaped

theorem insertNames?_shaped {univ : Universe} {arity : Nat} (inhabited : 0 < univ.size)
    {tuples : List (List String)} {set after : TupleSet} (shaped : set.Shaped univ arity)
    (added : set.insertNames? tuples = .ok after) : after.Shaped univ arity := by
  induction tuples generalizing set with
  | nil =>
      cases added
      exact shaped
  | cons names rest hypothesis =>
      rw [insertNames?] at added
      split at added
      · cases added
      · obtain ⟨tuple, named, added⟩ := Except.bind_eq_ok_iff.mp added
        obtain ⟨middle, first, added⟩ := Except.bind_eq_ok_iff.mp added
        rw [shaped.univ_eq] at named
        exact hypothesis (insert?_shaped inhabited shaped (.named named) first) added

namespace Built

variable {univ : Universe} {set left right : TupleSet}

theorem shaped (built : set.Built univ) (inhabited : 0 < univ.size) :
    Index.Countable univ.size set.arity ∧ set.Shaped univ set.arity := by
  induction built with
  | empty countable => exact ⟨countable, .empty univ _⟩
  | all countable made =>
      exact ((meets_all inhabited False.elim).of_ok made).countable countable
  | ofIndices countable made =>
      exact ((meets_ofIndices inhabited False.elim _).of_ok made).countable countable
  | @ofNames tuples set made countable =>
      refine ⟨countable, ?_⟩
      cases tuples with
      | nil => cases made
      | cons names rest =>
          have shaped := insertNames?_shaped inhabited (.empty univ _) made
          exact shaped.arity_eq ▸ shaped
  | insert _ tupleMade added hypothesis =>
      exact (insert?_shaped inhabited hypothesis.2 tupleMade added).countable hypothesis.1
  | union _ _ made leftHypothesis rightHypothesis =>
      have shaped := columnwise_shaped leftHypothesis.2 rightHypothesis.2 (by simp) made
      exact shaped.countable leftHypothesis.1
  | intersection _ _ made leftHypothesis rightHypothesis =>
      have shaped := columnwise_shaped leftHypothesis.2 rightHypothesis.2 (by simp) made
      exact shaped.countable leftHypothesis.1
  | difference _ _ made leftHypothesis rightHypothesis =>
      have shaped := columnwise_shaped leftHypothesis.2 rightHypothesis.2 (by simp) made
      exact shaped.countable leftHypothesis.1
  | product _ _ made countable leftHypothesis rightHypothesis =>
      have shaped := (meets_product inhabited leftHypothesis.2 rightHypothesis.2
        False.elim).of_ok made
      exact ⟨countable, shaped.arity_eq ▸ shaped⟩
  | @join left right set _ _ made countable leftHypothesis rightHypothesis =>
      refine ⟨countable, ?_⟩
      obtain ⟨before, leftArity⟩ := Nat.exists_eq_add_one.mpr leftHypothesis.1.positive
      obtain ⟨rest, rightArity⟩ := Nat.exists_eq_add_one.mpr rightHypothesis.1.positive
      have shaped := (meets_join inhabited (leftArity ▸ leftHypothesis.2)
        (rightArity ▸ rightHypothesis.2) False.elim).of_ok made
      exact shaped.arity_eq ▸ shaped

end Built

/-- A set is made of its tuples, which are listed in ascending order. -/
structure Lists (univ : Universe) (set : TupleSet) : Prop where
  univ_eq : set.univ = univ
  inRange : ∀ index, set.containsIndex index = true → index < univ.size ^ set.arity
  tuples : ∃ tuples, set.tuples? = .ok tuples ∧ tuples.length = set.size ∧
    (tuples.map Tuple.index).Pairwise (· < ·) ∧
    (∀ index, index ∈ tuples.map Tuple.index ↔ set.containsIndex index = true) ∧
    (∀ tuple ∈ tuples, tuple.univ = univ ∧ tuple.arity = set.arity) ∧
    (tuples.map Tuple.atoms).toFinset = set.sequences

/-- Operations on two sets are those on their sequences. -/
structure Combines (univ : Universe) (left right : TupleSet) : Prop where
  union : left.arity = right.arity → ∃ set, left.union? right = .ok set ∧
    set.Reads univ left.arity (left.sequences ∪ right.sequences)
  intersection : left.arity = right.arity → ∃ set, left.intersection? right = .ok set ∧
    set.Reads univ left.arity (left.sequences ∩ right.sequences)
  difference : left.arity = right.arity → ∃ set, left.difference? right = .ok set ∧
    set.Reads univ left.arity (left.sequences \ right.sequences)
  refused : left.arity ≠ right.arity →
    ∀ operation ∈ [union?, intersection?, difference?], operation left right =
      .error (.invalidArgument (.unexpectedArity left.arity right.arity))
  isSubset : left.isSubset right = true ↔
    left.arity = right.arity ∧ left.sequences ⊆ right.sequences
  product : Index.Countable univ.size (left.arity + right.arity) →
    ∃ set, left.product? right = .ok set ∧
      set.Reads univ (left.arity + right.arity)
        (SetOp.product.denote left.sequences right.sequences)
  /-- The row length of a join is a power with a 32-bit exponent, one less than the low bits of the
  arity on the right. -/
  join : 3 ≤ left.arity + right.arity → right.arity % UInt32.size ≠ 0 →
    Index.Countable univ.size (left.arity + right.arity - 2) →
      ∃ set, left.join? right = .ok set ∧
        set.Reads univ (left.arity + right.arity - 2)
          (SetOp.join.denote left.sequences right.sequences)
  joinOverflow : 3 ≤ left.arity + right.arity → right.arity % UInt32.size = 0 →
    left.join? right = .error (.violation .overflow)
  joinEmpty : left.arity + right.arity < 3 → left.join? right =
    .error (.invalidArgument (.tupleJoinEmpty left.arity right.arity))

/-! What sets mean -/

section

variable {univ : Universe} {arity : Nat} {set left right : TupleSet}

theorem filterMapM_ok {ε β γ : Type} {elements : List β} {action : β → Except ε (Option γ)}
    {value : β → γ} (each : ∀ element ∈ elements, action element = .ok (some (value element))) :
    elements.filterMapM action = .ok (elements.map value) := by
  induction elements with
  | nil => rfl
  | cons first rest hypothesis =>
      rw [List.forall_mem_cons] at each
      rw [List.filterMapM_cons, each.1, Except.ok_bind]
      dsimp only
      rw [hypothesis each.2]
      rfl

theorem Shaped.lists (inhabited : 0 < univ.size) (shaped : set.Shaped univ set.arity)
    (countable : Index.Countable univ.size set.arity) : set.Lists univ := by
  obtain rfl := shaped.univ_eq
  have inRange : ∀ index ∈ set.toList, index < set.univ.size ^ set.arity :=
    fun index member => shaped.inRange (mem_toList.mp member)
  let tuple (index : Nat) : Tuple := ⟨set.univ, Index.decode set.univ.size set.arity index⟩
  have listed : set.tuples? = .ok (set.toList.map tuple) := by
    refine filterMapM_ok fun index member => ?_
    rw [member?, Tuple.ofIndex?_eq inhabited countable.pow_lt countable.short
      (inRange index member)]
  have indices : (set.toList.map tuple).map Tuple.index = set.toList := by
    rw [List.map_map]
    exact (List.map_congr_left fun index member =>
      (Index.within_decode (inRange index member)).2).trans (List.map_id _)
  refine ⟨rfl, fun index held => shaped.inRange held, _, listed, ?_, ?_, fun index => ?_, ?_, ?_⟩
  · rw [List.length_map, size_eq_length]
  · rw [indices]
    exact set.pairwise_toList
  · rw [indices, mem_toList]
  · refine List.forall_mem_map.mpr fun index member => ⟨rfl, ?_⟩
    exact (Index.within_decode (inRange index member)).1.length_eq
  · rw [List.map_map]
    rfl

theorem Shaped.combines (inhabited : 0 < univ.size) (leftShaped : left.Shaped univ left.arity)
    (rightShaped : right.Shaped univ right.arity)
    (leftCountable : Index.Countable univ.size left.arity)
    (rightCountable : Index.Countable univ.size right.arity) : left.Combines univ right := by
  have leftReads := leftShaped.reads
  have rightReads := rightShaped.reads
  have sameUniverse := rightShaped.univ_eq.trans leftShaped.univ_eq.symm
  have columns := leftCountable.columns_eq rightCountable
  refine ⟨fun same => ?_, fun same => ?_, fun same => ?_, refused_of_arity_ne sameUniverse, ?_,
    fun countable => ?_, fun remaining nonzero countable => ?_, fun remaining zero => ?_,
    fun few => ?_⟩
  · exact leftReads.union (same ▸ rightReads)
  · exact leftReads.intersection (same ▸ rightReads)
  · exact leftReads.difference (same ▸ rightReads)
  · by_cases sameArity : left.arity = right.arity
    · rw [isSubset_iff sameUniverse.symm sameArity, and_iff_right sameArity]
      exact leftReads.subset_iff (sameArity ▸ rightReads)
    · simp [isSubset, sameArity]
  · exact Reads.product inhabited ⟨columns, rightCountable.pow_lt, countable.pow_lt⟩ leftReads
      rightReads
  · obtain ⟨before, leftArity⟩ := Nat.exists_eq_add_one.mpr leftCountable.positive
    obtain ⟨rest, rightArity⟩ := Nat.exists_eq_add_one.mpr rightCountable.positive
    have result : left.arity + right.arity - 2 = before + rest := by omega
    have counted := rightCountable.pow_lt
    rw [result] at countable ⊢
    rw [leftArity] at leftReads columns
    rw [rightArity] at rightReads nonzero counted columns
    exact Reads.join inhabited countable.positive ⟨columns, counted, countable.pow_lt, nonzero⟩
      leftReads rightReads
  · exact join?_of_zero sameUniverse columns (by omega) zero
  · rw [join?, if_neg (not_not.mpr sameUniverse), columns]
    exact if_pos few

end

/-! Sets that are changed in place -/

/-- What a set may be asked for that is changed in place: to take one tuple more, or all of another
set, over whatever universe they were made. -/
inductive Request
  | insert (tuple : Tuple) (made : tuple.Made tuple.univ)
  | insertAll (tuples : TupleSet) (built : tuples.Built tuples.univ)

namespace Request

def perform? : Request → TupleSet → Except Error TupleSet
  | insert tuple _, set => set.insert? tuple
  | insertAll tuples _, set => set.union? tuples

def sequences : Request → Finset (List Nat)
  | insert tuple _ => {tuple.atoms}
  | insertAll tuples _ => tuples.sequences

def Admissible (univ : Universe) (arity : Nat) : Request → Prop
  | insert tuple _ => tuple.univ = univ ∧ tuple.arity = arity
  | insertAll tuples _ => tuples.univ = univ ∧ tuples.arity = arity

end Request

/-- What a set is after it took some requests. -/
structure Takes (univ : Universe) (before : TupleSet) (given : List Request) (after : TupleSet) :
    Prop where
  built : after.Built univ
  arity_eq : after.arity = before.arity
  mem_sequences : ∀ atoms, atoms ∈ after.sequences ↔
    atoms ∈ before.sequences ∨ ∃ request ∈ given, atoms ∈ request.sequences

section

variable {univ : Universe} {before set after left right : TupleSet} {given : List Request}

theorem union?_isOk_iff : (left.union? right).isOk = true ↔
    right.univ = left.univ ∧ right.arity = left.arity := by
  constructor
  · intro isOk
    obtain ⟨set, made⟩ := Except.isOk_iff_exists.mp isOk
    obtain ⟨_, same, -⟩ := Except.bind_eq_ok_iff.mp made
    rw [compatible?] at same
    split at same
    · cases same
    · rename_i sameUniverse
      split at same
      · cases same
      · rename_i sameArity
        exact ⟨not_not.mp sameUniverse, not_not.mp sameArity⟩
  · rintro ⟨sameUniverse, sameArity⟩
    rw [union?_of_eq sameUniverse sameArity]
    rfl

theorem Takes.perform (inhabited : 0 < univ.size) (takes : Takes univ before given set)
    (request : Request) :
    ((request.perform? set).isOk = true ↔ request.Admissible univ before.arity) ∧
      ∀ after, request.perform? set = .ok after → Takes univ before (given ++ [request]) after := by
  obtain ⟨countable, shaped⟩ := takes.built.shaped inhabited
  have univ_eq := shaped.univ_eq
  have arity_eq := takes.arity_eq
  have further : ∀ {after : TupleSet}, after.Built univ → after.Reads univ set.arity
      (set.sequences ∪ request.sequences) → Takes univ before (given ++ [request]) after := by
    intro after built reads
    refine ⟨built, reads.arity_eq.trans arity_eq, fun atoms => ?_⟩
    rw [reads.sequences_eq, Finset.mem_union, takes.mem_sequences, or_assoc]
    simp only [List.mem_append, List.mem_singleton, or_and_right, exists_or, exists_eq_left]
  cases request with
  | insert tuple made =>
      have accepted : (set.insert? tuple).isOk = true ↔
          tuple.univ = univ ∧ tuple.arity = before.arity := by
        rw [insert?_isOk_iff, univ_eq, arity_eq]
      refine ⟨accepted, fun after added => ?_⟩
      obtain ⟨rfl, sameArity⟩ := accepted.mp (Except.isOk_iff_exists.mpr ⟨after, added⟩)
      have within := (made.within inhabited).2
      rw [sameArity, ← arity_eq] at within
      obtain ⟨_, same, reads⟩ := shaped.reads.insert rfl within
      obtain rfl := Except.ok.inj (added.symm.trans same)
      refine further (.insert takes.built made added) ?_
      rwa [Finset.insert_eq, Finset.union_comm] at reads
  | insertAll tuples built =>
      have accepted : (set.union? tuples).isOk = true ↔
          tuples.univ = univ ∧ tuples.arity = before.arity := by
        rw [union?_isOk_iff, univ_eq, arity_eq]
      refine ⟨accepted, fun after added => ?_⟩
      obtain ⟨rfl, sameArity⟩ := accepted.mp (Except.isOk_iff_exists.mpr ⟨after, added⟩)
      have tuplesShaped := (built.shaped inhabited).2
      rw [sameArity, ← arity_eq] at tuplesShaped
      obtain ⟨_, same, reads⟩ := shaped.reads.union tuplesShaped.reads
      obtain rfl := Except.ok.inj (added.symm.trans same)
      exact further (.union takes.built built added) reads

theorem serveAll_takes (inhabited : 0 < univ.size) (built : set.Built univ)
    (requests : List Request) :
    let served := (serveAll Request.perform? requests).run set
    List.Forall₂ (fun request outcome => outcome.isOk = true ↔
        request.Admissible univ set.arity) requests served.1 ∧
      Takes univ set (performed requests served.1) served.2 := by
  have start : Takes univ set [] set := ⟨built, rfl, by simp⟩
  exact serveAll_keeps (Takes univ set) (fun request takes => takes.perform inhabited request)
    requests start

end

/-! Tuple sets are relations -/

/-- Whatever sets are built over a universe, of arities whose tuples can be counted and fit into
memory. Each consists of its tuples; two of them are combined as sets of sequences; and a set that
is changed in place takes what fits, while a refused request leaves it as it was. -/
theorem relational {id : Nat} {names : List String} {univ : Universe}
    (made : Universe.ofAtoms? id names = .ok univ) :
    (∀ set : TupleSet, set.Built univ → set.Lists univ) ∧
    (∀ left right : TupleSet, left.Built univ → right.Built univ → left.Combines univ right) ∧
    (∀ set : TupleSet, set.Built univ → ∀ requests : List Request,
      let served := (serveAll Request.perform? requests).run set
      List.Forall₂ (fun request outcome => outcome.isOk = true ↔
          request.Admissible univ set.arity) requests served.1 ∧
        Takes univ set (performed requests served.1) served.2) ∧
    ∀ (request : Request) (set after : TupleSet) (error : Error),
      (serve Request.perform? request).run.run set = (.error error, after) → after = set := by
  have inhabited := Universe.size_pos made
  refine ⟨fun set built => ?_, fun left right leftBuilt rightBuilt => ?_,
    fun set built => serveAll_takes inhabited built, fun _ _ _ _ => serve_refused _⟩
  · obtain ⟨countable, shaped⟩ := built.shaped inhabited
    exact shaped.lists inhabited countable
  · obtain ⟨leftCountable, leftShaped⟩ := leftBuilt.shaped inhabited
    obtain ⟨rightCountable, rightShaped⟩ := rightBuilt.shaped inhabited
    exact leftShaped.combines inhabited rightShaped leftCountable rightCountable

theorem relational_roads :
    let town : Universe := ⟨0, ["square", "mill", "bridge"]⟩
    ∃ roads places ends, ofNames? town [["square", "mill"], ["mill", "bridge"]] = .ok roads ∧
      all town 1 = .ok places ∧ places.join? roads = .ok ends ∧ roads.Lists town ∧
      ends.Reads town 1 (SetOp.join.denote places.sequences roads.sequences) := by
  intro town
  have countable : ∀ arity, 0 < arity → arity ≤ 2 → Index.Countable town.size arity := by
    intro arity positive small
    have counted : town.size ^ arity ≤ 3 ^ 2 := Nat.pow_le_pow_right (by decide) small
    exact ⟨positive, counted.trans_lt (by decide), small.trans_lt (by decide)⟩
  obtain ⟨lists, combines, -, -⟩ :=
    relational (by rfl : Universe.ofAtoms? 0 ["square", "mill", "bridge"] = .ok town)
  have roadsMade : ofNames? town [["square", "mill"], ["mill", "bridge"]] =
      .ok ⟨town, 2, (Std.ExtTreeSet.ofList []).insert 1 |>.insert 5⟩ := rfl
  have placesMade : all town 1 = .ok ⟨town, 1, .ofList [0, 1, 2]⟩ := rfl
  have roadsBuilt := Built.ofNames roadsMade (countable 2 (by decide) (by decide))
  have placesBuilt := Built.all (countable 1 (by decide) (by decide)) placesMade
  obtain ⟨ends, joined, reads⟩ := (combines _ _ placesBuilt roadsBuilt).join (by decide) (by decide)
    (countable 1 (by decide) (by decide))
  exact ⟨_, _, ends, roadsMade, placesMade, joined, lists _ roadsBuilt, reads⟩

/-- Over a single atom a join is refused if the low bits of the arity on the right are zero, and of
two sets without members neither is included in the other one if their arities differ. A set whose
member is too long for memory cannot be listed. -/
theorem wide_sets_not_combined :
    let cell : Universe := ⟨0, ["hermit"]⟩
    let wide := empty cell 4294967296
    (∃ hermits, Universe.ofAtoms? 0 ["hermit"] = .ok cell ∧ all cell 1 = .ok hermits ∧
      hermits.Built cell ∧ wide.Built cell ∧ 3 ≤ hermits.arity + wide.arity ∧
      Index.Countable cell.size (hermits.arity + wide.arity - 2) ∧
      hermits.join? wide = .error (.violation .overflow) ∧
      wide.sequences ⊆ hermits.sequences ∧ wide.isSubset hermits = false) ∧
    ∃ long, all cell Tuple.tooLong = .ok long ∧ long.toList = [0] ∧
      cell.size ^ Tuple.tooLong = 1 ∧ long.tuples? = .error (.violation .overflow) := by
  intro cell wide
  have single (arity : Nat) : cell.size ^ arity = 1 := one_pow arity
  have fits (arity : Nat) : cell.size ^ arity < Index.limit := by
    rw [single]
    decide
  have countable : ∀ arity, 0 < arity → arity < Tuple.tooLong →
      Index.Countable cell.size arity :=
    fun arity positive short => ⟨positive, fits arity, short⟩
  have listed : all cell 1 = .ok ⟨cell, 1, .ofList [0]⟩ := rfl
  have none : wide.sequences = ∅ := (Reads.empty cell 4294967296).sequences_eq
  have columns := (countable 1 (by decide) (by decide)).columns_eq
    (countable 4294967296 (by decide) (by decide))
  have refused : join? ⟨cell, 1, .ofList [0]⟩ wide = .error (.violation .overflow) :=
    join?_of_zero rfl columns (by decide) (by decide)
  have long : all cell Tuple.tooLong = .ok ⟨cell, Tuple.tooLong, .ofList [0]⟩ := by
    rw [all_of_capacity (Index.capacity_of_lt (by decide) (fits _)), single]
    rfl
  have unlisted : tuples? ⟨cell, Tuple.tooLong, .ofList [0]⟩ = .error (.violation .overflow) := by
    have member : Tuple.ofIndex? cell Tuple.tooLong 0 = .error (.violation .overflow) :=
      Tuple.ofIndex?_of_long (by decide) (fits _) le_rfl (by rw [single]; decide)
    have only : toList ⟨cell, Tuple.tooLong, .ofList [0]⟩ = [0] := rfl
    rw [tuples?, only, List.filterMapM_cons, member?, member]
    rfl
  exact ⟨⟨_, rfl, listed, .all (countable 1 (by decide) (by decide)) listed,
    .empty (countable _ (by decide) (by decide)), by decide, countable _ (by decide) (by decide),
    refused, by simp [none], by decide⟩, _, long, rfl, single _, unlisted⟩

end TupleSet

end ModelFinder
