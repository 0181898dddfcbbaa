import Mathlib
import ModelFinder.Proofs.Instance
import ModelFinder.Proofs.Semantics.Integers
import ModelFinder.Proofs.Semantics.Sets
/-!
What leaves stand for in an instance. Fixed relations, the atoms of integers and the integers of
atoms are read off the instance's values, and denote the same.
-/

namespace ModelFinder

theorem TupleSet.ofIndices?_atoms {univ : Universe} {atoms : List Nat} (positive : 0 < univ.size)
    (small : univ.size ^ 1 < Index.limit) (inRange : ∀ atom ∈ atoms, atom < univ.size) :
    ∃ set, ofIndices? univ 1 atoms = .ok set ∧
      set.Reads univ 1 (atomSequences atoms.toFinset) := by
  have sequences : (atoms.map fun atom => [atom]).toFinset = atomSequences atoms.toFinset := by
    ext sequence
    simp [atomSequences]
  have positions : (atoms.map fun atom => [atom]).map (Index.encode univ.size) = atoms := by
    rw [List.map_map]
    exact (List.map_congr_left fun atom _ => by simp [Index.encode]).trans (List.map_id atoms)
  rw [← sequences]
  exact ofIndices?_reads positive small (List.forall_mem_map.mpr fun atom member =>
    ⟨rfl, List.forall_mem_singleton.mpr (inRange atom member)⟩) positions

theorem TupleSet.Reads.containsIndex_atom {univ : Universe} {set : TupleSet}
    {sequences : Finset (List Nat)} (reads : set.Reads univ 1 sequences) {atom : Nat}
    (inRange : atom < univ.size) : set.containsIndex atom = true ↔ [atom] ∈ sequences := by
  have within : Index.Within univ.size 1 [atom] := ⟨rfl, List.forall_mem_singleton.mpr inRange⟩
  rw [reads.mem_iff, and_iff_right within]
  simp [Index.encode]

theorem Digits.digit_toInt {width position : Nat} (a : BitVec width) (below : position < width) :
    digit a.toInt position = a.getLsbD position := by
  have digits := map_getLsbD_ofInt a.toInt width
  rw [BitVec.ofInt_toInt, List.map_inj_left] at digits
  exact (digits position (List.mem_range.mpr below)).symm

namespace Instance

def interpretation (model : Instance) : Interpretation where
  size := model.univ.size
  relation? leaf := (model.tuples? leaf).map TupleSet.sequences
  ints := model.ints.toFinset

variable {model : Instance}

/-- The atoms of a number are those that its cast denotes. -/
theorem castAtoms_toInt (range : IntRange) (cast : IntCast) (a : BitVec range.bitwidth) :
    atomSequences (model.castAtoms range cast a.toInt).toFinset =
      cast.denote model.interpretation a := by
  refine congrArg atomSequences (Finset.ext fun atom => ?_)
  rw [List.mem_toFinset]
  cases cast with
  | value =>
      simp only [mem_castAtoms_value, interpretation, Finset.mem_image, Finset.mem_filter,
        List.mem_toFinset]
      constructor
      · intro member
        exact ⟨_, ⟨member, rfl⟩, rfl⟩
      · rintro ⟨⟨value, atom⟩, ⟨member, rfl⟩, rfl⟩
        exact member
  | bitset =>
      have weights (position : Nat) : (Digits.weight position : Int) = 2 ^ position :=
        Nat.cast_pow 2 position
      have digits {position : Nat} (below : position < range.bitwidth - 1) :
          Digits.digit a.toInt position = a.getLsbD position :=
        Digits.digit_toInt a (below.trans_le (Nat.sub_le _ _))
      have sign : a.toInt < 0 ↔ a.msb = true := by
        rw [BitVec.msb_eq_toInt, decide_eq_true_iff]
      simp only [mem_castAtoms_bitset, interpretation, Finset.mem_image, Finset.mem_filter,
        List.mem_toFinset, sign, IntRange.min, weights, ← mem_ints]
      constructor
      · rintro (⟨position, below, held, member⟩ | ⟨negative, member⟩)
        · exact ⟨_, ⟨member, .inl ⟨position, below, by rwa [← digits below], rfl⟩⟩, rfl⟩
        · exact ⟨_, ⟨member, .inr ⟨negative, rfl⟩⟩, rfl⟩
      · rintro ⟨⟨value, atom⟩, ⟨member, ⟨position, below, held, rfl⟩ | ⟨negative, rfl⟩⟩, rfl⟩
        · exact .inl ⟨position, below, by rwa [digits below], member⟩
        · exact .inr ⟨negative, member⟩

variable (sound : model.Sound)

include sound

theorem Sound.sum_memberInts (range : IntRange) {set : TupleSet} {sequences : Finset (List Nat)}
    (reads : set.Reads model.univ 1 sequences) :
    range.sum (model.memberInts range set) =
      (sumOfAtoms model.interpretation range.bitwidth sequences).toInt := by
  have distinct : model.ints.Nodup :=
    Std.ExtTreeMap.distinct_keys_toList.imp fun {first second} differ same =>
      differ (by rw [same]; exact Std.ReflCmp.compare_self)
  have chosen : model.interpretation.ints.filter (fun entry => [entry.2] ∈ sequences) =
      (model.ints.filter fun entry => set.containsIndex entry.2).toFinset := by
    ext entry
    simp only [interpretation, Finset.mem_filter, List.mem_toFinset, List.mem_filter]
    exact and_congr_right fun member =>
      (reads.containsIndex_atom (sound.atomsInRange entry member)).symm
  rw [sumOfAtoms, chosen, List.sum_toFinset _ (distinct.filter _), ← range.sum_map_toInt,
    List.map_map, memberInts]
  exact congrArg range.sum (List.map_congr_left fun entry _ => range.wrap_eq_toInt entry.1)

theorem Sound.constant?_reads (leaf : SetConstant)
    (small : model.univ.size ^ (Expr.constant leaf).arity < Index.limit) :
    ∃ set, model.constant? leaf = .ok set ∧
      set.Reads model.univ (Expr.constant leaf).arity (leaf.denote model.interpretation) := by
  have positive := sound.nonempty
  cases leaf with
  | univ =>
      have inRange : ∀ atom ∈ List.range model.univ.size, atom < model.univ.size :=
        fun _ => List.mem_range.mp
      have counted := Index.capacity_of_lt positive small
      change Index.capacity model.univ.size 1 = .ok (model.univ.size ^ 1) at counted
      have ranged : TupleSet.all model.univ 1 =
          TupleSet.ofIndices? model.univ 1 (List.range model.univ.size) := by
        rw [TupleSet.ofIndices?_of_capacity counted (by rwa [pow_one]),
          TupleSet.all_of_capacity counted, pow_one]
      have made := TupleSet.ofIndices?_atoms positive small inRange
      rw [List.toFinset_range, ← ranged] at made
      exact made
  | none => exact ⟨_, rfl, .empty model.univ 1⟩
  | iden =>
      have made := @TupleSet.ofIndices?_reads model.univ 2
        ((List.range model.univ.size).map fun atom => [atom, atom]) _ positive small
        (List.forall_mem_map.mpr fun atom member => ⟨rfl, by simpa using member⟩) rfl
      have positions : ((List.range model.univ.size).map fun atom => [atom, atom]).map
          (Index.encode model.univ.size) =
            (List.range model.univ.size).map fun atom => atom * model.univ.size + atom := by
        simp [Index.encode]
      have sequences : ((List.range model.univ.size).map fun atom => [atom, atom]).toFinset =
          SetConstant.iden.denote model.interpretation := by
        ext
        simp [SetConstant.denote, interpretation]
      rw [positions, sequences] at made
      exact made
  | ints =>
      have made := TupleSet.ofIndices?_atoms positive small
        (List.forall_mem_map.mpr sound.atomsInRange)
      have atoms : (model.ints.map Prod.snd).toFinset =
          model.interpretation.ints.image Prod.snd := by
        ext
        simp [interpretation]
      rw [atoms] at made
      exact made

end Instance

end ModelFinder
