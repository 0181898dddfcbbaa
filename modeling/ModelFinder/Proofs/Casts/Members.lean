import Mathlib
import ModelFinder.Proofs.Compile.Casts
/-!
Integers whose atoms stand for nothing else. A cast takes the atoms of some integers, its addends,
which add up to the number that is cast: the number itself, or the powers of two of its digits.
Where the atom of every addend is its own, a sum over these atoms adds exactly the addends.
-/

namespace ModelFinder

/-- An integer is bound to an atom of a universe that no other integer is bound to. -/
def IntAtoms.Own (atoms : IntAtoms) (univ : Universe) (value : Int) : Prop :=
  ∃ atom < univ.size, atoms[value]? = some atom ∧
    ∀ other : Int, atoms[other]? = some atom → other = value

/-- The powers of two below the sign of a bit width, and its least number, have atoms of their
own. -/
structure IntAtoms.OwnDigits (atoms : IntAtoms) (univ : Universe) (bitwidth : Nat) : Prop where
  power : ∀ position < bitwidth - 1, atoms.Own univ (2 ^ position)
  least : atoms.Own univ (-2 ^ (bitwidth - 1))

theorem IntAtoms.own_iff {atoms : IntAtoms} {univ : Universe} {value : Int} :
    atoms.Own univ value ↔ ∃ atom < univ.size, atoms[value]? = some atom ∧
      ∀ entry ∈ atoms.toList, entry.2 = atom → entry.1 = value := by
  refine exists_congr fun atom => and_congr_right fun _ => and_congr_right fun _ => ?_
  constructor
  · rintro only ⟨other, _⟩ member rfl
    exact only other (Std.ExtTreeMap.mem_toList_iff_getElem?_eq_some.mp member)
  · intro only other found
    exact only (other, atom) (Std.ExtTreeMap.mem_toList_iff_getElem?_eq_some.mpr found) rfl

instance (atoms : IntAtoms) (univ : Universe) (value : Int) : Decidable (atoms.Own univ value) :=
  decidable_of_iff _ IntAtoms.own_iff.symm

instance (atoms : IntAtoms) (univ : Universe) (bitwidth : Nat) :
    Decidable (atoms.OwnDigits univ bitwidth) :=
  decidable_of_iff ((∀ position < bitwidth - 1, atoms.Own univ (2 ^ position)) ∧
      atoms.Own univ (-2 ^ (bitwidth - 1)))
    ⟨fun own => ⟨own.1, own.2⟩, fun own => ⟨own.power, own.least⟩⟩

/-- The integers whose atoms a cast takes. -/
def IntCast.addends (cast : IntCast) (range : IntRange) (value : Int) : List Int :=
  match cast with
  | .value => [value]
  | .bitset =>
    ((range.digits value).map fun position => (Digits.weight position : Int)) ++
      if value < 0 then [range.min] else []

/-- Four bits of `-3` weigh 1, 4 and -8. -/
example : IntCast.bitset.addends ⟨4, by decide, by decide⟩ (-3) = [1, 4, -8] := by decide

/-! Digits add up -/

theorem Digits.sum_weights (value : Int) (width : Nat) :
    ((((List.range width).filter (digit value)).map fun position => (weight position : Int)).sum) =
      value % weight width := by
  rw [← unsigned_map_digit]
  induction width with
  | zero => rfl
  | succ width hypothesis =>
      rw [List.range_succ, List.filter_append, List.map_append, List.sum_append, hypothesis,
        List.map_append, unsigned_append, List.length_map, List.length_range]
      cases set : digit value width with
      | false => simp [set]
      | true => simp [set]

namespace IntRange

variable (range : IntRange)

theorem sum_addends (cast : IntCast) {value : Int} (inside : range.contains value = true) :
    (cast.addends range value).sum = value := by
  rcases (range.contains_iff value).mp inside with ⟨lower, upper⟩
  cases cast with
  | value => exact List.sum_singleton
  | bitset =>
      rw [IntCast.addends, List.sum_append, digits, Digits.sum_weights]
      by_cases negative : value < 0
      · have lifted := Int.add_emod_right value (Digits.weight (range.bitwidth - 1))
        rw [Int.emod_eq_of_lt (by omega) (by omega)] at lifted
        rw [if_pos negative, List.sum_singleton, ← lifted, min]
        omega
      · rw [if_neg negative, List.sum_nil, add_zero, Int.emod_eq_of_lt (by omega) upper]

theorem nodup_addends (cast : IntCast) (value : Int) : (cast.addends range value).Nodup := by
  cases cast with
  | value => exact List.nodup_singleton value
  | bitset =>
      have weights : ((range.digits value).map fun position =>
          (Digits.weight position : Int)).Nodup := by
        apply List.Nodup.map
        · intro first second same
          exact Nat.pow_right_injective le_rfl (Int.natCast_inj.mp same)
        · exact List.nodup_range.filter _
      apply weights.append
      · split
        · exact List.nodup_singleton _
        · exact List.nodup_nil
      · intro addend weight sign
        rcases List.mem_map.mp weight with ⟨position, -, rfl⟩
        have positive := Digits.weight_pos position
        split at sign
        · have same := List.mem_singleton.mp sign
          rw [min] at same
          omega
        · cases sign

theorem sum_map_wrap (values : List Int) :
    range.sum (values.map range.wrap) = range.wrap values.sum := by
  rw [sum_eq_bmod, wrap]
  induction values with
  | nil => rfl
  | cons first rest hypothesis =>
      rw [List.map_cons, List.sum_cons, List.sum_cons, wrap, Int.bmod_add_bmod,
        ← Int.add_bmod_bmod, hypothesis, Int.add_bmod_bmod]

end IntRange

theorem IntAtoms.OwnDigits.addends {atoms : IntAtoms} {univ : Universe} {range : IntRange}
    (own : atoms.OwnDigits univ range.bitwidth) (value : Int) :
    ∀ addend ∈ IntCast.bitset.addends range value, atoms.Own univ addend := by
  have weights (position : Nat) : (Digits.weight position : Int) = 2 ^ position :=
    Nat.cast_pow 2 position
  intro addend member
  rcases List.mem_append.mp member with weight | sign
  · rcases List.mem_map.mp weight with ⟨position, set, rfl⟩
    have below := List.mem_range.mp (List.mem_of_mem_filter set)
    rw [weights]
    exact own.power position below
  · split at sign
    · rw [List.mem_singleton.mp sign, IntRange.min, weights]
      exact own.least
    · cases sign

/-! The atoms of addends -/

namespace Instance

variable {model : Instance} {range : IntRange} {cast : IntCast} {value : Int}

theorem mem_castAtoms {atom : Nat} : atom ∈ model.castAtoms range cast value ↔
    ∃ addend ∈ cast.addends range value, model.intAtom? addend = some atom := by
  cases cast with
  | value => simp only [mem_castAtoms_value, mem_ints, IntCast.addends, List.mem_singleton,
      exists_eq_left]
  | bitset =>
      rw [mem_castAtoms_bitset]
      simp only [IntCast.addends, IntRange.digits, List.mem_append, List.mem_map, List.mem_filter,
        List.mem_range]
      constructor
      · rintro (⟨position, below, set, found⟩ | ⟨negative, found⟩)
        · exact ⟨_, .inl ⟨position, ⟨below, set⟩, rfl⟩, found⟩
        · exact ⟨_, .inr (by rw [if_pos negative]; exact List.mem_singleton_self _), found⟩
      · rintro ⟨addend, ⟨position, ⟨below, set⟩, rfl⟩ | sign, found⟩
        · exact .inl ⟨position, below, set, found⟩
        · split at sign
          · rename_i negative
            rw [List.mem_singleton] at sign
            exact .inr ⟨negative, sign ▸ found⟩
          · cases sign

theorem castAtoms_of_unbound (unbound : model.intAtom? value = none) :
    model.castAtoms range .value value = [] := by
  apply List.eq_nil_iff_forall_not_mem.mpr
  intro atom member
  have found := mem_ints.mp (mem_castAtoms_value.mp member)
  rw [unbound] at found
  cases found

section

variable (own : ∀ addend ∈ cast.addends range value, model.intAtoms.Own model.univ addend)

include own

theorem castAtoms_lt_of_own {atom : Nat} (member : atom ∈ model.castAtoms range cast value) :
    atom < model.univ.size := by
  rcases mem_castAtoms.mp member with ⟨addend, isAddend, found⟩
  rcases own addend isAddend with ⟨other, below, isOwn, -⟩
  cases found.symm.trans isOwn
  exact below

theorem perm_addends :
    ((model.ints.filter fun entry =>
      (model.castAtoms range cast value).contains entry.2).map Prod.fst).Perm
        (cast.addends range value) := by
  have distinct : (model.ints.map Prod.fst).Nodup := by
    rw [List.Nodup, List.pairwise_map]
    exact Std.ExtTreeMap.distinct_keys_toList.imp fun differ same =>
      differ (compare_eq_iff_eq.mpr same)
  apply (List.perm_ext_iff_of_nodup (distinct.sublist (List.filter_sublist.map Prod.fst))
    (range.nodup_addends cast value)).mpr
  intro number
  simp only [List.mem_map, List.mem_filter, List.contains_iff_mem, mem_castAtoms]
  constructor
  · rintro ⟨entry, ⟨bound, addend, member, found⟩, rfl⟩
    rcases own addend member with ⟨atom, -, ownFound, only⟩
    have same : entry.2 = atom := Option.some.inj (found.symm.trans ownFound)
    rw [only entry.1 (same ▸ mem_ints.mp bound)]
    exact member
  · intro member
    rcases own number member with ⟨atom, -, found, -⟩
    exact ⟨(number, atom), ⟨mem_ints.mpr found, number, member, found⟩, rfl⟩

theorem sum_castAtoms (inside : range.contains value = true) :
    range.sum (model.memberInts range
      ⟨model.univ, 1, .ofList (model.castAtoms range cast value)⟩) = value := by
  simp only [memberInts, TupleSet.containsIndex_ofList]
  calc range.sum _ = range.sum (((model.ints.filter fun entry =>
        (model.castAtoms range cast value).contains entry.2).map Prod.fst).map range.wrap) := by
        rw [List.map_map]
        rfl
    _ = range.wrap (cast.addends range value).sum := by
        rw [range.sum_map_wrap, (perm_addends own).sum_eq]
    _ = value := by rw [range.sum_addends cast inside, range.wrap_of_contains inside]

end

end Instance

end ModelFinder
