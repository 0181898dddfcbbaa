import Mathlib
import ModelFinder.Proofs.Semantics.Integers
import ModelFinder.Proofs.Semantics.Sequences
import ModelFinder.Proofs.Syntax.Formation
/-!
Sets of positions and sets of sequences. Every operator of evaluation works on positions; read as
sequences, its result is what the operator denotes.
-/

namespace ModelFinder

namespace TupleSet

variable {univ : Universe} {arity : Nat} {set : TupleSet}

theorem Reads.of_members {sequences : Finset (List Nat)} (univ_eq : set.univ = univ)
    (arity_eq : set.arity = arity)
    (inRange : ∀ index, set.containsIndex index = true → index < univ.size ^ arity)
    (members : ∀ atoms, Index.Within univ.size arity atoms →
      (set.containsIndex (Index.encode univ.size atoms) = true ↔ atoms ∈ sequences))
    (within : ∀ atoms ∈ sequences, Index.Within univ.size arity atoms) :
    set.Reads univ arity sequences := by
  subst univ_eq arity_eq
  refine ⟨rfl, rfl, inRange, Finset.ext fun atoms => ?_⟩
  have inRange : set.InRange := inRange
  rw [inRange.mem_sequences]
  constructor
  · rintro ⟨isWithin, held⟩
    exact (members atoms isWithin).mp held
  · intro member
    exact ⟨within atoms member, (members atoms (within atoms member)).mpr member⟩

namespace Reads

variable {sequences : Finset (List Nat)} (reads : set.Reads univ arity sequences)

include reads

theorem mem_iff {atoms : List Nat} : atoms ∈ sequences ↔ Index.Within univ.size arity atoms ∧
    set.containsIndex (Index.encode univ.size atoms) = true := by
  rcases reads with ⟨rfl, rfl, inRange, rfl⟩
  exact inRange.mem_sequences

theorem within {atoms : List Nat} (member : atoms ∈ sequences) :
    Index.Within univ.size arity atoms :=
  (reads.mem_iff.mp member).1

/-- Every position that a set holds is that of one of its sequences. -/
theorem exists_sequence {index : Nat} (held : set.containsIndex index = true) :
    ∃ atoms ∈ sequences, Index.encode univ.size atoms = index := by
  rcases reads with ⟨rfl, rfl, inRange, rfl⟩
  have decoded := Index.within_decode (inRange index held)
  exact ⟨_, inRange.mem_sequences.mpr ⟨decoded.1, by rwa [decoded.2]⟩, decoded.2⟩

theorem card_eq : sequences.card = set.size := by
  rw [← reads.sequences_eq]
  exact reads.inRange.card_sequences

end Reads

theorem reads_ofList {sequences : List (List Nat)}
    (within : ∀ atoms ∈ sequences, Index.Within univ.size arity atoms) :
    Reads ⟨univ, arity, .ofList (sequences.map (Index.encode univ.size))⟩ univ arity
      sequences.toFinset := by
  refine .of_members rfl rfl (fun index held => ?_) (fun atoms isWithin => ?_)
    fun atoms member => within atoms (List.mem_toFinset.mp member)
  · rw [containsIndex_ofList, List.contains_iff_mem, List.mem_map] at held
    rcases held with ⟨atoms, member, rfl⟩
    exact (within atoms member).encode_lt
  · rw [containsIndex_ofList, List.contains_iff_mem, List.mem_map, List.mem_toFinset]
    constructor
    · rintro ⟨other, member, same⟩
      rwa [← (within other member).encode_inj isWithin same]
    · intro member
      exact ⟨atoms, member, rfl⟩

theorem Reads.empty (univ : Universe) (arity : Nat) :
    (TupleSet.empty univ arity).Reads univ arity ∅ :=
  .of_members rfl rfl (by simp) (by simp) (by simp)

theorem ofIndices?_reads {sequences : List (List Nat)} {indices : List Nat}
    (positive : 0 < univ.size) (small : univ.size ^ arity < Index.limit)
    (within : ∀ atoms ∈ sequences, Index.Within univ.size arity atoms)
    (positions : sequences.map (Index.encode univ.size) = indices) :
    ∃ set, ofIndices? univ arity indices = .ok set ∧ set.Reads univ arity sequences.toFinset := by
  subst positions
  refine ⟨_, ofIndices?_of_capacity (Index.capacity_of_lt positive small) ?_, reads_ofList within⟩
  exact List.forall_mem_map.mpr fun atoms member => (within atoms member).encode_lt

end TupleSet

/-! Operators -/

section

variable {univ : Universe} {leftArity rightArity arity : Nat} {left right : TupleSet}
  {a b : Finset (List Nat)}

theorem TupleSet.Reads.product (positive : 0 < univ.size)
    (continuable : Index.Continuable univ.size leftArity rightArity)
    (leftReads : left.Reads univ leftArity a) (rightReads : right.Reads univ rightArity b) :
    ∃ set, left.product? right = .ok set ∧
      set.Reads univ (leftArity + rightArity) (SetOp.product.denote a b) := by
  have leftArity_eq := leftReads.arity_eq
  have rightArity_eq := rightReads.arity_eq
  obtain rfl := leftReads.univ_eq
  subst leftArity_eq rightArity_eq
  rcases TupleSet.product?_of_continuable rightReads.univ_eq leftReads.inRange
    rightReads.inRange positive continuable with ⟨set, computed, sameUniverse, sameArity, members⟩
  have within : ∀ before ∈ a, ∀ after ∈ b,
      Index.Within left.univ.size (left.arity + right.arity) (before ++ after) ∧
        Index.encode left.univ.size (before ++ after) = Index.encode left.univ.size before *
          left.univ.size ^ right.arity + Index.encode left.univ.size after := by
    intro before beforeMember after afterMember
    refine ⟨(leftReads.within beforeMember).append (rightReads.within afterMember), ?_⟩
    rw [Index.encode_append, (rightReads.within afterMember).length_eq]
  refine ⟨set, computed, .of_members sameUniverse sameArity (fun index held => ?_)
    (fun atoms isWithin => ?_) fun atoms member => ?_⟩
  · rcases (members index).mp held with ⟨first, second, firstHeld, secondHeld, rfl⟩
    have secondBound := rightReads.inRange second secondHeld
    rw [rightReads.univ_eq] at secondBound
    exact Index.continued_lt (leftReads.inRange first firstHeld) secondBound
  · rw [members, SetOp.mem_denote_product]
    constructor
    · rintro ⟨first, second, firstHeld, secondHeld, same⟩
      rcases leftReads.exists_sequence firstHeld with ⟨before, beforeMember, rfl⟩
      rcases rightReads.exists_sequence secondHeld with ⟨after, afterMember, rfl⟩
      rcases within before beforeMember after afterMember with ⟨both, encoded⟩
      exact ⟨before, beforeMember, after, afterMember,
        both.encode_inj isWithin (encoded.trans same)⟩
    · rintro ⟨before, beforeMember, after, afterMember, rfl⟩
      exact ⟨_, _, (leftReads.mem_iff.mp beforeMember).2, (rightReads.mem_iff.mp afterMember).2,
        (within before beforeMember after afterMember).2.symm⟩
  · rw [SetOp.mem_denote_product] at member
    rcases member with ⟨before, beforeMember, after, afterMember, rfl⟩
    exact (within before beforeMember after afterMember).1

theorem TupleSet.Reads.join {before after : Nat} (positive : 0 < univ.size)
    (columns : 0 < before + after) (joinable : Index.Joinable univ.size before after)
    (leftReads : left.Reads univ (before + 1) a) (rightReads : right.Reads univ (after + 1) b) :
    ∃ set, left.join? right = .ok set ∧
      set.Reads univ (before + after) (SetOp.join.denote a b) := by
  have leftArity := leftReads.arity_eq
  have rightArity := rightReads.arity_eq
  obtain rfl := leftReads.univ_eq
  rcases TupleSet.join?_of_joinable rightReads.univ_eq leftArity rightArity columns
    leftReads.inRange positive joinable with ⟨set, computed, sameUniverse, sameArity, members⟩
  have within : ∀ first atom second, first ++ [atom] ∈ a → atom :: second ∈ b →
      Index.Within left.univ.size (before + after) (first ++ second) := by
    intro first atom second firstMember secondMember
    have firstWithin := leftReads.within firstMember
    have secondWithin := rightReads.within secondMember
    rw [Index.within_append] at firstWithin
    exact Index.Within.append ⟨Nat.add_right_cancel firstWithin.1, firstWithin.2.1⟩
      ⟨Nat.succ.inj secondWithin.length_eq, (List.forall_mem_cons.mp secondWithin.atom_lt).2⟩
  refine ⟨set, computed, .of_members sameUniverse sameArity (fun index held => ?_)
    (fun atoms isWithin => ?_) fun atoms member => ?_⟩
  · rcases (members index).mp held with ⟨first, second, firstHeld, -, -, rfl⟩
    have firstBound := leftReads.inRange first firstHeld
    rw [leftArity] at firstBound
    exact Index.joined_lt positive firstBound
  · rw [members, SetOp.mem_denote_join]
    constructor
    · rintro ⟨first, second, firstHeld, secondHeld, agree, same⟩
      rcases leftReads.exists_sequence firstHeld with ⟨_, firstMember, rfl⟩
      rcases rightReads.exists_sequence secondHeld with ⟨_, secondMember, rfl⟩
      rcases (leftReads.within firstMember).exists_concat with ⟨first, atom, rfl, -, bounded⟩
      rcases (rightReads.within secondMember).exists_cons with
        ⟨atom', second, rfl, -, secondWithin⟩
      rw [(Index.encode_concat_divMod bounded).2, (secondWithin.encode_cons_divMod _).1] at agree
      rw [Index.joined_encode bounded secondWithin] at same
      subst agree
      exact ⟨first, _, second, firstMember, secondMember,
        (within _ _ _ firstMember secondMember).encode_inj isWithin same⟩
    · rintro ⟨first, atom, second, firstMember, secondMember, rfl⟩
      have firstWithin := leftReads.within firstMember
      rw [Index.within_append, List.forall_mem_singleton] at firstWithin
      rcases (rightReads.within secondMember).exists_cons with ⟨_, _, same, -, secondWithin⟩
      cases same
      refine ⟨_, _, (leftReads.mem_iff.mp firstMember).2, (rightReads.mem_iff.mp secondMember).2,
        ?_, Index.joined_encode firstWithin.2.2 secondWithin⟩
      rw [(Index.encode_concat_divMod firstWithin.2.2).2, (secondWithin.encode_cons_divMod _).1]
  · rw [SetOp.mem_denote_join] at member
    rcases member with ⟨first, atom, second, firstMember, secondMember, rfl⟩
    exact within _ _ _ firstMember secondMember

private theorem reads_cellwise {set : TupleSet} {sequences : Finset (List Nat)}
    (operation : Prop → Prop → Prop) (univ_eq : set.univ = univ) (arity_eq : set.arity = arity)
    (leftReads : left.Reads univ arity a) (rightReads : right.Reads univ arity b)
    (members : ∀ index, set.containsIndex index = true ↔
      operation (left.containsIndex index = true) (right.containsIndex index = true))
    (only : ∀ first second, operation first second → first ∨ second)
    (denotes : ∀ atoms, atoms ∈ sequences ↔ operation (atoms ∈ a) (atoms ∈ b)) :
    set.Reads univ arity sequences := by
  refine .of_members univ_eq arity_eq (fun index held => ?_) (fun atoms isWithin => ?_)
    fun atoms member => ?_
  · rcases only _ _ ((members index).mp held) with held | held
    · rcases leftReads.exists_sequence held with ⟨atoms, member, rfl⟩
      exact (leftReads.within member).encode_lt
    · rcases rightReads.exists_sequence held with ⟨atoms, member, rfl⟩
      exact (rightReads.within member).encode_lt
  · rw [members, denotes, leftReads.mem_iff, rightReads.mem_iff, and_iff_right isWithin,
      and_iff_right isWithin]
  · rcases only _ _ ((denotes atoms).mp member) with member | member
    · exact leftReads.within member
    · exact rightReads.within member

theorem TupleSet.Reads.union (leftReads : left.Reads univ arity a)
    (rightReads : right.Reads univ arity b) :
    ∃ set, left.union? right = .ok set ∧ set.Reads univ arity (a ∪ b) := by
  refine ⟨_, TupleSet.union?_of_eq (rightReads.univ_eq.trans leftReads.univ_eq.symm)
    (rightReads.arity_eq.trans leftReads.arity_eq.symm), ?_⟩
  exact reads_cellwise (· ∨ ·) leftReads.univ_eq leftReads.arity_eq leftReads
    rightReads (by simp) (fun _ _ => id) fun _ => Finset.mem_union

theorem TupleSet.Reads.intersection (leftReads : left.Reads univ arity a)
    (rightReads : right.Reads univ arity b) :
    ∃ set, left.intersection? right = .ok set ∧ set.Reads univ arity (a ∩ b) := by
  refine ⟨_, TupleSet.intersection?_of_eq (rightReads.univ_eq.trans leftReads.univ_eq.symm)
    (rightReads.arity_eq.trans leftReads.arity_eq.symm), ?_⟩
  exact reads_cellwise (· ∧ ·) leftReads.univ_eq leftReads.arity_eq leftReads
    rightReads (by simp) (fun _ _ both => .inl both.1) fun _ => Finset.mem_inter

theorem TupleSet.Reads.difference (leftReads : left.Reads univ arity a)
    (rightReads : right.Reads univ arity b) :
    ∃ set, left.difference? right = .ok set ∧ set.Reads univ arity (a \ b) := by
  refine ⟨_, TupleSet.difference?_of_eq (rightReads.univ_eq.trans leftReads.univ_eq.symm)
    (rightReads.arity_eq.trans leftReads.arity_eq.symm), ?_⟩
  exact reads_cellwise (· ∧ ¬·) leftReads.univ_eq leftReads.arity_eq leftReads
    rightReads (by simp) (fun _ _ both => .inl both.1) fun _ => Finset.mem_sdiff

/-- Operators give the sets that they denote. -/
theorem SetOp.compute?_reads (op : SetOp) (positive : 0 < univ.size)
    (fitting : op.Fitting leftArity rightArity arity)
    (countable : op.Countable univ.size leftArity rightArity)
    (leftReads : left.Reads univ leftArity a) (rightReads : right.Reads univ rightArity b) :
    ∃ set, op.compute? left right = .ok set ∧ set.Reads univ arity (op.denote a b) := by
  cases op with
  | join =>
      rcases countable with ⟨before, after, rfl, rfl, joinable⟩
      rcases fitting with ⟨remaining, sum⟩
      obtain rfl : arity = before + after := by omega
      exact TupleSet.Reads.join positive remaining joinable leftReads rightReads
  | product =>
      obtain rfl := fitting
      exact TupleSet.Reads.product positive countable leftReads rightReads
  | union =>
      obtain ⟨rfl, rfl⟩ := fitting
      exact leftReads.union rightReads
  | difference =>
      obtain ⟨rfl, rfl⟩ := fitting
      exact leftReads.difference rightReads
  | intersection =>
      obtain ⟨rfl, rfl⟩ := fitting
      exact leftReads.intersection rightReads

theorem TupleSet.Reads.subset_iff (leftReads : left.Reads univ arity a)
    (rightReads : right.Reads univ arity b) :
    (∀ index, left.containsIndex index = true → right.containsIndex index = true) ↔ a ⊆ b := by
  constructor
  · intro subset atoms member
    rw [leftReads.mem_iff] at member
    exact rightReads.mem_iff.mpr ⟨member.1, subset _ member.2⟩
  · intro subset index held
    rcases leftReads.exists_sequence held with ⟨atoms, member, rfl⟩
    exact (rightReads.mem_iff.mp (subset member)).2

theorem SetComparison.compute?_eq (op : SetComparison) (leftExpr rightExpr : Expr)
    (leftReads : left.Reads univ arity a) (rightReads : right.Reads univ arity b) :
    op.compute? leftExpr rightExpr left right = .ok (op.denote a b) := by
  have sameUniverse := leftReads.univ_eq.trans rightReads.univ_eq.symm
  have sameArity := leftReads.arity_eq.trans rightReads.arity_eq.symm
  unfold compute?
  rw [if_neg (not_not.mpr sameArity)]
  cases op with
  | equals =>
      refine congrArg Except.ok ?_
      rw [denote, Bool.eq_iff_iff, beq_iff_eq, decide_eq_true_iff]
      constructor
      · rintro rfl
        exact leftReads.sequences_eq.symm.trans rightReads.sequences_eq
      · rintro rfl
        refine TupleSet.ext_iff.mpr ⟨sameUniverse, sameArity, fun index => ?_⟩
        rw [Bool.eq_iff_iff, leftReads.inRange.containsIndex_iff,
          rightReads.inRange.containsIndex_iff, leftReads.sequences_eq, rightReads.sequences_eq,
          sameUniverse, sameArity]
  | subset =>
      refine congrArg Except.ok ?_
      rw [denote, Bool.eq_iff_iff, TupleSet.isSubset_iff sameUniverse sameArity,
        decide_eq_true_iff, leftReads.subset_iff rightReads]

theorem Multiplicity.admits_eq (amount : Multiplicity) (reads : left.Reads univ arity a) :
    amount.admits left.size = amount.denote a := by
  rw [← reads.card_eq]
  cases amount with
  | some =>
      rw [admits, denote]
      exact decide_eq_decide.mpr Finset.card_pos
  | one =>
      rw [admits, denote, beq_eq_decide]
  | lone => rfl
  | no =>
      rw [admits, denote, beq_eq_decide]
      exact decide_eq_decide.mpr Finset.card_eq_zero

end

end ModelFinder
