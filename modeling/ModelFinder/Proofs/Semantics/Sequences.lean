import Mathlib
import ModelFinder.Proofs.TupleSet
/-!
Tuples as sequences of atoms. A tuple set keeps positions; read as numerals in the base of the
number of atoms, these are the sequences of atoms of a length, in lexicographic order.
-/

namespace ModelFinder

namespace Index

structure Within (base arity : Nat) (atoms : List Nat) : Prop where
  length_eq : atoms.length = arity
  atom_lt : ∀ atom ∈ atoms, atom < base

variable {base arity before after : Nat} {atoms first second : List Nat}

theorem within_append : Within base (before + after) (first ++ second) ↔
    first.length + second.length = before + after ∧
      (∀ atom ∈ first, atom < base) ∧ ∀ atom ∈ second, atom < base := by
  constructor
  · rintro ⟨length, bounded⟩
    rw [List.forall_mem_append] at bounded
    exact ⟨(List.length_append).symm.trans length, bounded⟩
  · rintro ⟨length, bounded⟩
    exact ⟨(List.length_append).trans length, List.forall_mem_append.mpr bounded⟩

theorem Within.append (left : Within base before first) (right : Within base after second) :
    Within base (before + after) (first ++ second) :=
  within_append.mpr ⟨by rw [left.length_eq, right.length_eq], left.atom_lt, right.atom_lt⟩

@[simp] theorem encode_nil : encode base [] = 0 := rfl

private theorem foldl_eq (start : Nat) (atoms : List Nat) :
    atoms.foldl (fun position atom => position * base + atom) start =
      start * base ^ atoms.length + encode base atoms := by
  induction atoms generalizing start with
  | nil => simp
  | cons atom rest hypothesis =>
      rw [encode, List.foldl_cons, List.foldl_cons, hypothesis, hypothesis (0 * base + atom),
        List.length_cons, pow_succ]
      ring

theorem encode_append : encode base (first ++ second) =
    encode base first * base ^ second.length + encode base second := by
  rw [encode, List.foldl_append]
  exact foldl_eq _ second

theorem encode_cons (atom : Nat) (rest : List Nat) :
    encode base (atom :: rest) = atom * base ^ rest.length + encode base rest := by
  rw [← List.singleton_append, encode_append]
  simp [encode]

theorem encode_concat (rest : List Nat) (atom : Nat) :
    encode base (rest ++ [atom]) = encode base rest * base + atom := by
  rw [encode_append]
  simp [encode]

theorem Within.encode_lt (within : Within base arity atoms) :
    encode base atoms < base ^ arity := by
  rcases within with ⟨rfl, bounded⟩
  induction atoms with
  | nil => simp
  | cons atom rest hypothesis =>
      rw [List.forall_mem_cons] at bounded
      have below := hypothesis bounded.2
      have inRow : atom < base ^ 1 := by rw [pow_one]; exact bounded.1
      have continued := continued_lt inRow below
      rwa [encode_cons, List.length_cons, Nat.add_comm rest.length]

theorem within_decode : ∀ {arity position : Nat}, position < base ^ arity →
    Within base arity (decode base arity position) ∧
      encode base (decode base arity position) = position
  | 0, position, inRange => by
      obtain rfl : position = 0 := by
        rw [pow_zero] at inRange
        omega
      exact ⟨⟨rfl, List.forall_mem_nil _⟩, rfl⟩
  | arity + 1, position, inRange => by
      have positive : 0 < base ^ arity := by
        apply Nat.pos_of_ne_zero
        intro none
        rw [pow_succ, none, Nat.zero_mul] at inRange
        omega
      have first : position / base ^ arity < base :=
        Nat.div_lt_of_lt_mul (by rwa [pow_succ] at inRange)
      rcases within_decode (Nat.mod_lt position positive) with ⟨within, same⟩
      have shape : decode base (arity + 1) position =
          position / base ^ arity :: decode base arity (position % base ^ arity) := rfl
      rw [shape]
      refine ⟨⟨by rw [List.length_cons, within.length_eq],
        List.forall_mem_cons.mpr ⟨first, within.atom_lt⟩⟩, ?_⟩
      rw [encode_cons, within.length_eq, same, Nat.mul_comm]
      exact Nat.div_add_mod position (base ^ arity)

/-- The first atom of a position and the position of the others. -/
theorem Within.encode_cons_divMod (within : Within base after atoms) (atom : Nat) :
    encode base (atom :: atoms) / base ^ after = atom ∧
      encode base (atom :: atoms) % base ^ after = encode base atoms := by
  have below := within.encode_lt
  have positive : 0 < base ^ after := Nat.zero_lt_of_lt below
  rw [encode_cons, within.length_eq, Nat.mul_comm]
  exact ⟨by rw [Nat.mul_add_div positive, Nat.div_eq_of_lt below, Nat.add_zero],
    by rw [Nat.mul_add_mod, Nat.mod_eq_of_lt below]⟩

theorem encode_concat_divMod {atom : Nat} (bounded : atom < base) :
    encode base (atoms ++ [atom]) / base = encode base atoms ∧
      encode base (atoms ++ [atom]) % base = atom := by
  have positive : 0 < base := Nat.zero_lt_of_lt bounded
  rw [encode_concat, Nat.mul_comm]
  exact ⟨by rw [Nat.mul_add_div positive, Nat.div_eq_of_lt bounded, Nat.add_zero],
    by rw [Nat.mul_add_mod, Nat.mod_eq_of_lt bounded]⟩

theorem Within.encode_inj (left : Within base arity first) (right : Within base arity second)
    (same : encode base first = encode base second) : first = second := by
  induction first generalizing arity second with
  | nil =>
      have empty := right.length_eq.trans left.length_eq.symm
      exact (List.length_eq_zero_iff.mp empty).symm
  | cons atom rest hypothesis =>
      cases second with
      | nil => cases left.length_eq.trans right.length_eq.symm
      | cons atom' rest' =>
          obtain ⟨after, rfl⟩ : ∃ after, arity = after + 1 := ⟨rest.length, left.length_eq.symm⟩
          have restWithin : Within base after rest :=
            ⟨Nat.succ.inj left.length_eq, fun _ member => left.atom_lt _ (.tail _ member)⟩
          have restWithin' : Within base after rest' :=
            ⟨Nat.succ.inj right.length_eq, fun _ member => right.atom_lt _ (.tail _ member)⟩
          have parts := restWithin.encode_cons_divMod atom
          have parts' := restWithin'.encode_cons_divMod atom'
          rw [same] at parts
          rw [parts.1.symm.trans parts'.1,
            hypothesis restWithin restWithin' (parts.2.symm.trans parts'.2)]

theorem Within.exists_cons (within : Within base (after + 1) atoms) :
    ∃ atom rest, atoms = atom :: rest ∧ atom < base ∧ Within base after rest := by
  cases atoms with
  | nil => cases within.length_eq
  | cons atom rest =>
      have bounded := List.forall_mem_cons.mp within.atom_lt
      exact ⟨atom, rest, rfl, bounded.1, Nat.succ.inj within.length_eq, bounded.2⟩

theorem Within.exists_concat (within : Within base (before + 1) atoms) :
    ∃ rest atom, atoms = rest ++ [atom] ∧ Within base before rest ∧ atom < base := by
  have nonempty : atoms ≠ [] := by
    rintro rfl
    cases within.length_eq
  have split := (List.dropLast_append_getLast nonempty).symm
  rw [split, within_append, List.forall_mem_singleton] at within
  rcases within with ⟨length, bounded, last⟩
  exact ⟨_, _, split, ⟨Nat.add_right_cancel length, bounded⟩, last⟩

theorem joined_encode {atom atom' : Nat} (bounded : atom < base)
    (secondWithin : Within base after second) :
    joined base (base ^ after) (encode base (first ++ [atom])) (encode base (atom' :: second)) =
      encode base (first ++ second) := by
  rw [joined, (encode_concat_divMod bounded).1, (secondWithin.encode_cons_divMod _).2,
    encode_append, secondWithin.length_eq]

theorem Within.decode_encode (within : Within base arity atoms) :
    decode base arity (encode base atoms) = atoms := by
  rcases within_decode within.encode_lt with ⟨decoded, same⟩
  exact decoded.encode_inj within same

/-- Positions are in lexicographic order. -/
theorem decode_lt_decode : ∀ {arity first second : Nat}, first < second →
    second < base ^ arity → decode base arity first < decode base arity second
  | 0, first, second, less, inRange => by
      rw [pow_zero] at inRange
      omega
  | arity + 1, first, second, less, inRange => by
      have positive : 0 < base ^ arity := by
        apply Nat.pos_of_ne_zero
        intro none
        rw [pow_succ, none, Nat.zero_mul] at inRange
        omega
      change first / base ^ arity :: decode base arity (first % base ^ arity) <
        second / base ^ arity :: decode base arity (second % base ^ arity)
      rw [List.cons_lt_cons_iff]
      rcases Nat.lt_or_eq_of_le (Nat.div_le_div_right (c := base ^ arity) less.le) with
        row | row
      · exact .inl row
      · have left := Nat.div_add_mod first (base ^ arity)
        have right := Nat.div_add_mod second (base ^ arity)
        rw [row] at left
        exact .inr ⟨row, decode_lt_decode (by omega) (Nat.mod_lt _ positive)⟩

end Index

namespace TupleSet

def sequences (set : TupleSet) : Finset (List Nat) :=
  (set.toList.map (Index.decode set.univ.size set.arity)).toFinset

/-- A set of tuples of a universe and an arity that are the given sequences. -/
structure Reads (set : TupleSet) (univ : Universe) (arity : Nat)
    (sequences : Finset (List Nat)) : Prop where
  univ_eq : set.univ = univ
  arity_eq : set.arity = arity
  inRange : set.InRange
  sequences_eq : set.sequences = sequences

variable {set : TupleSet}

theorem InRange.mem_sequences (inRange : set.InRange) {atoms : List Nat} :
    atoms ∈ set.sequences ↔ Index.Within set.univ.size set.arity atoms ∧
      set.containsIndex (Index.encode set.univ.size atoms) = true := by
  rw [sequences, List.mem_toFinset, List.mem_map]
  constructor
  · rintro ⟨index, member, rfl⟩
    rw [mem_toList] at member
    rcases Index.within_decode (inRange index member) with ⟨within, same⟩
    exact ⟨within, by rwa [same]⟩
  · rintro ⟨within, held⟩
    exact ⟨_, mem_toList.mpr held, within.decode_encode⟩

/-- The members in ascending order are the sequences in lexicographic order. -/
theorem InRange.sort_sequences (inRange : set.InRange) :
    set.sequences.sort (· ≤ ·) = set.toList.map (Index.decode set.univ.size set.arity) := by
  have ascending : (set.toList.map (Index.decode set.univ.size set.arity)).Pairwise (· < ·) :=
    List.pairwise_map.mpr (set.pairwise_toList.imp_of_mem fun _ member less =>
      Index.decode_lt_decode less (inRange _ (mem_toList.mp member)))
  have nodup := ascending.imp fun less => ne_of_lt less
  exact (List.toFinset_sort (· ≤ ·) nodup).mpr (ascending.imp fun less => le_of_lt less)

theorem InRange.card_sequences (inRange : set.InRange) : set.sequences.card = set.size := by
  have length := congrArg List.length inRange.sort_sequences
  rwa [Finset.length_sort, List.length_map, ← size_eq_length] at length

theorem InRange.containsIndex_iff (inRange : set.InRange) {index : Nat} :
    set.containsIndex index = true ↔ index < set.univ.size ^ set.arity ∧
      Index.decode set.univ.size set.arity index ∈ set.sequences := by
  rw [inRange.mem_sequences]
  constructor
  · intro held
    rcases Index.within_decode (inRange index held) with ⟨within, same⟩
    exact ⟨inRange index held, within, by rwa [same]⟩
  · rintro ⟨bounded, -, held⟩
    rwa [(Index.within_decode bounded).2] at held

end TupleSet

end ModelFinder
