import Mathlib
import ModelFinder.Circuit.Matrix
import ModelFinder.Proofs.Circuit.Gates
/-!
Cells of matrices. A matrix that is changed cell by cell has the new values where cells were
changed and the old ones elsewhere.
-/

namespace ModelFinder

namespace Circuit

/-- A matrix of the given dimensions, with cells in range that may be used with a circuit, of
which none is constantly false. -/
structure KnowsMatrix (circuit : Circuit) (universeSize arity : Nat) (matrix : Matrix) :
    Prop where
  universeSize_eq : matrix.universeSize = universeSize
  arity_eq : matrix.arity = arity
  stored : ∀ {index : Nat} {bit : Bit}, matrix.cells[index]? = some bit →
    circuit.Knows bit ∧ bit ≠ .const false ∧ index < universeSize ^ arity

variable {circuit after : Circuit} {size arity : Nat} {matrix : Matrix}

theorem KnowsMatrix.mono (known : circuit.KnowsMatrix size arity matrix)
    (grown : circuit.Extends after) : after.KnowsMatrix size arity matrix :=
  ⟨known.universeSize_eq, known.arity_eq, fun found =>
    ⟨(known.stored found).1.mono grown, (known.stored found).2⟩⟩

theorem KnowsMatrix.cell (known : circuit.KnowsMatrix size arity matrix) (index : Nat) :
    circuit.Knows (matrix.cell index) := by
  rw [Matrix.cell]
  cases found : matrix.cells[index]? with
  | none => exact .const false
  | some bit => exact (known.stored found).1

end Circuit

namespace Matrix

theorem mem_entries {matrix : Matrix} {index : Nat} {bit : Bit} :
    (index, bit) ∈ matrix.entries ↔ matrix.cells[index]? = Option.some bit :=
  Std.ExtTreeMap.mem_toList_iff_getElem?_eq_some

theorem cell_of_mem {matrix : Matrix} {entry : Nat × Bit} (member : entry ∈ matrix.entries) :
    matrix.cell entry.1 = entry.2 := by
  rw [cell, mem_entries.mp member, Option.getD_some]

theorem mem_entries_of_eval {matrix : Matrix} {index : Nat} {assignment : Nat → Bool}
    (holds : (matrix.cell index).eval assignment = true) :
    (index, matrix.cell index) ∈ matrix.entries := by
  rw [mem_entries]
  cases found : matrix.cells[index]? with
  | none => simp [cell, found, Bit.eval] at holds
  | some bit => rw [cell, found, Option.getD_some]

theorem cell_of_not_contains {matrix : Matrix} {index : Nat}
    (absent : matrix.cells.contains index = false) : matrix.cell index = .const false := by
  rw [Std.ExtTreeMap.contains_eq_isSome_getElem?, Option.isSome_eq_false_iff,
    Option.isNone_iff_eq_none] at absent
  rw [cell, absent, Option.getD_none]

theorem pairwise_entries (matrix : Matrix) :
    matrix.entries.Pairwise fun left right => left.1 < right.1 :=
  Std.ExtTreeMap.ordered_keys_toList.imp fun ordered => compare_lt_iff_lt.mp ordered

theorem nodup_entries (matrix : Matrix) : (matrix.entries.map Prod.fst).Nodup := by
  rw [List.Nodup, List.pairwise_map]
  exact matrix.pairwise_entries.imp fun less => less.ne

@[simp] theorem cell_empty (universeSize arity index : Nat) :
    (empty universeSize arity).cell index = .const false := by
  simp [empty, cell]

private theorem getElem?_foldl_insert (indices : List Nat) (cells : Std.ExtTreeMap Nat Bit)
    (index : Nat) :
    ((indices.map fun index => (index, Bit.const true)).foldl
        (fun cells entry => cells.insert entry.1 entry.2) cells)[index]? =
      if index ∈ indices then Option.some (Bit.const true) else cells[index]? := by
  induction indices generalizing cells with
  | nil => simp
  | cons first rest hypothesis =>
      rw [List.map_cons, List.foldl_cons, hypothesis, Std.ExtTreeMap.getElem?_insert]
      simp only [compare_eq_iff_eq, List.mem_cons]
      by_cases later : index ∈ rest
      · simp [later]
      · by_cases same : first = index
        · simp [same]
        · simp [later, same, Ne.symm same]

theorem getElem?_constant (universeSize arity : Nat) (indices : List Nat) (index : Nat) :
    (constant universeSize arity indices).cells[index]? =
      if index ∈ indices then Option.some (Bit.const true) else Option.none := by
  rw [constant, Std.ExtTreeMap.ofList_eq_foldl, getElem?_foldl_insert]
  simp

@[simp] theorem cell_constant (universeSize arity : Nat) (indices : List Nat) (index : Nat) :
    (constant universeSize arity indices).cell index = .const (decide (index ∈ indices)) := by
  rw [cell, getElem?_constant]
  split
  · rename_i member
    rw [Option.getD_some, decide_eq_true member]
  · rename_i absent
    rw [Option.getD_none, decide_eq_false absent]

@[simp] theorem universeSize_set (matrix : Matrix) (index : Nat) (value : Bit) :
    (matrix.set index value).universeSize = matrix.universeSize := rfl

@[simp] theorem arity_set (matrix : Matrix) (index : Nat) (value : Bit) :
    (matrix.set index value).arity = matrix.arity := rfl

/-- Setting cells does not depend on the dimensions of the matrix. -/
theorem cells_setAll {first second : Matrix} (same : first.cells = second.cells)
    (entries : List (Nat × Bit)) :
    (entries.foldl (fun matrix entry => matrix.set entry.1 entry.2) first).cells =
      (entries.foldl (fun matrix entry => matrix.set entry.1 entry.2) second).cells := by
  induction entries generalizing first second with
  | nil => exact same
  | cons entry rest hypothesis => exact hypothesis (by simp only [set, same])

theorem getElem?_set (matrix : Matrix) (index : Nat) (value : Bit) (other : Nat) :
    (matrix.set index value).cells[other]? =
      if index = other then if value.isFalse then Option.none else Option.some value
      else matrix.cells[other]? := by
  rw [set]
  split
  · simp only [Std.ExtTreeMap.getElem?_erase, compare_eq_iff_eq]
  · simp only [Std.ExtTreeMap.getElem?_insert, compare_eq_iff_eq]

theorem cell_set {circuit : Circuit} (valid : circuit.Valid) (matrix : Matrix) (index : Nat)
    {value : Bit} (known : circuit.Knows value) (other : Nat) :
    (matrix.set index value).cell other =
      if index = other then value else matrix.cell other := by
  rw [cell, getElem?_set]
  split
  · split
    · rename_i isFalse
      rw [(known.isFalse_iff valid).mp isFalse, Option.getD_none]
    · rw [Option.getD_some]
  · rfl

end Matrix

namespace Circuit

variable {circuit : Circuit} {size arity : Nat} {matrix : Matrix}

theorem knowsMatrix_empty (circuit : Circuit) (size arity : Nat) :
    circuit.KnowsMatrix size arity (Matrix.empty size arity) :=
  ⟨rfl, rfl, fun found => by simp [Matrix.empty] at found⟩

theorem KnowsMatrix.set (known : circuit.KnowsMatrix size arity matrix) {index : Nat}
    {value : Bit} (valueKnown : circuit.Knows value) (inRange : index < size ^ arity) :
    circuit.KnowsMatrix size arity (matrix.set index value) := by
  refine ⟨known.universeSize_eq, known.arity_eq, fun found => ?_⟩
  rw [Matrix.getElem?_set] at found
  split at found
  · rename_i same
    split at found
    · cases found
    · rename_i notFalse
      cases found
      refine ⟨valueKnown, ?_, same ▸ inRange⟩
      rintro rfl
      exact notFalse rfl
  · exact known.stored found

theorem knowsMatrix_constant (circuit : Circuit) {indices : List Nat}
    (inRange : ∀ index ∈ indices, index < size ^ arity) :
    circuit.KnowsMatrix size arity (Matrix.constant size arity indices) := by
  refine ⟨rfl, rfl, fun found => ?_⟩
  rw [Matrix.getElem?_constant] at found
  split at found
  · rename_i member
    cases found
    exact ⟨.const true, by simp, inRange _ member⟩
  · cases found

end Circuit

/-! Cells changed one after the other -/

namespace Build

variable {circuit : Circuit} {size arity : Nat}

theorem setEach_yields {matrix : Matrix} (compute : Matrix → Nat → Bit → Build Bit)
    (value : Nat × Bit → (Nat → Bool) → Bool) {entries : List (Nat × Bit)}
    (known : circuit.KnowsMatrix size arity matrix)
    (distinct : (entries.map Prod.fst).Nodup)
    (inRange : ∀ entry ∈ entries, entry.1 < size ^ arity)
    (each : ∀ entry ∈ entries, ∀ result after, circuit.Extends after →
      result.cell entry.1 = matrix.cell entry.1 →
      Computes after (compute result entry.1 entry.2) (value entry)) :
    Yields circuit (matrix.setEach compute entries) fun result after =>
      after.KnowsMatrix size arity result ∧
      (∀ entry ∈ entries, ∀ assignment,
        (result.cell entry.1).eval assignment = value entry assignment) ∧
      ∀ index, index ∉ entries.map Prod.fst → result.cell index = matrix.cell index := by
  induction entries generalizing circuit matrix with
  | nil =>
      rw [Matrix.setEach]
      exact Yields.pure ⟨known, by simp, fun _ _ => rfl⟩
  | cons entry rest hypothesis =>
      rcases entry with ⟨position, bit⟩
      simp only [List.map_cons, List.nodup_cons] at distinct
      rcases distinct with ⟨fresh, distinct⟩
      rw [Matrix.setEach]
      have first := each (position, bit) List.mem_cons_self matrix circuit (.refl circuit) rfl
      refine Yields.bind first fun made middle grown computed => Yields.of_valid fun valid => ?_
      have changed := Matrix.cell_set valid matrix position computed.1
      have later := hypothesis
        ((known.mono grown).set computed.1 (inRange _ List.mem_cons_self)) distinct
        (fun other member => inRange other (List.mem_cons_of_mem _ member))
        fun other member result after grownAgain same => by
          refine each other (List.mem_cons_of_mem _ member) result after
            (grown.trans grownAgain) ?_
          have different : position ≠ other.1 := by
            rintro rfl
            exact fresh (List.mem_map_of_mem member)
          rw [same, changed, if_neg different]
      refine Yields.weaken later fun result after _ held => ?_
      rcases held with ⟨resultKnown, values, frame⟩
      refine ⟨resultKnown, ?_, ?_⟩
      · intro other member assignment
        rcases List.mem_cons.mp member with rfl | member
        · rw [frame position fresh, changed, if_pos rfl]
          exact computed.2 assignment
        · exact values other member assignment
      · intro index absent
        simp only [List.map_cons, List.mem_cons, not_or] at absent
        rw [frame index absent.2, changed, if_neg (Ne.symm absent.1)]

/-- A matrix whose changed cells get the values that are expected of them, and whose other
cells have them already. -/
theorem setEach_computes {matrix : Matrix} (compute : Matrix → Nat → Bit → Build Bit)
    (expected : (Nat → Bool) → Nat → Bool) {entries : List (Nat × Bit)}
    (known : circuit.KnowsMatrix size arity matrix)
    (distinct : (entries.map Prod.fst).Nodup)
    (inRange : ∀ entry ∈ entries, entry.1 < size ^ arity)
    (each : ∀ entry ∈ entries, ∀ result after, circuit.Extends after →
      result.cell entry.1 = matrix.cell entry.1 →
      Computes after (compute result entry.1 entry.2) fun assignment =>
        expected assignment entry.1)
    (elsewhere : ∀ assignment, ∀ index, index ∉ entries.map Prod.fst →
      (matrix.cell index).eval assignment = expected assignment index) :
    Yields circuit (matrix.setEach compute entries) fun result after =>
      after.KnowsMatrix size arity result ∧
      ∀ assignment index, (result.cell index).eval assignment = expected assignment index := by
  have changed := setEach_yields compute (fun entry assignment => expected assignment entry.1)
    known distinct inRange each
  refine Yields.weaken changed fun result after _ made => ⟨made.1, fun assignment index => ?_⟩
  by_cases member : index ∈ entries.map Prod.fst
  · rcases List.mem_map.mp member with ⟨entry, entryMember, rfl⟩
    exact made.2.1 entry entryMember assignment
  · rw [made.2.2 index member, elsewhere assignment index member]

theorem setAll_yields {matrix : Matrix} {entries : List (Nat × Bit)}
    (known : circuit.KnowsMatrix size arity matrix)
    (distinct : (entries.map Prod.fst).Nodup)
    (inRange : ∀ entry ∈ entries, entry.1 < size ^ arity)
    (entriesKnown : ∀ entry ∈ entries, circuit.Knows entry.2) :
    Yields circuit
      (pure (entries.foldl (fun matrix entry => matrix.set entry.1 entry.2) matrix))
      fun result after => after.KnowsMatrix size arity result ∧
        (∀ entry ∈ entries, ∀ assignment,
          (result.cell entry.1).eval assignment = entry.2.eval assignment) ∧
        ∀ index, index ∉ entries.map Prod.fst → result.cell index = matrix.cell index := by
  have same : ∀ matrix : Matrix, matrix.setEach (fun _ _ value => pure value) entries =
      pure (entries.foldl (fun matrix entry => matrix.set entry.1 entry.2) matrix) := by
    clear distinct inRange entriesKnown known
    induction entries with
    | nil => exact fun _ => rfl
    | cons entry rest hypothesis => exact fun matrix => hypothesis _
  rw [← same]
  exact setEach_yields (fun _ _ value => pure value) (fun entry assignment =>
    entry.2.eval assignment) known distinct inRange fun entry member result after grown _ =>
      computes_pure ((entriesKnown entry member).mono grown) fun _ => rfl

end Build

end ModelFinder
