import Mathlib
import ModelFinder.Proofs.Circuit.Matrix.Basic
import ModelFinder.Proofs.Circuit.Word.Basic
/-!
Operations on matrices of the same dimensions, cell by cell.
-/

namespace ModelFinder

namespace Matrix

theorem mem_keys {matrix : Matrix} {index : Nat} :
    index ∈ matrix.entries.map Prod.fst ↔ matrix.cells.contains index = true := by
  rw [entries, Std.ExtTreeMap.map_fst_toList_eq_keys, Std.ExtTreeMap.mem_keys,
    Std.ExtTreeMap.contains_iff_mem]

theorem cell_of_not_mem_keys {matrix : Matrix} {index : Nat}
    (absent : index ∉ matrix.entries.map Prod.fst) : matrix.cell index = .const false :=
  cell_of_not_contains (Bool.eq_false_iff.mpr fun present => absent (mem_keys.mpr present))

end Matrix

namespace Circuit.KnowsMatrix

variable {circuit : Circuit} {size arity : Nat} {matrix : Matrix}

theorem lt_of_mem (known : circuit.KnowsMatrix size arity matrix) {entry : Nat × Bit}
    (member : entry ∈ matrix.entries) : entry.1 < size ^ arity :=
  (known.stored (Matrix.mem_entries.mp member)).2.2

theorem knows_of_mem (known : circuit.KnowsMatrix size arity matrix) {entry : Nat × Bit}
    (member : entry ∈ matrix.entries) : circuit.Knows entry.2 :=
  (known.stored (Matrix.mem_entries.mp member)).1

theorem cell_of_le (known : circuit.KnowsMatrix size arity matrix) {index : Nat}
    (beyond : size ^ arity ≤ index) : matrix.cell index = .const false := by
  apply Matrix.cell_of_not_mem_keys
  intro member
  rcases List.mem_map.mp member with ⟨entry, entryMember, rfl⟩
  have inside := known.lt_of_mem entryMember
  omega

end Circuit.KnowsMatrix

namespace TryBuild

/-- A computation of a known matrix of given dimensions whose cells have given values under
every assignment. -/
def ComputesMatrix (circuit : Circuit) (action : TryBuild Matrix) (size arity : Nat)
    (value : (Nat → Bool) → Nat → Bool) : Prop :=
  Yields circuit action fun matrix after => after.KnowsMatrix size arity matrix ∧
    ∀ assignment index, (matrix.cell index).eval assignment = value assignment index

section

variable {circuit : Circuit} {size arity : Nat} {left right : Matrix}
variable (leftKnown : circuit.KnowsMatrix size arity left)
variable (rightKnown : circuit.KnowsMatrix size arity right)

include leftKnown rightKnown

theorem union_computes : ComputesMatrix circuit (left.union? right) size arity
    fun assignment index =>
      (left.cell index).eval assignment || (right.cell index).eval assignment := by
  have checked : Yields circuit (liftM (left.compatible? right)) fun _ _ => True :=
    Yields.except fun _ _ => trivial
  refine Yields.bind checked fun _ after grown _ => Yields.lift ?_
  apply Build.setEach_computes (fun result index value => Build.or (result.cell index) value) _
    (leftKnown.mono grown) right.nodup_entries fun _ member => rightKnown.lt_of_mem member
  · intro entry member result last grownAgain same
    rw [same, ← Matrix.cell_of_mem member]
    exact Build.or_computes (((leftKnown.mono grown).mono grownAgain).cell entry.1)
      (((rightKnown.mono grown).mono grownAgain).cell entry.1)
  · intro assignment index absent
    simp [Matrix.cell_of_not_mem_keys absent, Bit.eval]

theorem intersection_computes : ComputesMatrix circuit (left.intersection? right) size arity
    fun assignment index =>
      (left.cell index).eval assignment && (right.cell index).eval assignment := by
  have checked : Yields circuit (liftM (left.compatible? right)) fun _ _ => True :=
    Yields.except fun _ _ => trivial
  refine Yields.bind checked fun _ after grown _ => Yields.lift ?_
  have shared : (left.entries.filter fun entry => right.cells.contains entry.1).Sublist
      left.entries := List.filter_sublist
  rw [leftKnown.universeSize_eq, leftKnown.arity_eq]
  apply Build.setEach_computes (fun _ index value => Build.and value (right.cell index)) _
    (Circuit.knowsMatrix_empty after size arity) (left.nodup_entries.sublist (shared.map _))
    fun _ member => leftKnown.lt_of_mem (shared.subset member)
  · intro entry member result last grownAgain same
    rw [← Matrix.cell_of_mem (shared.subset member)]
    exact Build.and_computes (((leftKnown.mono grown).mono grownAgain).cell entry.1)
      (((rightKnown.mono grown).mono grownAgain).cell entry.1)
  · intro assignment index absent
    rw [Matrix.cell_empty]
    by_cases leftMember : index ∈ left.entries.map Prod.fst
    · have absentRight : right.cells.contains index = false := by
        rcases List.mem_map.mp leftMember with ⟨entry, entryMember, rfl⟩
        apply Bool.eq_false_iff.mpr
        intro present
        exact absent (List.mem_map_of_mem (List.mem_filter.mpr ⟨entryMember, present⟩))
      simp [Matrix.cell_of_not_contains absentRight, Bit.eval]
    · simp [Matrix.cell_of_not_mem_keys leftMember, Bit.eval]

theorem difference_computes : ComputesMatrix circuit (left.difference? right) size arity
    fun assignment index =>
      (left.cell index).eval assignment && !(right.cell index).eval assignment := by
  have checked : Yields circuit (liftM (left.compatible? right)) fun _ _ => True :=
    Yields.except fun _ _ => trivial
  refine Yields.bind checked fun _ after grown _ => Yields.lift ?_
  rw [leftKnown.universeSize_eq, leftKnown.arity_eq]
  apply Build.setEach_computes
    (fun _ index value => do Build.and value (← Build.not (right.cell index))) _
    (Circuit.knowsMatrix_empty after size arity) left.nodup_entries
    fun _ member => leftKnown.lt_of_mem member
  · intro entry member result middle grownAgain same
    rw [← Matrix.cell_of_mem member]
    have leftCell := ((leftKnown.mono grown).mono grownAgain).cell entry.1
    have rightCell := ((rightKnown.mono grown).mono grownAgain).cell entry.1
    refine Build.Yields.bind (Build.not_computes rightCell) fun negated last grownNot made => ?_
    refine Build.computes_congr (Build.and_computes (leftCell.mono grownNot) made.1)
      fun assignment => ?_
    simp only [made.2]
  · intro assignment index absent
    simp [Matrix.cell_of_not_mem_keys absent, Bit.eval]

theorem choice_computes {condition : Bit} (conditionKnown : circuit.Knows condition) :
    ComputesMatrix circuit (Matrix.choice? condition left right) size arity
      fun assignment index => bif condition.eval assignment
        then (left.cell index).eval assignment else (right.cell index).eval assignment := by
  have checked : Yields circuit (liftM (left.compatible? right)) fun _ _ => True :=
    Yields.except fun _ _ => trivial
  refine Yields.bind checked fun _ after grown _ => ?_
  cases constant : condition.const? with
  | some value =>
      obtain rfl := Bit.eq_const_of_const? constant
      cases value with
      | false => exact Yields.pure ⟨rightKnown.mono grown, fun _ _ => by simp [Bit.eval]⟩
      | true => exact Yields.pure ⟨leftKnown.mono grown, fun _ _ => by simp [Bit.eval]⟩
  | none =>
      rw [leftKnown.universeSize_eq, leftKnown.arity_eq]
      -- First the positions stored on the left, then those stored on the right only.
      have chosenLeft := Build.setEach_computes
        (fun _ index value => Build.ite condition value (right.cell index))
        (fun assignment index => decide (index ∈ left.entries.map Prod.fst) &&
          bif condition.eval assignment then (left.cell index).eval assignment
          else (right.cell index).eval assignment)
        (Circuit.knowsMatrix_empty after size arity) left.nodup_entries
        (fun _ member => leftKnown.lt_of_mem member)
        (fun entry member result last grownAgain _ => by
          rw [decide_eq_true (List.mem_map_of_mem member), ← Matrix.cell_of_mem member]
          exact Build.ite_computes ((conditionKnown.mono grown).mono grownAgain)
            (((leftKnown.mono grown).mono grownAgain).cell entry.1)
            (((rightKnown.mono grown).mono grownAgain).cell entry.1))
        (fun assignment index absent => by
          rw [decide_eq_false absent, Matrix.cell_empty, Bit.eval, Bool.false_and])
      refine Yields.bind (Yields.lift chosenLeft) fun chosen middle grownLeft made =>
        Yields.lift ?_
      rcases made with ⟨chosenKnown, chosenValue⟩
      have others : (right.entries.filter fun entry => !left.cells.contains entry.1).Sublist
          right.entries := List.filter_sublist
      apply Build.setEach_computes (fun _ _ value => Build.ite condition (.const false) value) _
        chosenKnown (right.nodup_entries.sublist (others.map _))
        fun _ member => rightKnown.lt_of_mem (others.subset member)
      · intro entry member result last grownAgain same
        have absentLeft := (List.mem_filter.mp member).2
        rw [Bool.not_eq_true'] at absentLeft
        rw [← Matrix.cell_of_mem (others.subset member), Matrix.cell_of_not_contains absentLeft]
        exact Build.ite_computes
          (((conditionKnown.mono grown).mono grownLeft).mono grownAgain) (.const false)
          ((((rightKnown.mono grown).mono grownLeft).mono grownAgain).cell entry.1)
      · intro assignment index absent
        rw [chosenValue]
        by_cases member : index ∈ left.entries.map Prod.fst
        · rw [decide_eq_true member, Bool.true_and]
        · have absentRight : index ∉ right.entries.map Prod.fst := by
            intro rightMember
            rcases List.mem_map.mp rightMember with ⟨entry, entryMember, rfl⟩
            have absentLeft : left.cells.contains entry.1 = false :=
              Bool.eq_false_iff.mpr fun present => member (Matrix.mem_keys.mpr present)
            exact absent (List.mem_map_of_mem
              (List.mem_filter.mpr ⟨entryMember, by rw [absentLeft, Bool.not_false]⟩))
          rw [Matrix.cell_of_not_mem_keys member, Matrix.cell_of_not_mem_keys absentRight]
          simp [Bit.eval, member]

theorem subset_yields : Yields circuit (left.subset? right) fun bit after => after.Knows bit ∧
    ∀ assignment, bit.eval assignment = true ↔ ∀ index,
      (left.cell index).eval assignment = true → (right.cell index).eval assignment = true := by
  have checked : Yields circuit (liftM (left.compatible? right)) fun _ _ => True :=
    Yields.except fun _ _ => trivial
  refine Yields.bind checked fun _ first grown _ => ?_
  rw [mapM_lift]
  have implications : Build.ComputesBits first
      (left.entries.mapM fun entry => Build.implies entry.2 (right.cell entry.1))
      fun assignment => left.entries.map fun entry =>
        !(left.cell entry.1).eval assignment || (right.cell entry.1).eval assignment := by
    refine Build.mapM_computes fun entry member after grownAgain => ?_
    rw [← Matrix.cell_of_mem member]
    exact Build.implies_computes (((leftKnown.mono grown).mono grownAgain).cell entry.1)
      (((rightKnown.mono grown).mono grownAgain).cell entry.1)
  refine Yields.bind (Yields.lift implications) fun bits second _ made => Yields.lift ?_
  refine Build.Yields.weaken (Build.all_computes made.1) fun bit last _ conjunction =>
    ⟨conjunction.1, fun assignment => ?_⟩
  have values := made.2 assignment
  dsimp only at values
  have every : bits.all (Bit.eval assignment) =
      (bits.map (Bit.eval assignment)).all id := by rw [List.all_map]; rfl
  have conjoined := conjunction.2 assignment
  dsimp only at conjoined
  rw [conjoined, every, values, List.all_map, List.all_eq_true]
  constructor
  · intro holds index leftHolds
    have implied := holds _ (Matrix.mem_entries_of_eval leftHolds)
    simpa [leftHolds] using implied
  · intro included entry member
    rw [Function.comp_apply, id, Bool.or_eq_true, Bool.not_eq_true']
    by_cases holds : (left.cell entry.1).eval assignment = true
    · exact .inr (included entry.1 holds)
    · exact .inl (Bool.eq_false_iff.mpr holds)

theorem equals_yields : Yields circuit (left.equals? right) fun bit after => after.Knows bit ∧
    ∀ assignment, bit.eval assignment = true ↔ ∀ index,
      (left.cell index).eval assignment = (right.cell index).eval assignment := by
  refine Yields.bind (subset_yields leftKnown rightKnown) fun included first grown made => ?_
  refine Yields.bind (subset_yields (rightKnown.mono grown) (leftKnown.mono grown))
    fun including second grownAgain madeAgain => Yields.lift ?_
  refine Build.Yields.weaken (Build.and_computes (made.1.mono grownAgain) madeAgain.1)
    fun bit last _ conjunction => ⟨conjunction.1, fun assignment => ?_⟩
  have conjoined := conjunction.2 assignment
  dsimp only at conjoined
  rw [conjoined, Bool.and_eq_true, made.2, madeAgain.2]
  constructor
  · rintro ⟨forward, backward⟩ index
    exact Bool.eq_iff_iff.mpr ⟨forward index, backward index⟩
  · intro same
    exact ⟨fun index holds => same index ▸ holds, fun index holds => (same index).symm ▸ holds⟩

end

end TryBuild

end ModelFinder
