import Mathlib
import ModelFinder.Compile
import ModelFinder.Evaluate
import ModelFinder.Proofs.TupleSet
import ModelFinder.Proofs.Circuit.Matrix.Counting
import ModelFinder.Proofs.Circuit.Success
import ModelFinder.Proofs.Syntax.Formation
/-!
Matrices and the sets that they denote under an assignment. Operators on expressions compile to
matrices of the sets that evaluation gives them.
-/

namespace ModelFinder

/-- The set of the tuples whose cells hold. -/
structure Matrix.Denotes (univ : Universe) (arity : Nat) (assignment : Nat → Bool)
    (matrix : Matrix) (set : TupleSet) : Prop where
  univ_eq : set.univ = univ
  arity_eq : set.arity = arity
  members : ∀ index, set.containsIndex index = (matrix.cell index).eval assignment

namespace Matrix.Denotes

variable {univ : Universe} {arity : Nat} {assignment : Nat → Bool} {matrix : Matrix}
  {set : TupleSet}

theorem toList_eq (denotes : matrix.Denotes univ arity assignment set) :
    set.toList = matrix.members assignment := by
  apply TupleSet.toList_eq (matrix.pairwise_members assignment)
  intro index
  rw [mem_members, denotes.members]

theorem size_eq (denotes : matrix.Denotes univ arity assignment set) :
    set.size = matrix.count assignment := by
  rw [TupleSet.size_eq_length, denotes.toList_eq, count]

theorem inRange (denotes : matrix.Denotes univ arity assignment set) {circuit : Circuit}
    (known : circuit.KnowsMatrix univ.size arity matrix) : set.InRange := by
  intro index held
  rw [denotes.univ_eq, denotes.arity_eq]
  rw [denotes.members] at held
  by_contra beyond
  rw [known.cell_of_le (Nat.le_of_not_lt beyond), Bit.eval] at held
  cases held

section

variable {other : Matrix} {otherSet : TupleSet}
  (denotes : matrix.Denotes univ arity assignment set)
  (otherDenotes : other.Denotes univ arity assignment otherSet)

include denotes otherDenotes

theorem eq_iff : set = otherSet ↔
    ∀ index, (matrix.cell index).eval assignment = (other.cell index).eval assignment := by
  simp only [TupleSet.ext_iff, denotes.univ_eq, otherDenotes.univ_eq, denotes.arity_eq,
    otherDenotes.arity_eq, true_and, denotes.members, otherDenotes.members]

theorem isSubset_iff : set.isSubset otherSet = true ↔
    ∀ index, (matrix.cell index).eval assignment = true →
      (other.cell index).eval assignment = true := by
  simp only [TupleSet.isSubset_iff (denotes.univ_eq.trans otherDenotes.univ_eq.symm)
    (denotes.arity_eq.trans otherDenotes.arity_eq.symm), denotes.members, otherDenotes.members]

end

theorem of_constant (univ : Universe) (arity : Nat) (indices : List Nat)
    (assignment : Nat → Bool) :
    (Matrix.constant univ.size arity indices).Denotes univ arity assignment
      ⟨univ, arity, .ofList indices⟩ := by
  refine ⟨rfl, rfl, fun index => ?_⟩
  rw [TupleSet.containsIndex_ofList, cell_constant, Bit.eval, List.contains_eq_mem]

theorem of_empty (univ : Universe) (arity : Nat) (assignment : Nat → Bool) :
    (Matrix.empty univ.size arity).Denotes univ arity assignment (TupleSet.empty univ arity) :=
  ⟨rfl, rfl, fun index => by rw [TupleSet.containsIndex_empty, cell_empty, Bit.eval]⟩

end Matrix.Denotes

section

variable {univ : Universe} {circuit : Circuit} {left right : Matrix}
variable {leftArity rightArity arity : Nat}

/-- A matrix that an operator gives for the matrices of two sets. -/
def SetOp.Gives (op : SetOp) (univ : Universe) (leftArity rightArity arity : Nat)
    (left right matrix : Matrix) : Prop :=
  ∀ assignment leftSet rightSet, left.Denotes univ leftArity assignment leftSet →
    right.Denotes univ rightArity assignment rightSet →
    ∃ set, op.compute? leftSet rightSet = .ok set ∧ matrix.Denotes univ arity assignment set

private theorem SetOp.gives_of_cells {op : SetOp} {matrix : Matrix}
    {operation : Bool → Bool → Bool}
    (computed : ∀ leftSet rightSet, rightSet.univ = leftSet.univ →
      rightSet.arity = leftSet.arity → ∃ set, op.compute? leftSet rightSet = .ok set ∧
        set.univ = leftSet.univ ∧ set.arity = leftSet.arity ∧ ∀ index,
          set.containsIndex index =
            operation (leftSet.containsIndex index) (rightSet.containsIndex index))
    (cells : ∀ assignment index, (matrix.cell index).eval assignment =
      operation ((left.cell index).eval assignment) ((right.cell index).eval assignment)) :
    op.Gives univ arity arity arity left right matrix := by
  intro assignment leftSet rightSet leftDenotes rightDenotes
  rcases computed leftSet rightSet (rightDenotes.univ_eq.trans leftDenotes.univ_eq.symm)
    (rightDenotes.arity_eq.trans leftDenotes.arity_eq.symm) with
    ⟨set, same, sameUniverse, sameArity, members⟩
  refine ⟨set, same, sameUniverse.trans leftDenotes.univ_eq,
    sameArity.trans leftDenotes.arity_eq, fun index => ?_⟩
  rw [members, cells, leftDenotes.members, rightDenotes.members]

theorem SetOp.build_succeeds (op : SetOp) {size : Nat} (positive : 0 < size)
    (fitting : op.Fitting leftArity rightArity arity)
    (countable : op.Countable size leftArity rightArity)
    (leftKnown : circuit.KnowsMatrix size leftArity left)
    (rightKnown : circuit.KnowsMatrix size rightArity right) :
    TryBuild.Succeeds circuit (op.build left right) := by
  have sameSize := leftKnown.universeSize_eq.trans rightKnown.universeSize_eq.symm
  have cellwise (same : leftArity = rightArity) : left.arity = right.arity :=
    leftKnown.arity_eq.trans (same.trans rightKnown.arity_eq.symm)
  cases op with
  | join =>
      rcases countable with ⟨before, rest, rfl, rfl, joinable⟩
      exact .join positive joinable leftKnown rightKnown
  | product => exact .product positive countable leftKnown rightKnown
  | union => exact .union sameSize (cellwise fitting.1)
  | difference => exact .difference sameSize (cellwise fitting.1)
  | intersection => exact .intersection sameSize (cellwise fitting.1)

/-- The matrix of an operator denotes the set that the operator has as its value. -/
theorem SetOp.build_yields (op : SetOp) (positive : 0 < univ.size)
    (fitting : op.Fitting leftArity rightArity arity)
    (countable : op.Countable univ.size leftArity rightArity)
    (leftKnown : circuit.KnowsMatrix univ.size leftArity left)
    (rightKnown : circuit.KnowsMatrix univ.size rightArity right) :
    TryBuild.Yields circuit (op.build left right) fun matrix after =>
      after.KnowsMatrix univ.size arity matrix ∧
        op.Gives univ leftArity rightArity arity left right matrix := by
  cases op with
  | join =>
      rcases countable with ⟨before, rest, rfl, rfl, joinable⟩
      rcases fitting with ⟨columns, sum⟩
      obtain rfl : arity = before + rest := by omega
      refine TryBuild.Yields.weaken
        (TryBuild.join_yields positive joinable leftKnown rightKnown)
        fun matrix after _ made => ⟨made.1, ?_⟩
      intro assignment leftSet rightSet leftDenotes rightDenotes
      have sameUniverse := rightDenotes.univ_eq.trans leftDenotes.univ_eq.symm
      rcases TupleSet.join?_of_joinable sameUniverse leftDenotes.arity_eq rightDenotes.arity_eq
        columns (leftDenotes.inRange leftKnown) (leftDenotes.univ_eq ▸ positive)
        (leftDenotes.univ_eq ▸ joinable) with ⟨set, same, setUniverse, setArity, members⟩
      refine ⟨set, same, setUniverse.trans leftDenotes.univ_eq, setArity, fun index => ?_⟩
      rw [Bool.eq_iff_iff, members, made.2, leftDenotes.univ_eq]
      simp only [leftDenotes.members, rightDenotes.members]
  | product =>
      subst fitting
      refine TryBuild.Yields.weaken
        (TryBuild.product_yields positive countable leftKnown rightKnown)
        fun matrix after _ made => ⟨made.1, ?_⟩
      intro assignment leftSet rightSet leftDenotes rightDenotes
      have sameUniverse := rightDenotes.univ_eq.trans leftDenotes.univ_eq.symm
      have sameContinuable : Index.Continuable leftSet.univ.size leftSet.arity rightSet.arity := by
        rw [leftDenotes.univ_eq, leftDenotes.arity_eq, rightDenotes.arity_eq]
        exact countable
      rcases TupleSet.product?_of_continuable sameUniverse (leftDenotes.inRange leftKnown)
        (rightDenotes.inRange rightKnown) (leftDenotes.univ_eq ▸ positive) sameContinuable with
        ⟨set, same, setUniverse, setArity, members⟩
      rw [leftDenotes.arity_eq, rightDenotes.arity_eq] at setArity
      refine ⟨set, same, setUniverse.trans leftDenotes.univ_eq, setArity, fun index => ?_⟩
      rw [Bool.eq_iff_iff, members, made.2, leftDenotes.univ_eq, rightDenotes.arity_eq]
      simp only [leftDenotes.members, rightDenotes.members]
  | union =>
      rcases fitting with ⟨rfl, rfl⟩
      refine TryBuild.Yields.weaken (TryBuild.union_computes leftKnown rightKnown)
        fun matrix after _ made => ⟨made.1, gives_of_cells ?_ made.2⟩
      intro leftSet rightSet sameUniverse sameArity
      exact ⟨_, TupleSet.union?_of_eq sameUniverse sameArity, rfl, rfl,
        TupleSet.containsIndex_union⟩
  | difference =>
      rcases fitting with ⟨rfl, rfl⟩
      refine TryBuild.Yields.weaken (TryBuild.difference_computes leftKnown rightKnown)
        fun matrix after _ made =>
          ⟨made.1, @gives_of_cells _ _ _ _ _ _ (fun first second => first && !second) ?_ made.2⟩
      intro leftSet rightSet sameUniverse sameArity
      exact ⟨_, TupleSet.difference?_of_eq sameUniverse sameArity, rfl, rfl,
        TupleSet.containsIndex_sdiff⟩
  | intersection =>
      rcases fitting with ⟨rfl, rfl⟩
      refine TryBuild.Yields.weaken (TryBuild.intersection_computes leftKnown rightKnown)
        fun matrix after _ made => ⟨made.1, gives_of_cells ?_ made.2⟩
      intro leftSet rightSet sameUniverse sameArity
      exact ⟨_, TupleSet.intersection?_of_eq sameUniverse sameArity, rfl, rfl,
        TupleSet.containsIndex_inter⟩

theorem SetComparison.build_yields (op : SetComparison)
    (leftKnown : circuit.KnowsMatrix univ.size arity left)
    (rightKnown : circuit.KnowsMatrix univ.size arity right) (leftExpr rightExpr : Expr) :
    TryBuild.Yields circuit (op.build left right) fun bit after => after.Knows bit ∧
      ∀ assignment leftSet rightSet, left.Denotes univ arity assignment leftSet →
        right.Denotes univ arity assignment rightSet →
        op.compute? leftExpr rightExpr leftSet rightSet = .ok (bit.eval assignment) := by
  cases op with
  | equals =>
      refine TryBuild.Yields.weaken (TryBuild.equals_yields leftKnown rightKnown)
        fun bit after _ made => ⟨made.1, ?_⟩
      intro assignment leftSet rightSet leftDenotes rightDenotes
      rw [compute?, if_neg (not_not.mpr (leftDenotes.arity_eq.trans rightDenotes.arity_eq.symm))]
      congr 1
      rw [Bool.eq_iff_iff, beq_iff_eq, leftDenotes.eq_iff rightDenotes, made.2]
  | subset =>
      refine TryBuild.Yields.weaken (TryBuild.subset_yields leftKnown rightKnown)
        fun bit after _ made => ⟨made.1, ?_⟩
      intro assignment leftSet rightSet leftDenotes rightDenotes
      rw [compute?, if_neg (not_not.mpr (leftDenotes.arity_eq.trans rightDenotes.arity_eq.symm))]
      congr 1
      rw [Bool.eq_iff_iff, leftDenotes.isSubset_iff rightDenotes, made.2]

theorem Multiplicity.build_computes (amount : Multiplicity) {matrix : Matrix}
    (known : circuit.KnowsMatrix univ.size arity matrix) :
    Build.Computes circuit (amount.build matrix) fun assignment =>
      amount.admits (matrix.count assignment) := by
  have valuesKnown := Matrix.knows_values known
  cases amount with
  | some => exact Build.some_computes valuesKnown
  | no => exact Build.none_computes valuesKnown
  | one => exact Build.one_computes valuesKnown
  | lone => exact Build.lone_computes valuesKnown

end

end ModelFinder
