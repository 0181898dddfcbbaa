import Mathlib
import ModelFinder.Proofs.Compile.Dimensions
import ModelFinder.Proofs.Semantics.Dimensions
import ModelFinder.Proofs.Compile.Agreement
import ModelFinder.Proofs.Semantics.Evaluation
/-!
Declared arities are respected. Whatever scope a quantifier has built up, a formed expression has
the dimensions that its nodes declare, as a matrix and as a set of tuples. As long as tuples can be
counted and joins computed, formed terms break no assertion.
-/

namespace ModelFinder

def Compile.outcome {α : Type} (scope : Scope Matrix) (circuit : Circuit) (action : Compile α) :
    Except Error α :=
  ((action.run.run scope).run circuit).1.1

def Evaluate.outcome {α : Type} (scope : Scope TupleSet) (action : Evaluate α) : Except Error α :=
  (action.run.run scope).1

/-- Scopes that are reached while compiling: nothing is bound at the beginning, and declared
variables are bound to one stored cell after the other of the matrices that their domains compile
to. -/
inductive Compile.Reached (leaves : Leaves) (range : IntRange) : Scope Matrix → Prop
  | empty : Reached leaves range .empty
  | bind {scope : Scope Matrix} {circuit : Circuit} {declared : Variable} {domain : Expr}
      {matrix : Matrix} {entry : Nat × Bit} :
      Reached leaves range scope → domain.Every .formed →
      Decl.oneOf? declared domain = .ok (.oneOf declared domain) →
      Compile.outcome scope circuit (domain.compile leaves range) = .ok matrix →
      entry ∈ matrix.entries →
      Reached leaves range
        (scope.extend declared (.constant matrix.universeSize matrix.arity [entry.1]))

/-- Scopes that are reached while evaluating: declared variables are bound to one tuple after the
other of the sets that their domains have as values. -/
inductive Evaluate.Reached (model : Instance) (range : IntRange) : Scope TupleSet → Prop
  | empty : Reached model range .empty
  | bind {scope : Scope TupleSet} {declared : Variable} {domain : Expr} {set single : TupleSet}
      {index : Nat} :
      Reached model range scope → domain.Every .formed →
      Decl.oneOf? declared domain = .ok (.oneOf declared domain) →
      Evaluate.outcome scope (domain.evaluate model range) = .ok set → index ∈ set.toList →
      TupleSet.ofIndices? set.univ set.arity [index] = .ok single →
      Reached model range (scope.extend declared single)

namespace Meets

variable {α : Type} {safe : Prop} {post : α → Prop} {outcome : Except Error α}

theorem of_ok (meets : Meets safe post outcome) {value : α} (same : outcome = .ok value) :
    post value := by
  subst same
  exact meets

theorem ne_violation (meets : Meets safe post outcome) (isSafe : safe) (cause : Violation) :
    outcome ≠ .error (.violation cause) := by
  rintro rfl
  exact meets isSafe

end Meets

section

variable {leaves : Leaves} {range : IntRange} {size : Nat} {scope : Scope Matrix}

theorem IntRange.supported (range : IntRange) {width : Nat} (same : width = range.bitwidth) :
    0 < width ∧ width ≤ 32 :=
  ⟨same ▸ range.one_le_bitwidth, same ▸ range.bitwidth_le⟩

theorem Compile.Ensures.meets {α : Type} {width : Nat} {safe : Prop} {action : Compile α}
    {post : α → Prop} (ensures : Compile.Ensures size width safe action post)
    (binds : scope.Binds fun leaf => Matrix.Shaped size leaf.arity) {circuit : Circuit}
    (same : circuit.width = width) : Meets safe post (Compile.outcome scope circuit action) :=
  (ensures scope binds circuit same).2.2

theorem Compile.Reached.binds (shaped : leaves.Shaped size)
    (reached : Compile.Reached leaves range scope) :
    scope.Binds fun leaf => Matrix.Shaped size leaf.arity := by
  induction reached with
  | empty => exact Scope.binds_empty _
  | @bind scope circuit declared domain matrix entry _ formed declares compiled member binds =>
      have domainShapes : Compile.Ensures size circuit.width False (domain.compile leaves range)
          (Matrix.Shaped size domain.arity) :=
        Expr.compile_ensures shaped False.elim formed False.elim
      have matrixShaped := (domainShapes.meets binds rfl).of_ok compiled
      refine binds.extend ?_
      rw [matrixShaped.universeSize_eq, matrixShaped.arity_eq, Decl.arity_of_oneOf? declares]
      exact .constant (List.forall_mem_singleton.mpr (matrixShaped.lt_of_mem member))

end

section

variable {model : Instance} {range : IntRange} {scope : Scope TupleSet}

theorem Evaluate.Ensures.meets {α : Type} {univ : Universe} {safe : Prop} {action : Evaluate α}
    {post : α → Prop} (ensures : Evaluate.Ensures univ safe action post)
    (binds : scope.Binds fun leaf => TupleSet.Shaped univ leaf.arity) :
    Meets safe post (Evaluate.outcome scope action) :=
  (ensures scope binds).2

theorem Evaluate.Reached.binds (sound : model.Sound)
    (reached : Evaluate.Reached model range scope) :
    scope.Binds fun leaf => TupleSet.Shaped model.univ leaf.arity := by
  induction reached with
  | empty => exact Scope.binds_empty _
  | @bind scope declared domain set single index _ formed declares evaluated _ made binds =>
      have domainShapes : Evaluate.Ensures model.univ False (domain.evaluate model range)
          (TupleSet.Shaped model.univ domain.arity) :=
        Expr.evaluate_ensures sound formed False.elim
      have setShaped := (domainShapes.meets binds).of_ok evaluated
      rw [setShaped.univ_eq, setShaped.arity_eq] at made
      have singleShaped := (TupleSet.meets_ofIndices sound.nonempty False.elim [index]).of_ok made
      exact binds.extend (Decl.arity_of_oneOf? declares ▸ singleShaped)

end

/-- A formed expression compiles to a matrix over the universe and of its declared arity that
stores no cell out of range and no false one, and it evaluates to a set of tuples of its arity.
Formed terms whose tuples can be counted and whose joins can be computed break no assertion, be
it on matching dimensions or on numbers of columns. -/
theorem arities_respected {bounds : Bounds} {leaves : Leaves} {model : Instance}
    (boundsMade : bounds.Made) (boundsInRange : bounds.InRange)
    (allocated : Leaves.ofBounds? bounds = .ok leaves) (modelMade : model.Made)
    (modelInRange : model.InRange) (range : IntRange) :
    (∀ scope, Compile.Reached leaves range scope → ∀ circuit : Circuit,
      (∀ expr : Expr, expr.Every .formed → ∀ matrix,
        Compile.outcome scope circuit (expr.compile leaves range) = .ok matrix →
          matrix.Shaped bounds.univ.size expr.arity) ∧
      (circuit.width = range.bitwidth →
        (∀ expr : Expr, expr.Every .formed →
          expr.Every (.and (.counted bounds.univ.size) .joinable) → ∀ cause,
            Compile.outcome scope circuit (expr.compile leaves range) ≠
              .error (.violation cause)) ∧
        (∀ formula : Formula, formula.Every .formed →
          formula.Every (.and (.counted bounds.univ.size) .joinable) → ∀ cause,
            Compile.outcome scope circuit (formula.compile leaves range) ≠
              .error (.violation cause)) ∧
        (∀ value : IntExpr, value.Every .formed →
          value.Every (.and (.counted bounds.univ.size) .joinable) → ∀ cause,
            Compile.outcome scope circuit (value.compile leaves range) ≠
              .error (.violation cause)))) ∧
    (∀ scope, Evaluate.Reached model range scope →
      (∀ expr : Expr, expr.Every .formed → ∀ set,
        Evaluate.outcome scope (expr.evaluate model range) = .ok set →
          set.Shaped model.univ expr.arity) ∧
      (∀ expr : Expr, expr.Every .formed →
        expr.Every (.and (.counted model.univ.size) .joinable) → ∀ cause,
          Evaluate.outcome scope (expr.evaluate model range) ≠ .error (.violation cause)) ∧
      (∀ formula : Formula, formula.Every .formed →
        formula.Every (.and (.counted model.univ.size) .joinable) → ∀ cause,
          Evaluate.outcome scope (formula.evaluate model range) ≠ .error (.violation cause)) ∧
      (∀ value : IntExpr, value.Every .formed →
        value.Every (.and (.counted model.univ.size) .joinable) → ∀ cause,
          Evaluate.outcome scope (value.evaluate model range) ≠ .error (.violation cause))) := by
  have shaped := Leaves.shaped boundsMade.sound boundsInRange allocated
  have sound := modelMade.sound modelInRange
  constructor
  · intro scope reached circuit
    have binds := reached.binds shaped
    refine ⟨fun expr formed matrix compiled => ?_, fun same => ?_⟩
    · exact ((Expr.compile_ensures shaped False.elim formed False.elim).meets binds rfl).of_ok
        compiled
    · have narrow := fun _ : True => range.supported same
      exact ⟨fun expr formed bounded => ((Expr.compile_ensures shaped narrow formed
          fun _ => bounded).meets binds rfl).ne_violation trivial,
        fun formula formed bounded => ((Formula.compile_ensures shaped narrow formed
          fun _ => bounded).meets binds rfl).ne_violation trivial,
        fun value formed bounded => ((IntExpr.compile_ensures shaped narrow formed
          fun _ => bounded).meets binds rfl).ne_violation trivial⟩
  · intro scope reached
    have binds := reached.binds sound
    refine ⟨fun expr formed set evaluated => ?_, ?_⟩
    · exact ((Expr.evaluate_ensures sound formed False.elim).meets binds).of_ok evaluated
    · exact ⟨fun expr formed bounded => ((Expr.evaluate_ensures sound formed
          fun _ => bounded).meets binds).ne_violation trivial,
        fun formula formed bounded => ((Formula.evaluate_ensures sound formed
          fun _ => bounded).meets binds).ne_violation trivial,
        fun value formed bounded => ((IntExpr.evaluate_ensures sound formed
          fun _ => bounded).meets binds).ne_violation trivial⟩

/-! A keeper and a pet, and what the cat has for its second meal. -/

def fourBits : IntRange := ⟨4, by decide, by decide⟩

def keeper : Variable := ⟨0, "keeper", 1⟩

def kept : Expr := .binary .product (.variable keeper) (.relation pet) 2

def petAllocation : Allocation := ⟨3, [(pet, ⟨1, 3⟩)]⟩

def petLeaves : Leaves :=
  ⟨petBounds, petAllocation, [(pet, RelationBound.matrix
    ⟨pet, .empty animals 1, ⟨animals, 1, .ofList [0, 1]⟩⟩ 2 petAllocation)]⟩

theorem petLeaves_allocated : Leaves.ofBounds? petBounds = .ok petLeaves := by
  have upper : TupleSet.size ⟨animals, 1, .ofList [0, 1]⟩ = 2 := by decide +kernel
  have lower : TupleSet.size (.empty animals 1) = 0 := by decide +kernel
  rw [Leaves.ofBounds?]
  simp only [petBounds, List.foldlM_cons, upper, lower]
  rfl

def catAlone : Scope Matrix := Scope.empty.extend keeper (.constant 2 1 [0])

theorem catAlone_reached : Compile.Reached petLeaves fourBits catAlone := by
  have formed : (Expr.constant .univ).Every .formed := trivial
  have compiled : Compile.outcome .empty (.empty 2 4)
      ((Expr.constant .univ).compile petLeaves fourBits) = .ok (.constant 2 1 [0, 1]) := rfl
  have member : (0, Bit.const true) ∈ (Matrix.constant 2 1 [0, 1]).entries := by
    rw [Matrix.mem_entries, Matrix.getElem?_constant]
    rfl
  exact .bind .empty formed rfl compiled member

def catHunts : Scope TupleSet := Scope.empty.extend eater ⟨larder, 1, .ofList [0]⟩

theorem catHunts_reached : Evaluate.Reached foodChain fourBits catHunts := by
  have formed : (Expr.constant .univ).Every .formed := trivial
  have evaluated : Evaluate.outcome .empty
      ((Expr.constant .univ).evaluate foodChain fourBits) = .ok ⟨larder, 1, .ofList [0, 1, 2]⟩ :=
    rfl
  have member : 0 ∈ TupleSet.toList ⟨larder, 1, .ofList [0, 1, 2]⟩ := by decide +kernel
  have single : TupleSet.ofIndices? larder 1 [0] = .ok ⟨larder, 1, .ofList [0]⟩ :=
    TupleSet.ofIndices?_of_capacity rfl (by decide)
  exact .bind .empty formed rfl evaluated member single

theorem arities_respected_kept :
    (∃ matrix, Compile.outcome catAlone (.empty 2 4) (kept.compile petLeaves fourBits) =
      .ok matrix ∧ matrix.Shaped 2 2) ∧
    ∃ set, Evaluate.outcome catHunts
      ((Expr.binary .join (.variable eater) secondMeals 1).evaluate foodChain fourBits) = .ok set ∧
      set.Shaped larder 1 := by
  rcases arities_respected petBounds_made petBounds_inRange petLeaves_allocated foodChain_made
    foodChain_inRange fourBits with ⟨compiles, evaluates⟩
  have keptFormed : kept.Every .formed := ⟨rfl, rfl, rfl⟩
  have huntFormed : (Expr.binary .join (.variable eater) secondMeals 1).Every .formed :=
    ⟨rfl, rfl, rfl, rfl, rfl⟩
  constructor
  · have succeeds : (Compile.outcome catAlone (.empty 2 4)
        (kept.compile petLeaves fourBits)).isOk = true := by decide +kernel
    rcases Except.isOk_iff_exists.mp succeeds with ⟨matrix, outcome⟩
    exact ⟨matrix, outcome, (compiles _ catAlone_reached _).1 kept keptFormed matrix outcome⟩
  · have succeeds : (Evaluate.outcome catHunts ((Expr.binary .join (.variable eater) secondMeals
        1).evaluate foodChain fourBits)).isOk = true := by decide +kernel
    rcases Except.isOk_iff_exists.mp succeeds with ⟨set, outcome⟩
    exact ⟨set, outcome, (evaluates _ catHunts_reached).1 _ huntFormed set outcome⟩

theorem stray_matrix : ∃ leaves matrix, Leaves.ofBounds? strayBounds = .ok leaves ∧
    Compile.outcome .empty (.empty 0 4) ((Expr.relation stranger).compile leaves fourBits) =
      .ok matrix ∧ ¬matrix.Shaped 2 1 := by
  have cells : (Leaves.ofBounds? strayBounds).toOption.bind (fun leaves =>
      (Compile.outcome .empty (.empty 0 4)
        ((Expr.relation stranger).compile leaves fourBits)).toOption.map fun matrix =>
          matrix.entries.map Prod.fst) = some [3] := by
    decide +kernel
  rcases Option.bind_eq_some_iff.mp cells with ⟨leaves, allocated, cells⟩
  rcases Except.exists_ok_of_map cells with ⟨matrix, compiled, cells⟩
  refine ⟨leaves, matrix, Except.toOption_eq_some_iff.mp allocated, compiled, fun shaped => ?_⟩
  have member : 3 ∈ matrix.entries.map Prod.fst := by
    rw [cells]
    exact List.mem_singleton_self _
  rcases List.mem_map.mp member with ⟨entry, stored, same⟩
  have bounded := shaped.lt_of_mem stored
  rw [same] at bounded
  exact absurd bounded (by decide)

/-- A join whose right side has as many columns as 32 bits can count is refused, although it is
formed and the tuples of all its parts can be counted. And a relation may be bound to what is no
atom, so that it has a member out of range, compiled and evaluated. -/
theorem wide_join_refused :
    (hermit.Made ∧ hermit.InRange ∧
      (Expr.binary .join (.constant .univ) (.relation wide) 4294967295).Every
        (SyntaxCheck.formed.and (.counted hermit.univ.size)) ∧
      Evaluate.outcome .empty ((Expr.binary .join (.constant .univ) (.relation wide)
        4294967295).evaluate hermit fourBits) = .error (.violation .overflow)) ∧
    TupleSet.stray.Joined ∧
    (strayBounds.Made ∧ ∃ leaves matrix, Leaves.ofBounds? strayBounds = .ok leaves ∧
      Compile.outcome .empty (.empty 0 4) ((Expr.relation stranger).compile leaves fourBits) =
        .ok matrix ∧ ¬matrix.Shaped 2 1) ∧
    strayModel.Made ∧
    Evaluate.outcome .empty ((Expr.relation stranger).evaluate strayModel fourBits) = .ok .stray ∧
    ¬TupleSet.stray.Shaped animals 1 := by
  have small (arity : Nat) : hermit.univ.size ^ arity < Index.limit := hermitage_counted arity
  exact ⟨⟨hermit_made, hermit_inRange, ⟨⟨rfl, small _⟩, ⟨trivial, small _⟩, rfl, small _⟩, rfl⟩,
    TupleSet.stray_joined.1, ⟨strayBounds_made, stray_matrix⟩, strayModel_made, rfl,
    fun shaped => TupleSet.stray_joined.2 fun _ => shaped.inRange⟩

end ModelFinder
