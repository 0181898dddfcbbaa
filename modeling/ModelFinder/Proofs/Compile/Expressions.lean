import Mathlib
import ModelFinder.Proofs.Compile.Branches
/-!
Relational expressions: if the parts of an expression agree, so does the expression.
-/

namespace ModelFinder.Setting

variable {setting : Setting}

section

variable (sound : setting.Sound)

include sound

theorem agrees_relation (leaf : Relation) : setting.AgreesExpr (.relation leaf) := by
  intro grounding circuit _ ready
  rw [Expr.compile, Expr.evaluate]
  refine Compile.Yields.of_valid fun valid => Compile.Yields.except fun matrix found => ?_
  rw [Leaves.relationMatrix?_of_ofBounds? sound.allocated] at found
  cases bounded : setting.leaves.bounds.bound? leaf with
  | none =>
      rw [bounded] at found
      cases found
  | some entry =>
      rw [bounded] at found
      cases found
      have member : entry ∈ setting.leaves.bounds.entries := List.mem_of_find?_eq_some bounded
      have same : entry.relation = leaf := by
        have matching := List.find?_some bounded
        exact beq_iff_eq.mp matching
      subst same
      rcases sound.laid.matrix sound.inRange member valid ready.primary sound.small with
        ⟨known, cells⟩
      rcases sound.realizes.chosen entry member with ⟨set, stored, univ, arity, members⟩
      refine ⟨known, ?_⟩
      rw [stored]
      exact Evaluate.Gives.pure ⟨univ, arity, fun index => (members index).trans (cells _ _).symm⟩

theorem agrees_constant (leaf : SetConstant)
    (small : setting.size ^ (Expr.constant leaf).arity < Index.limit) :
    setting.AgreesExpr (.constant leaf) := by
  intro grounding circuit _ _
  rw [Expr.compile, Expr.evaluate]
  have sameUniverse : setting.model.univ = setting.univ := sound.realizes.univ
  -- Every fixed relation is made of a list of tuples in range.
  have listed : ∀ (arity : Nat) (indices : List Nat), setting.size ^ arity < Index.limit →
      (∀ index ∈ indices, index < setting.size ^ arity) →
      circuit.KnowsMatrix setting.size arity (Matrix.constant setting.size arity indices) ∧
        Evaluate.Gives (grounding.sets setting) setting.mayFail
          (liftM (TupleSet.ofIndices? setting.model.univ arity indices)) fun set =>
            (Matrix.constant setting.size arity indices).Denotes setting.univ arity
              setting.assignment set := by
    intro arity indices small inRange
    refine ⟨Circuit.knowsMatrix_constant circuit inRange, ?_⟩
    rw [sameUniverse]
    exact Evaluate.Gives.except
      (TupleSet.ofIndices?_of_capacity (Index.capacity_of_lt sound.positive small) inRange)
      (Matrix.Denotes.of_constant setting.univ arity indices setting.assignment)
  cases leaf with
  | univ =>
      refine Compile.Yields.pure ⟨Circuit.knowsMatrix_constant circuit ?_, ?_⟩
      · intro index member
        rw [List.mem_range] at member
        change index < setting.size ^ 1
        rwa [pow_one]
      · rw [Instance.constant?, sameUniverse]
        refine Evaluate.Gives.except
          (TupleSet.all_of_capacity (Index.capacity_of_lt sound.positive small)) ?_
        have denotes := Matrix.Denotes.of_constant setting.univ 1 (List.range setting.size)
          setting.assignment
        rwa [pow_one]
  | none =>
      refine Compile.Yields.pure ⟨Circuit.knowsMatrix_empty circuit _ _, ?_⟩
      rw [Instance.constant?, sameUniverse]
      exact Evaluate.Gives.except rfl (Matrix.Denotes.of_empty setting.univ 1 setting.assignment)
  | iden =>
      refine Compile.Yields.pure ?_
      have pairs := listed 2 ((List.range setting.size).map fun atom => atom * setting.size + atom)
        small ?_
      · rw [Instance.constant?]
        rw [sameUniverse] at pairs ⊢
        exact pairs
      · intro index member
        rcases List.mem_map.mp member with ⟨atom, atomMember, rfl⟩
        rw [List.mem_range] at atomMember
        have atomBound : atom < setting.size ^ 1 := by rwa [pow_one]
        have pair := Index.continued_lt atomBound atomBound
        rwa [pow_one] at pair
  | ints =>
      refine Compile.Yields.pure ?_
      have atoms := listed 1 (setting.model.ints.map Prod.snd) small ?_
      · have same : setting.leaves.bounds.intAtoms.toList = setting.model.ints := by
          rw [← sound.realizes.intAtoms]
          rfl
        rw [Instance.constant?, Leaves.constantMatrix, same]
        exact atoms
      · intro index member
        rcases List.mem_map.mp member with ⟨entry, entryMember, rfl⟩
        have inRange := sound.atomsInRange entry entryMember
        rwa [sameUniverse, ← pow_one setting.univ.size] at inRange

end

theorem agrees_variable (leaf : Variable) : setting.AgreesExpr (.variable leaf) := by
  intro grounding circuit inRange _
  rw [Expr.compile, Expr.evaluate]
  have read : Compile.Yields (grounding.matrices setting) circuit (getThe (Scope Matrix))
      fun scope _ => scope = grounding.matrices setting := Compile.Yields.getScope rfl
  refine Compile.Yields.bind read fun scope after _ same => ?_
  subst same
  rw [Grounding.lookup_matrices]
  cases found : grounding.find? fun bound => bound.1 == leaf with
  | none => exact Compile.Yields.throw
  | some bound =>
      have same : bound.1 = leaf := by
        have matching := List.find?_some found
        exact beq_iff_eq.mp matching
      have bounded := inRange bound (List.mem_of_find?_eq_some found)
      rw [same] at bounded
      rw [Option.map_some, same]
      refine Compile.Yields.pure ⟨Circuit.knowsMatrix_constant after
        (List.forall_mem_singleton.mpr bounded), ?_⟩
      have readSets : Evaluate.Gives (grounding.sets setting) setting.mayFail MonadState.get
          fun scope => scope = grounding.sets setting := Evaluate.Gives.getScope rfl
      refine Evaluate.Gives.bind readSets fun scope sameScope => ?_
      subst sameScope
      rw [Grounding.lookup_sets, found, Option.map_some, same]
      exact Evaluate.Gives.pure (Matrix.Denotes.of_constant setting.univ leaf.arity [bound.2]
        setting.assignment)

theorem agrees_combined (sound : setting.Sound) {op : SetOp} {left right : Expr} {arity : Nat}
    (fitting : op.Fitting left.arity right.arity arity)
    (countable : op.Countable setting.size left.arity right.arity)
    (leftAgrees : setting.AgreesExpr left) (rightAgrees : setting.AgreesExpr right) :
    setting.AgreesExpr (.binary op left right arity) := by
  intro grounding circuit inRange ready
  rw [Expr.compile, Expr.evaluate]
  have admitted : Compile.Yields (grounding.matrices setting) circuit
      (liftM (op.admits? left right)) fun _ _ => True :=
    Compile.Yields.except fun _ _ => trivial
  refine Compile.Yields.bind admitted fun _ first grown _ => ?_
  refine Compile.Yields.bind (leftAgrees grounding first inRange (ready.mono grown))
    fun leftMatrix second grownLeft madeLeft => ?_
  refine Compile.Yields.bind
    (rightAgrees grounding second inRange ((ready.mono grown).mono grownLeft))
    fun rightMatrix third grownRight madeRight => ?_
  have built := op.build_yields sound.positive fitting countable (madeLeft.1.mono grownRight)
    madeRight.1
  refine Compile.Yields.weaken (Compile.Yields.tryBuild built) fun matrix after _ made =>
    ⟨made.1, ?_⟩
  refine Evaluate.Gives.bind madeLeft.2 fun leftSet leftDenotes => ?_
  refine Evaluate.Gives.bind madeRight.2 fun rightSet rightDenotes => ?_
  rcases made.2 setting.assignment leftSet rightSet leftDenotes rightDenotes with
    ⟨set, computed, denotes⟩
  exact Evaluate.Gives.except computed denotes

private theorem agrees_unionFrom {arity : Nat} {operands : List Expr}
    (agrees : ∀ operand ∈ operands, setting.AgreesExpr operand) {grounding : Grounding}
    (inRange : grounding.InRange setting) (circuit : Circuit) (ready : setting.Ready circuit)
    {matrix : Matrix} (known : circuit.KnowsMatrix setting.size arity matrix) :
    Compile.Yields (grounding.matrices setting) circuit
      (Expr.compileUnion setting.leaves setting.range arity matrix operands)
      fun result after => after.KnowsMatrix setting.size arity result ∧
        ∀ set, matrix.Denotes setting.univ arity setting.assignment set →
          Evaluate.Gives (grounding.sets setting) setting.mayFail
            (Expr.evaluateUnion setting.model setting.range set operands) fun last =>
              result.Denotes setting.univ arity setting.assignment last := by
  induction operands generalizing circuit matrix with
  | nil =>
      rw [Expr.compileUnion]
      refine Compile.Yields.pure ⟨known, fun set denotes => ?_⟩
      rw [Expr.evaluateUnion]
      exact Evaluate.Gives.pure denotes
  | cons operand rest hypothesis =>
      rw [List.forall_mem_cons] at agrees
      rw [Expr.compileUnion]
      split
      · exact Compile.Yields.bind (Compile.Yields.throw) fun _ _ _ (impossible : False) =>
          impossible.elim
      · rename_i sameArity
        have isArity : operand.arity = arity := not_not.mp sameArity
        subst isArity
        refine Compile.Yields.bind (agrees.1 grounding circuit inRange ready)
          fun added first grown made => ?_
        have joined := TryBuild.union_computes (known.mono grown) made.1
        refine Compile.Yields.bind (Compile.Yields.tryBuild joined)
          fun together second grownUnion union => ?_
        have later := hypothesis agrees.2 second ((ready.mono grown).mono grownUnion) union.1
        refine Compile.Yields.weaken later fun result after _ held =>
          ⟨held.1, fun set denotes => ?_⟩
        rw [Expr.evaluateUnion]
        refine Evaluate.Gives.bind made.2 fun addedSet addedDenotes => ?_
        have unite := TupleSet.union?_of_eq
          (addedDenotes.univ_eq.trans denotes.univ_eq.symm)
          (addedDenotes.arity_eq.trans denotes.arity_eq.symm)
        refine Evaluate.Gives.bind (Evaluate.Gives.except unite rfl) fun unionSet same => ?_
        subst same
        refine held.2 _ ⟨denotes.univ_eq, denotes.arity_eq, fun index => ?_⟩
        rw [TupleSet.containsIndex_union, denotes.members, addedDenotes.members, union.2]

theorem agrees_union (sound : setting.Sound) {arity : Nat} {operands : List Expr}
    (agrees : ∀ operand ∈ operands, setting.AgreesExpr operand) :
    setting.AgreesExpr (.union operands arity) := by
  intro grounding circuit inRange ready
  rw [Expr.compile, Expr.evaluate]
  have united := agrees_unionFrom agrees inRange circuit ready
    (Circuit.knowsMatrix_empty circuit setting.size arity)
  refine Compile.Yields.weaken united fun matrix after _ made => ⟨made.1, made.2 _ ?_⟩
  have sameUniverse : setting.model.univ = setting.univ := sound.realizes.univ
  rw [sameUniverse]
  exact Matrix.Denotes.of_empty setting.univ arity setting.assignment

theorem agrees_chosenExpr {condition : Formula} {thenExpr elseExpr : Expr} {arity : Nat}
    (thenArity : thenExpr.arity = arity) (elseArity : elseExpr.arity = arity)
    (conditionAgrees : setting.AgreesFormula condition)
    (thenAgrees : setting.AgreesExpr thenExpr) (elseAgrees : setting.AgreesExpr elseExpr) :
    setting.AgreesExpr (.ite condition thenExpr elseExpr arity) := by
  subst thenArity
  intro grounding circuit inRange ready
  rw [Expr.compile, Expr.evaluate]
  have checked : Compile.Yields (grounding.matrices setting) circuit
      (liftM (sameArity? thenExpr elseExpr)) fun _ _ => True :=
    Compile.Yields.except fun _ _ => trivial
  refine Compile.Yields.bind checked fun _ first grown _ => ?_
  unfold AgreesExpr at elseAgrees
  rw [elseArity] at elseAgrees
  refine agrees_conditional
    (fun bit thenMatrix elseMatrix => liftM (Matrix.choice? bit thenMatrix elseMatrix))
    conditionAgrees thenAgrees elseAgrees (fun matrix before after known grown => known.mono grown)
    ?_ grounding first inRange (ready.mono grown)
  intro scope after bit thenMatrix elseMatrix bitKnown thenKnown elseKnown
  refine Compile.Yields.weaken (Compile.Yields.tryBuild
    (TryBuild.choice_computes thenKnown elseKnown bitKnown)) fun matrix last _ made =>
      ⟨made.1, fun set => ⟨fun holds denotes => ?_, fun fails denotes => ?_⟩⟩
  · refine ⟨denotes.univ_eq, denotes.arity_eq, fun index => ?_⟩
    simp only [made.2, holds, cond_true, denotes.members]
  · refine ⟨denotes.univ_eq, denotes.arity_eq, fun index => ?_⟩
    simp only [made.2, fails, cond_false, denotes.members]

theorem agrees_cast (sound : setting.Sound) (cast : IntCast) {value : IntExpr}
    (small : setting.size ^ 1 < Index.limit) (agrees : setting.AgreesInt value) :
    setting.AgreesExpr (.ofInt cast value) := by
  intro grounding circuit inRange ready
  rw [Expr.compile, Expr.evaluate]
  refine Compile.Yields.bind (agrees grounding circuit inRange ready)
    fun word first grown made => ?_
  rcases made with ⟨⟨wordKnown, width⟩, gives⟩
  have sameUniverse : setting.model.univ = setting.univ := sound.realizes.univ
  have sameSize : setting.model.univ.size = setting.size := by rw [sameUniverse]; rfl
  -- Both casts compile to a matrix of the atoms that evaluation finds.
  have atoms : ∀ action : Build Matrix, Build.Yields first action (fun matrix after =>
      after.KnowsMatrix setting.model.univ.size 1 matrix ∧ ∀ assignment,
        matrix.Denotes setting.model.univ 1 assignment ⟨setting.model.univ, 1, .ofList
          (setting.model.castAtoms setting.range cast (word.eval assignment))⟩) →
      Compile.Yields (grounding.matrices setting) first (liftM action) fun matrix after =>
        after.KnowsMatrix setting.size 1 matrix ∧
          Evaluate.Gives (grounding.sets setting) setting.mayFail (do
            let number ← value.evaluate setting.model setting.range
            TupleSet.ofIndices? setting.model.univ 1
              (setting.model.castAtoms setting.range cast number))
            fun set => matrix.Denotes setting.univ 1 setting.assignment set := by
    intro action yields
    refine Compile.Yields.weaken (Compile.Yields.build yields) fun matrix after _ made => ?_
    rw [sameSize] at made
    refine ⟨made.1, Evaluate.Gives.bind gives fun number same => ?_⟩
    subst same
    have denotes := made.2 setting.assignment
    rw [sameUniverse] at denotes ⊢
    refine Evaluate.Gives.except (TupleSet.ofIndices?_of_capacity
      (Index.capacity_of_lt sound.positive small) fun atom member => ?_) denotes
    have bounded := sound.atomsInRange.castAtoms_lt member
    rwa [sameUniverse, ← pow_one setting.univ.size] at bounded
  cases cast with
  | value =>
      exact atoms _ (.weaken (Build.valueAtoms_yields sound.realizes.univ sound.realizes.intAtoms
        wordKnown width) fun _ _ _ made => ⟨made.2.1 sound.atomsInRange, made.2.2⟩)
  | bitset =>
      exact atoms _ (.weaken (Build.bitAtoms_yields sound.realizes.univ sound.realizes.intAtoms
        wordKnown width) fun _ _ _ made => ⟨made.2.1 sound.atomsInRange, made.2.2⟩)

end ModelFinder.Setting
