import Mathlib
import ModelFinder.Proofs.Compile.Expressions
import ModelFinder.Proofs.Compile.Folding.Judgement
/-!
Relational expressions over bounds that leave nothing open: if the parts of an expression
settle, so does the expression.
-/

namespace ModelFinder

theorem RelationBound.matrix_of_exact {bound : RelationBound} (exact' : bound.lower = bound.upper)
    (universeSize : Nat) (allocation : Allocation) : bound.matrix universeSize allocation =
      Matrix.constant universeSize bound.relation.arity bound.lower.toList := by
  have certain :
      bound.upper.toList.filter (fun index => !bound.lower.containsIndex index) = [] := by
    rw [List.filter_eq_nil_iff]
    intro index member
    rw [exact', TupleSet.mem_toList.mp member]
    decide
  rw [RelationBound.matrix, RelationBound.openTuples, certain]
  rfl

namespace Setting

open BitFamily

variable {setting : Setting}

/-- A compilation that only gives a constant matrix settles if it agrees with evaluation. -/
private theorem settles_of_agrees {expr : Expr} (never : ¬setting.mayFail)
    (agrees : setting.AgreesExpr expr) {grounding : Grounding}
    (inRange : grounding.InRange setting) (matrix : Matrix)
    (ran : (expr.compile setting.leaves setting.range).run.run (grounding.matrices setting)
      setting.start = ((.ok matrix, grounding.matrices setting), setting.start))
    (held : folded.All setting.start matrix) :
    Settled (grounding.matrices setting) (grounding.sets setting) setting.start
      (setting.FoldsMatrix expr.arity) (expr.compile setting.leaves setting.range)
      (expr.evaluate setting.model setting.range) := by
  have yields := agrees grounding setting.start inRange setting.ready_start setting.valid_start
  rw [ran] at yields
  rcases yields.2.2.2 matrix rfl with ⟨known, gives⟩
  rcases gives with ⟨set, evaluates, denotes⟩ | ⟨possible, -⟩
  · exact .inl ⟨matrix, set, ran, evaluates, held, known, denotes⟩
  · exact absurd possible never

theorem settles_relation (sound : setting.Sound) (never : ¬setting.mayFail) (leaf : Relation)
    (unbound : setting.leaves.bounds.bound? leaf = none → setting.model.tuples? leaf = none)
    (exact' : ∀ bound, setting.leaves.bounds.bound? leaf = some bound →
      bound.lower = bound.upper) : setting.SettlesExpr (.relation leaf) := by
  intro grounding inRange
  have interpreted := Leaves.relationMatrix?_of_ofBounds? sound.allocated leaf
  cases found : setting.leaves.bounds.bound? leaf with
  | none =>
      rw [found] at interpreted
      rw [Expr.compile, Expr.evaluate, interpreted, unbound found]
      exact .throw _ _
  | some bound =>
      rw [found] at interpreted
      refine settles_of_agrees never (agrees_relation sound leaf) inRange
        (bound.matrix setting.leaves.bounds.univ.size setting.leaves.allocation) ?_ ?_
      · rw [Expr.compile, interpreted]
        rfl
      · rw [RelationBound.matrix_of_exact (exact' bound found)]
        exact all_constantMatrix _ _ _

theorem compile_variable_run (leaves : Leaves) (range : IntRange) (leaf : Variable)
    (scope : Scope Matrix) (circuit : Circuit) :
    ((Expr.variable leaf).compile leaves range).run.run scope circuit =
      match scope.lookup leaf with
      | some matrix => ((.ok matrix, scope), circuit)
      | none => ((.error (.unboundVariable leaf.name), scope), circuit) := by
  rw [Expr.compile, ExceptT.run_bind, StateT.run_bind]
  have reads : (getThe (Scope Matrix) : Compile (Scope Matrix)).run.run scope =
      pure (.ok scope, scope) := rfl
  rw [reads, pure_bind]
  dsimp only
  cases scope.lookup leaf <;> rfl

theorem settles_variable (never : ¬setting.mayFail) (leaf : Variable) :
    setting.SettlesExpr (.variable leaf) := by
  intro grounding inRange
  cases found : grounding.find? fun bound => bound.1 == leaf with
  | none =>
      have read : Settled (grounding.matrices setting) (grounding.sets setting) setting.start
          (fun scope sets => scope = grounding.matrices setting ∧ sets = grounding.sets setting)
          (getThe (Scope Matrix)) MonadState.get := .inl ⟨_, _, rfl, rfl, rfl, rfl⟩
      rw [Expr.compile, Expr.evaluate]
      refine .bind read ?_
      rintro _ _ ⟨rfl, rfl⟩
      rw [Grounding.lookup_matrices, Grounding.lookup_sets, found]
      exact .throw _ _
  | some bound =>
      refine settles_of_agrees never (agrees_variable leaf) inRange
        (Matrix.constant setting.size bound.1.arity [bound.2]) ?_ (all_constantMatrix _ _ _)
      have lookup : (grounding.matrices setting).lookup leaf =
          some (Matrix.constant setting.size bound.1.arity [bound.2]) := by
        rw [Grounding.lookup_matrices, found]
        rfl
      rw [compile_variable_run, lookup]

theorem settles_constant (sound : setting.Sound) (never : ¬setting.mayFail) (leaf : SetConstant)
    (small : setting.size ^ (Expr.constant leaf).arity < Index.limit) :
    setting.SettlesExpr (.constant leaf) := by
  intro grounding inRange
  refine settles_of_agrees never (agrees_constant sound leaf small) inRange
    (setting.leaves.constantMatrix leaf) ?_ ?_
  · rw [Expr.compile]
    rfl
  · cases leaf with
    | univ => exact all_constantMatrix _ _ _
    | iden => exact all_constantMatrix _ _ _
    | none => exact all_empty _ _
    | ints => exact all_constantMatrix _ _ _

theorem settles_combined (sound : setting.Sound) {op : SetOp} {left right : Expr} {arity : Nat}
    (made : Expr.combine? op left right = .ok (.binary op left right arity))
    (countable : op.Countable setting.size left.arity right.arity)
    (leftSettles : setting.SettlesExpr left) (rightSettles : setting.SettlesExpr right) :
    setting.SettlesExpr (.binary op left right arity) := by
  intro grounding inRange
  rw [Expr.compile, Expr.evaluate]
  have fitting := Expr.arity_of_combine? made
  have admitted : op.admits? left right = .ok () := by
    cases op with
    | join =>
        rcases fitting with ⟨remaining, sum⟩
        rw [SetOp.admits?, Expr.columns_of_combine? made (.inl rfl)]
        change (if left.arity + right.arity < 3 then _ else _) = _
        exact if_neg (by omega)
    | product => rfl
    | union | difference | intersection => exact if_pos fitting.1
  refine .checked admitted ?_
  refine .bind (leftSettles grounding inRange) fun leftMatrix leftSet leftFolds => ?_
  refine .bind (rightSettles grounding inRange) fun rightMatrix rightSet rightFolds => ?_
  rcases run_of_folded_succeeds setting.valid_start
    (closed_folded.setOp op leftFolds.folded rightFolds.folded)
    (op.build_succeeds sound.positive fitting countable leftFolds.known rightFolds.known)
    (op.build_yields sound.positive fitting countable leftFolds.known rightFolds.known) with
    ⟨matrix, ran, held, known, gives⟩
  rcases gives _ _ _ leftFolds.denotes rightFolds.denotes with ⟨set, computed, denotes⟩
  exact .tryBuilt ⟨matrix, set, ran, computed, held, known, denotes⟩

private theorem settled_unionFrom {arity : Nat} {operands : List Expr}
    (settles : ∀ operand ∈ operands, setting.SettlesExpr operand)
    (arities : ∀ operand ∈ operands, operand.arity = arity) {grounding : Grounding}
    (inRange : grounding.InRange setting) {matrix : Matrix} {set : TupleSet}
    (folds : setting.FoldsMatrix arity matrix set) :
    Settled (grounding.matrices setting) (grounding.sets setting) setting.start
      (setting.FoldsMatrix arity)
      (Expr.compileUnion setting.leaves setting.range arity matrix operands)
      (Expr.evaluateUnion setting.model setting.range set operands) := by
  induction operands generalizing matrix set with
  | nil =>
      rw [Expr.compileUnion, Expr.evaluateUnion]
      exact .pure folds
  | cons operand rest hypothesis =>
      rw [List.forall_mem_cons] at settles arities
      obtain ⟨rfl, restArities⟩ := arities
      rw [Expr.compileUnion, Expr.evaluateUnion, if_neg (not_not.mpr rfl)]
      refine .bind (settles.1 grounding inRange) fun added addedSet addedFolds => ?_
      have united : Settled (grounding.matrices setting) (grounding.sets setting) setting.start
          (setting.FoldsMatrix operand.arity) (liftM (matrix.union? added))
          (liftM (set.union? addedSet)) := by
        have unite := TupleSet.union?_of_eq
          (addedFolds.denotes.univ_eq.trans folds.denotes.univ_eq.symm)
          (addedFolds.denotes.arity_eq.trans folds.denotes.arity_eq.symm)
        rcases run_of_folded_succeeds setting.valid_start
          (closed_folded.union folds.folded addedFolds.folded)
          (.union (folds.known.universeSize_eq.trans addedFolds.known.universeSize_eq.symm)
            (folds.known.arity_eq.trans addedFolds.known.arity_eq.symm))
          (TryBuild.union_computes folds.known addedFolds.known) with
          ⟨result, ran, held, known, cells⟩
        refine .tryBuilt ⟨result, _, ran, unite, held, known, folds.denotes.univ_eq,
          folds.denotes.arity_eq, fun index => ?_⟩
        rw [TupleSet.containsIndex_union, folds.denotes.members, addedFolds.denotes.members,
          cells]
      exact .bind united fun result resultSet resultFolds =>
        hypothesis settles.2 restArities resultFolds

theorem settles_union (sound : setting.Sound) {arity : Nat} {operands : List Expr}
    (settles : ∀ operand ∈ operands, setting.SettlesExpr operand)
    (arities : ∀ operand ∈ operands, operand.arity = arity) :
    setting.SettlesExpr (.union operands arity) := by
  intro grounding inRange
  rw [Expr.compile, Expr.evaluate]
  have sameUniverse : setting.model.univ = setting.univ := sound.realizes.univ
  rw [sameUniverse]
  exact settled_unionFrom settles arities inRange ⟨all_empty _ _,
    Circuit.knowsMatrix_empty setting.start setting.size arity,
    Matrix.Denotes.of_empty setting.univ arity setting.assignment⟩

theorem settles_conditional {γ δ : Type} {means : γ → δ → Prop} {condition : Formula}
    {thenCompiled elseCompiled : Compile γ} {thenEvaluated elseEvaluated : Evaluate δ}
    (choice : Bit → γ → γ → Compile γ) (conditionSettles : setting.SettlesFormula condition)
    (thenSettles : setting.Settles means thenCompiled thenEvaluated)
    (elseSettles : setting.Settles means elseCompiled elseEvaluated) :
    setting.Settles means
      (do
        let bit ← condition.compile setting.leaves setting.range
        match bit.const? with
        | some true => thenCompiled
        | some false => elseCompiled
        | none => do
          let thenResult ← thenCompiled
          let elseResult ← elseCompiled
          choice bit thenResult elseResult)
      (do
        if ← condition.evaluate setting.model setting.range then thenEvaluated
        else elseEvaluated) := by
  intro grounding inRange
  refine .bind (conditionSettles grounding inRange) ?_
  rintro _ truth rfl
  cases truth with
  | true => exact thenSettles grounding inRange
  | false => exact elseSettles grounding inRange

theorem settles_chosenExpr {condition : Formula} {thenExpr elseExpr : Expr} {arity : Nat}
    (thenArity : thenExpr.arity = arity) (elseArity : elseExpr.arity = arity)
    (conditionSettles : setting.SettlesFormula condition)
    (thenSettles : setting.SettlesExpr thenExpr) (elseSettles : setting.SettlesExpr elseExpr) :
    setting.SettlesExpr (.ite condition thenExpr elseExpr arity) := by
  subst thenArity
  intro grounding inRange
  rw [Expr.compile, Expr.evaluate]
  refine .checked (if_pos elseArity.symm) ?_
  unfold SettlesExpr at elseSettles
  rw [elseArity] at elseSettles
  exact settles_conditional
    (fun bit thenMatrix elseMatrix => liftM (Matrix.choice? bit thenMatrix elseMatrix))
    conditionSettles thenSettles elseSettles grounding inRange

theorem settles_cast (sound : setting.Sound) (cast : IntCast) {value : IntExpr}
    (small : setting.size ^ 1 < Index.limit) (settles : setting.SettlesInt value) :
    setting.SettlesExpr (.ofInt cast value) := by
  intro grounding inRange
  rw [Expr.compile, Expr.evaluate]
  refine .bind (settles grounding inRange) fun word number folds => ?_
  have sameUniverse : setting.model.univ = setting.univ := sound.realizes.univ
  have sameSize : setting.model.univ.size = setting.size := by rw [sameUniverse]; rfl
  have atoms : ∀ action : Build Matrix, folded.Keeps setting.start action →
      Build.Yields setting.start action (fun matrix after =>
        after.KnowsMatrix setting.model.univ.size 1 matrix ∧ ∀ assignment,
          matrix.Denotes setting.model.univ 1 assignment ⟨setting.model.univ, 1, .ofList
            (setting.model.castAtoms setting.range cast (word.eval assignment))⟩) →
      Settled (grounding.matrices setting) (grounding.sets setting) setting.start
        (setting.FoldsMatrix 1) (liftM action) (liftM (TupleSet.ofIndices? setting.model.univ 1
          (setting.model.castAtoms setting.range cast number))) := by
    intro action keeps yields
    rcases run_of_folded setting.valid_start keeps yields with ⟨matrix, ran, held, known, denotes⟩
    have denotes := denotes setting.assignment
    rw [folds.value] at denotes
    rw [sameUniverse] at denotes known ⊢
    refine .built ⟨matrix, _, ran, TupleSet.ofIndices?_of_capacity
      (Index.capacity_of_lt sound.positive small) fun atom member => ?_, held, known, denotes⟩
    have bounded := sound.atomsInRange.castAtoms_lt member
    rwa [sameUniverse, ← pow_one setting.univ.size] at bounded
  cases cast with
  | value =>
      exact atoms _ (closed_folded.valueAtoms folds.folded) (.weaken (Build.valueAtoms_yields
        sound.realizes.univ sound.realizes.intAtoms folds.known folds.width)
        fun _ _ _ made => ⟨made.2.1 sound.atomsInRange, made.2.2⟩)
  | bitset =>
      exact atoms _ (closed_folded.bitAtoms folds.folded) (.weaken (Build.bitAtoms_yields
        sound.realizes.univ sound.realizes.intAtoms folds.known folds.width)
        fun _ _ _ made => ⟨made.2.1 sound.atomsInRange, made.2.2⟩)

end Setting

end ModelFinder
