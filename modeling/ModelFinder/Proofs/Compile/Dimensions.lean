import Mathlib
import ModelFinder.Proofs.Circuit.Dimensions.Matrices
import ModelFinder.Proofs.Compile.Repetition
import ModelFinder.Proofs.Leaves
import ModelFinder.Proofs.Syntax.Formation
/-!
Compilation respects declared arities. A formed expression compiles to a matrix over the universe
and of its arity, if it compiles; words are no wider than machine integers. If, besides, all tuples
can be counted, no assertion about dimensions, positions or widths is broken on the way.
-/

namespace ModelFinder

/-! Leaves -/

structure Leaves.Shaped (size : Nat) (leaves : Leaves) : Prop where
  positive : 0 < size
  universeSize_eq : leaves.universeSize = size
  relation : ∀ {leaf : Relation} {matrix : Matrix}, leaves.relationMatrix? leaf = .ok matrix →
    matrix.Shaped size leaf.arity
  atom_lt : ∀ {value : Int} {atom : Nat}, leaves.bounds.intAtom? value = some atom → atom < size

namespace RelationBound

theorem Sound.shaped_matrix {univ : Universe} {bound : RelationBound} (sound : bound.Sound univ)
    (inRange : bound.upper.InRange) (allocation : Allocation) :
    (bound.matrix univ.size allocation).Shaped univ.size bound.relation.arity := by
  have certain : (Matrix.constant univ.size bound.relation.arity bound.lower.toList).Shaped
      univ.size bound.relation.arity :=
    .constant fun index member =>
      sound.index_lt inRange (sound.subset index (TupleSet.mem_toList.mp member))
  have openInRange : ∀ entry ∈ (bound.openTuples allocation).map fun entry =>
      (entry.1, Bit.var entry.2), entry.1 < univ.size ^ bound.relation.arity := by
    intro entry member
    rcases List.mem_map.mp member with ⟨tuple, openMember, rfl⟩
    have uncertain := mem_uncertain.mp (List.of_mem_zip openMember).1
    exact sound.index_lt inRange uncertain.1
  have shaped := certain.setAll openInRange
  rw [List.foldl_map] at shaped
  exact shaped

end RelationBound

theorem Leaves.shaped {bounds : Bounds} {leaves : Leaves} (sound : bounds.Sound)
    (inRange : bounds.InRange) (allocated : ofBounds? bounds = .ok leaves) :
    leaves.Shaped bounds.univ.size := by
  have same : leaves.bounds = bounds := (of_ofBounds? allocated).1
  refine ⟨sound.nonempty, congrArg (fun bounds => bounds.univ.size) same, ?_, fun found => ?_⟩
  · intro leaf matrix found
    rw [relationMatrix?_of_ofBounds? allocated] at found
    cases entry : bounds.bound? leaf with
    | none =>
        rw [entry] at found
        cases found
    | some bound =>
        rw [entry] at found
        cases found
        have isLeaf : bound.relation = leaf := by
          have matching := List.find?_some entry
          exact beq_iff_eq.mp matching
        have member := List.mem_of_find?_eq_some entry
        exact isLeaf ▸ (sound.bound bound member).shaped_matrix (inRange.tuples bound member) _
  · rw [same] at found
    exact inRange.atoms found

namespace Leaves.Shaped

variable {size width : Nat} {leaves : Leaves} (shaped : leaves.Shaped size)

include shaped

theorem atom_lt_of_mem {entry : Int × Nat} (member : entry ∈ leaves.bounds.intAtoms.toList) :
    entry.2 < size ^ 1 := by
  rw [pow_one]
  exact shaped.atom_lt (Std.ExtTreeMap.mem_toList_iff_getElem?_eq_some.mp member)

theorem constantMatrix (leaf : SetConstant) :
    (leaves.constantMatrix leaf).Shaped size (Expr.constant leaf).arity := by
  unfold Leaves.constantMatrix
  rw [shaped.universeSize_eq]
  cases leaf with
  | univ =>
      exact .constant fun index member => (List.mem_range.mp member).trans_eq (pow_one size).symm
  | none => exact .empty size 1
  | iden =>
      refine .constant fun index member => ?_
      rcases List.mem_map.mp member with ⟨atom, inRange, rfl⟩
      have below := List.mem_range.mp inRange
      change _ < size ^ 2
      nlinarith
  | ints =>
      refine .constant fun index member => ?_
      rcases List.mem_map.mp member with ⟨entry, bound, rfl⟩
      exact shaped.atom_lt_of_mem bound

/-! Casts -/

theorem atomMatrix {conditions : List (Nat × Bit)}
    (inRange : ∀ condition ∈ conditions, condition.1 < size ^ 1) :
    Build.Ensures width (atomMatrix leaves.universeSize conditions) (Matrix.Shaped size 1) := by
  rw [shaped.universeSize_eq]
  exact .map (.collected inRange) fun _ => (Matrix.Shaped.empty size 1).setAll

theorem valueAtoms (range : IntRange) (word : Word) :
    Build.Ensures width (valueAtoms leaves range word) (Matrix.Shaped size 1) := by
  refine .bind (.mapM fun entry member => .map (.of_repeats (.eq word _)) fun bit _ => ?_)
    fun conditions inRange => shaped.atomMatrix inRange.2
  exact shaped.atom_lt_of_mem (List.mem_of_mem_filter member)

theorem bitAtoms (range : IntRange) (word : Word) :
    Build.Ensures width (bitAtoms leaves range word) (Matrix.Shaped size 1) := by
  refine shaped.atomMatrix fun condition member => ?_
  rw [pow_one]
  rcases List.mem_append.mp member with weight | sign
  · rcases List.mem_filterMap.mp weight with ⟨position, -, found⟩
    rcases Option.map_eq_some_iff.mp found with ⟨atom, bound, rfl⟩
    exact shaped.atom_lt bound
  · rcases List.mem_map.mp sign with ⟨atom, bound, rfl⟩
    exact shaped.atom_lt (Option.mem_toList.mp bound)

end Leaves.Shaped

/-! Judgement -/

/-- In every scope of matrices of fitting dimensions and on every circuit of a width, a
compilation leaves the scope as it was, and its result has a property. If this is promised, it
fails with no broken assertion. -/
def Compile.Ensures {α : Type} (size width : Nat) (safe : Prop) (action : Compile α)
    (post : α → Prop) : Prop :=
  ∀ scope : Scope Matrix, scope.Binds (fun leaf => Matrix.Shaped size leaf.arity) →
    Build.Ensures width (action.run.run scope) fun result =>
      result.2 = scope ∧ Meets safe post result.1

namespace Compile.Ensures

variable {α β γ : Type} {size width : Nat} {safe : Prop}

theorem pure {value : α} {post : α → Prop} (holds : post value) :
    Compile.Ensures size width safe (Pure.pure value) post :=
  fun _ _ => Build.Ensures.pure ⟨rfl, holds⟩

theorem throw {error : Error} {post : α → Prop}
    (reported : safe → error.Reported) :
    Compile.Ensures size width safe (MonadExcept.throw error) post :=
  fun _ _ => Build.Ensures.pure ⟨rfl, reported⟩

theorem except {outcome : Except Error α} {post : α → Prop} (meets : Meets safe post outcome) :
    Compile.Ensures size width safe (liftM outcome) post :=
  fun _ _ => Build.Ensures.pure ⟨rfl, meets⟩

theorem refused {outcome : Except Error β} {error : Error} {next : β → Compile α}
    {post : α → Prop} (same : outcome = .error error)
    (reported : safe → error.Reported) :
    Compile.Ensures size width safe (liftM outcome >>= next) post := by
  subst same
  exact throw reported

theorem getScope : Compile.Ensures size width safe (getThe (Scope Matrix))
    (Scope.Binds fun leaf => Matrix.Shaped size leaf.arity) :=
  fun _ binds => .pure ⟨rfl, binds⟩

theorem build {action : Build α} {post : α → Prop} (ensures : Build.Ensures width action post) :
    Compile.Ensures size width safe (liftM action) post := by
  intro scope _
  change Build.Ensures width (action >>= fun value => Pure.pure (Except.ok value, scope)) _
  exact ensures.bind fun value holds => .pure ⟨rfl, holds⟩

theorem tryBuild {action : TryBuild α} {post : α → Prop}
    (ensures : TryBuild.Ensures width safe action post) :
    Compile.Ensures size width safe (liftM action) post := by
  intro scope _
  change Build.Ensures width (action.run >>= fun outcome => Pure.pure (outcome, scope)) _
  exact Build.Ensures.bind ensures fun outcome meets => .pure ⟨rfl, meets⟩

theorem bind {action : Compile α} {next : α → Compile β} {middle : α → Prop} {post : β → Prop}
    (first : Compile.Ensures size width safe action middle)
    (second : ∀ value, middle value → Compile.Ensures size width safe (next value) post) :
    Compile.Ensures size width safe (action >>= next) post := by
  intro scope binds
  change Build.Ensures width (action.run.run scope >>= fun result =>
    (ExceptT.bindCont next result.1).run result.2) _
  refine (first scope binds).bind fun result holds => ?_
  rcases result with ⟨outcome, left⟩
  rcases holds with ⟨same, meets⟩
  dsimp only at same
  subst same
  cases outcome with
  | error error => exact throw meets left binds
  | ok value => exact second value meets left binds

theorem map {action : Compile α} {transform : α → β} {middle : α → Prop} {post : β → Prop}
    (first : Compile.Ensures size width safe action middle)
    (implies : ∀ value, middle value → post (transform value)) :
    Compile.Ensures size width safe (do return transform (← action)) post :=
  bind first fun value holds => pure (implies value holds)

theorem mapM {elements : List γ} {action : γ → Compile α} {post : α → Prop}
    (each : ∀ element ∈ elements, Compile.Ensures size width safe (action element) post) :
    Compile.Ensures size width safe (elements.mapM action) fun results =>
      ∀ result ∈ results, post result := by
  induction elements with
  | nil => exact pure (List.forall_mem_nil _)
  | cons element rest hypothesis =>
      rw [List.forall_mem_cons] at each
      rw [List.mapM_cons]
      exact bind each.1 fun result holds => map (hypothesis each.2) fun results others =>
        List.forall_mem_cons.mpr ⟨holds, others⟩

theorem binding {declared : Variable} {matrix : Matrix} {action : Compile α} {post : α → Prop}
    (shaped : matrix.Shaped size declared.arity)
    (ensures : Compile.Ensures size width safe action post) :
    Compile.Ensures size width safe (Scope.binding declared matrix action) post := by
  intro scope binds
  change Build.Ensures width (action.run.run (scope.extend declared matrix) >>= fun result =>
    Pure.pure (result.1, result.2.pop)) _
  refine (ensures _ (binds.extend shaped)).bind fun result holds => .pure ⟨?_, holds.2⟩
  dsimp only
  rw [holds.1, Scope.pop_extend]

theorem grounded {domains : List (Variable × Compile Matrix)} {pending : List Bit}
    {visit : List Bit → Compile α} {post : α → Prop}
    (shapes : ∀ domain ∈ domains,
      Compile.Ensures size width safe domain.2 (Matrix.Shaped size domain.1.arity))
    (visits : ∀ memberships, Compile.Ensures size width safe (visit memberships) post) :
    Compile.Ensures size width safe (ground domains pending visit) fun results =>
      ∀ result ∈ results, post result := by
  induction domains generalizing pending with
  | nil =>
      rw [ModelFinder.ground]
      exact map (visits pending) fun _ holds => List.forall_mem_singleton.mpr holds
  | cons domain rest hypothesis =>
      rcases domain with ⟨declared, domain⟩
      rw [List.forall_mem_cons] at shapes
      rw [ModelFinder.ground]
      refine bind shapes.1 fun matrix shaped => ?_
      have single (entry : Nat × Bit) (member : entry ∈ matrix.entries) :
          (Matrix.constant matrix.universeSize matrix.arity [entry.1]).Shaped size
            declared.arity := by
        rw [shaped.universeSize_eq, shaped.arity_eq]
        exact .constant (List.forall_mem_singleton.mpr (shaped.lt_of_mem member))
      refine map (mapM fun entry member => binding (single entry member) (hypothesis shapes.2))
        fun results each result member => ?_
      rcases List.mem_flatten.mp member with ⟨visited, fromEntry, inVisited⟩
      exact each visited fromEntry result inVisited

theorem guarded {body : Compile α} {guard : Bit → α → Build α} {middle post : α → Prop}
    (ensures : Compile.Ensures size width safe body middle)
    (guards : ∀ present value, middle value → Build.Ensures width (guard present value) post)
    (memberships : List Bit) :
    Compile.Ensures size width safe (do
      let value ← body
      let present ← (liftM (Build.all memberships) : Compile Bit)
      (liftM (guard present value) : Compile α)) post :=
  bind ensures fun _ holds => bind (build (.of_repeats (.all memberships))) fun _ _ =>
    build (guards _ _ holds)

theorem gates {action : Build α} (repeats : Build.Repeats action) :
    Compile.Ensures size width safe (liftM action) fun _ => True :=
  build (.of_repeats repeats)

end Compile.Ensures

/-! Operators -/

namespace Build.Ensures

variable {α : Type} {width limit : Nat} {left right operand : Word}

/-- What is only promised need not hold without the promise. -/
theorem promised {safe : Prop} {action : Build α} {post : α → Prop}
    (repeats : Build.Repeats action) (ensures : safe → Build.Ensures width action post) :
    Build.Ensures width action fun result => safe → post result := by
  by_cases isSafe : safe
  · exact (ensures isSafe).weaken fun _ holds _ => holds
  · exact (of_repeats repeats).weaken fun _ _ holds => absurd holds isSafe

theorem intUnaryOp (op : IntUnaryOp) (narrow : operand.width ≤ limit) :
    Build.Ensures width (op.build operand) fun word => word.width ≤ limit := by
  cases op with
  | negate => exact negate narrow
  | abs => exact abs narrow
  | sgn => exact sgn narrow
  | not => exact wordNot narrow

theorem intOp (op : IntOp) (leftNarrow : left.width ≤ limit) (rightNarrow : right.width ≤ limit) :
    Build.Ensures width (op.build left right) fun word => word.width ≤ limit := by
  cases op with
  | plus => exact plus leftNarrow rightNarrow
  | minus => exact minus leftNarrow rightNarrow
  | multiply => exact multiply leftNarrow
  | divide => exact map (divideWithRemainder leftNarrow rightNarrow) fun _ => And.left
  | modulo => exact map (divideWithRemainder leftNarrow rightNarrow) fun _ => And.right
  | and => exact bitwise .and leftNarrow rightNarrow
  | or => exact bitwise .or leftNarrow rightNarrow
  | xor => exact bitwise .xor leftNarrow rightNarrow
  | shl => exact shift leftNarrow
  | shr => exact shift leftNarrow
  | sha => exact shift leftNarrow

theorem memberInts (leaves : Leaves) (range : IntRange) (matrix : Matrix) :
    Build.Ensures width (memberInts leaves range matrix) fun words =>
      ∀ word ∈ words, word.width ≤ range.bitwidth :=
  (mapM fun entry _ => choice (Word.width_constant entry.1 range.one_le_bitwidth).le
    (Word.width_zero_le le_rfl range.one_le_bitwidth)).weaken fun _ => And.right

end Build.Ensures

section

variable {safe : Prop} {size : Nat}

theorem Word.meets_value {word : Word} (narrow : safe → word.width ≤ 32) :
    Meets safe (fun _ => True) word.value? := by
  refine .of_total (fun _ _ => trivial) fun isSafe => ?_
  have short := narrow isSafe
  have none : (word.bits.map Bit.isTrue).drop 64 = [] := by
    rw [List.drop_eq_nil_iff, List.length_map]
    exact short.trans (by decide)
  rw [value?]
  split
  · exact ⟨_, rfl⟩
  · dsimp only
    rw [none, if_neg (by rw [Bool.and_eq_true, decide_eq_true_iff]; omega), List.any_nil,
      if_neg Bool.false_ne_true]
    exact ⟨_, rfl⟩

theorem IntOp.meets_admits (op : IntOp) (left right : IntExpr) {word : Word}
    (narrow : safe → word.width ≤ 32) :
    Meets safe (fun _ => True) (op.admits? left right word) := by
  have checked : Meets safe (fun _ => True) (do
      if (← word.value?) == some 0 then throw (.divisionByZero left op right)) := by
    refine (Word.meets_value narrow).bind fun value _ => ?_
    split
    · exact fun _ => trivial
    · exact trivial
  cases op with
  | divide => exact checked
  | modulo => exact checked
  | _ => exact trivial

theorem meets_sameArity {left right : Expr} (same : left.arity = right.arity) :
    Meets safe (fun _ => True) (sameArity? left right) := by
  rw [sameArity?, if_pos same]
  exact trivial

theorem SetOp.meets_admits (op : SetOp) {left right : Expr} {arity : Nat}
    (made : Expr.combine? op left right = .ok (.binary op left right arity)) :
    Meets safe (fun _ => True) (op.admits? left right) := by
  have fitting := Expr.arity_of_combine? made
  have columns := Expr.columns_of_combine? made
  cases op with
  | join =>
      rw [SetOp.admits?, columns (.inl rfl)]
      change Meets safe _ (if _ then _ else _)
      split
      · exact fun _ => trivial
      · exact trivial
  | product => exact trivial
  | union => exact meets_sameArity fitting.1
  | difference => exact meets_sameArity fitting.1
  | intersection => exact meets_sameArity fitting.1

/-- A formed node whose tuples can be counted has operands that its operator does not refuse. -/
theorem TryBuild.Ensures.setOp {width : Nat} (positive : 0 < size) (op : SetOp) {left right : Expr}
    {arity : Nat} (made : Expr.combine? op left right = .ok (.binary op left right arity))
    (leftPositive : 0 < left.arity) (rightPositive : 0 < right.arity)
    (bounded : safe → size ^ arity < Index.limit ∧ size ^ right.arity < Index.limit ∧
      SyntaxCheck.joinable.expr (.binary op left right arity)) {leftMatrix rightMatrix : Matrix}
    (leftShaped : leftMatrix.Shaped size left.arity)
    (rightShaped : rightMatrix.Shaped size right.arity) :
    TryBuild.Ensures width safe (op.build leftMatrix rightMatrix) (Matrix.Shaped size arity) := by
  cases op with
  | join =>
      rcases Expr.joinable_of_combine? made leftPositive rightPositive bounded with
        ⟨before, rest, leftArity, rightArity, rfl, joinable⟩
      rw [leftArity] at leftShaped
      rw [rightArity] at rightShaped
      exact join positive leftShaped rightShaped joinable
  | product =>
      rcases Expr.continuable_of_combine? made bounded with ⟨rfl, continuable⟩
      exact product positive leftShaped rightShaped continuable
  | union =>
      rcases Expr.arity_of_combine? made with ⟨same, rfl⟩
      exact union leftShaped (same ▸ rightShaped)
  | difference =>
      rcases Expr.arity_of_combine? made with ⟨same, rfl⟩
      exact difference leftShaped (same ▸ rightShaped)
  | intersection =>
      rcases Expr.arity_of_combine? made with ⟨same, rfl⟩
      exact intersection leftShaped (same ▸ rightShaped)

end

/-! Terms -/

section

variable {leaves : Leaves} {range : IntRange} {size width : Nat} {safe : Prop}
  (shaped : leaves.Shaped size) (narrow : safe → 0 < width ∧ width ≤ 32)

include shaped narrow

open Compile.Ensures

-- Recursive calls pass the hypotheses of the section on without naming them.
set_option linter.unusedSectionVars false

mutual

theorem Expr.compile_ensures :
    ∀ {expr : Expr}, expr.Every .formed → (safe → expr.Every (.and (.counted size) .joinable)) →
      Compile.Ensures size width safe (expr.compile leaves range) (Matrix.Shaped size expr.arity)
  | .relation leaf, _, _ => by
    rw [Expr.compile]
    refine except ?_
    cases found : leaves.relationMatrix? leaf with
    | ok matrix => exact shaped.relation found
    | error error =>
      rw [Leaves.relationMatrix?] at found
      split at found
      · cases found
        exact fun _ => trivial
      · cases found
  | .variable leaf, _, _ => by
    rw [Expr.compile]
    refine bind getScope fun scope binds => ?_
    split
    · rename_i found
      exact pure (binds _ _ found)
    · exact throw fun _ => trivial
  | .constant leaf, _, _ => by
    rw [Expr.compile]
    exact pure (shaped.constantMatrix leaf)
  | .binary op left right arity, formed, bounded => by
    rw [Expr.compile]
    have leftPositive := Expr.arity_pos id formed.2.1
    have rightPositive := Expr.arity_pos id formed.2.2
    refine bind (except (op.meets_admits formed.1)) fun _ _ => ?_
    refine bind (Expr.compile_ensures formed.2.1 fun isSafe => (bounded isSafe).2.1)
      fun leftMatrix leftShaped => ?_
    refine bind (Expr.compile_ensures formed.2.2 fun isSafe => (bounded isSafe).2.2)
      fun rightMatrix rightShaped => ?_
    exact tryBuild (.setOp shaped.positive op formed.1 leftPositive rightPositive (fun isSafe =>
      ⟨(bounded isSafe).1.1, (bounded isSafe).2.2.root.1, (bounded isSafe).1.2⟩)
      leftShaped rightShaped)
  | .union operands arity, formed, bounded => by
    rw [Expr.compile, shaped.universeSize_eq]
    exact Expr.compileUnion_ensures formed.2 (fun isSafe => (bounded isSafe).2)
      (Expr.arities_of_unionAll? formed.1) (.empty size arity)
  | .ite condition thenExpr elseExpr arity, formed, bounded => by
    rw [Expr.compile]
    rcases Formula.arity_of_choose? formed.1 with ⟨same, rfl⟩
    have thenShapes := Expr.compile_ensures formed.2.2.1
      fun isSafe => (bounded isSafe).2.2.1
    have elseShapes := Expr.compile_ensures formed.2.2.2
      fun isSafe => (bounded isSafe).2.2.2
    rw [← same] at elseShapes
    refine bind (except (meets_sameArity same)) fun _ _ => ?_
    refine bind (Formula.compile_ensures formed.2.1
      fun isSafe => (bounded isSafe).2.1) fun bit _ => ?_
    split
    · exact thenShapes
    · exact elseShapes
    · exact bind thenShapes fun _ thenShaped => bind elseShapes fun _ elseShaped =>
        tryBuild (.choice thenShaped elseShaped bit)
  | .ofInt cast value, formed, bounded => by
    rw [Expr.compile]
    refine bind (IntExpr.compile_ensures formed.2 fun isSafe => (bounded isSafe).2)
      fun word _ => ?_
    cases cast with
    | value => exact build (shaped.valueAtoms range word)
    | bitset => exact build (shaped.bitAtoms range word)

theorem Expr.compileUnion_ensures
    {arity : Nat} {matrix : Matrix} : ∀ {operands : List Expr}, Expr.EveryAll .formed operands →
      (safe → Expr.EveryAll (.and (.counted size) .joinable) operands) →
      (∀ operand ∈ operands, operand.arity = arity) → matrix.Shaped size arity →
      Compile.Ensures size width safe (Expr.compileUnion leaves range arity matrix operands)
        (Matrix.Shaped size arity)
  | [], _, _, _, matrixShaped => by
    rw [Expr.compileUnion]
    exact pure matrixShaped
  | operand :: rest, formed, bounded, arities, matrixShaped => by
    rw [List.forall_mem_cons] at arities
    rw [Expr.compileUnion, if_neg (not_not.mpr arities.1)]
    refine bind (Expr.compile_ensures formed.1 fun isSafe => (bounded isSafe).1)
      fun operandMatrix operandShaped => ?_
    refine bind (tryBuild (.union matrixShaped (arities.1 ▸ operandShaped)))
      fun result resultShaped => ?_
    exact Expr.compileUnion_ensures formed.2 (fun isSafe => (bounded isSafe).2) arities.2
      resultShaped

theorem Formula.compile_ensures :
    ∀ {formula : Formula}, formula.Every .formed →
      (safe → formula.Every (.and (.counted size) .joinable)) →
      Compile.Ensures size width safe (formula.compile leaves range) fun _ => True
  | .literal value, _, _ => by
    rw [Formula.compile]
    exact pure trivial
  | .constant value, _, _ => by
    rw [Formula.compile]
    exact pure trivial
  | .binary op left right, formed, bounded => by
    rw [Formula.compile]
    exact bind (Formula.compile_ensures formed.2.1 fun isSafe => (bounded isSafe).2.1)
      fun _ _ => bind (Formula.compile_ensures formed.2.2
        fun isSafe => (bounded isSafe).2.2) fun _ _ => gates (.connective op _ _)
  | .nary op operands, formed, bounded => by
    rw [Formula.compile]
    refine bind (Formula.compileAll_ensures formed.2 fun isSafe => (bounded isSafe).2)
      fun bits _ => tryBuild ?_
    cases op with
    | and => exact .lift (.of_repeats (.all bits))
    | or => exact .lift (.of_repeats (.any bits))
    | iff => exact .throw fun _ => trivial
    | implies => exact .throw fun _ => trivial
  | .not operand, formed, bounded => by
    rw [Formula.compile]
    exact bind (Formula.compile_ensures formed.2 fun isSafe => (bounded isSafe).2)
      fun _ _ => gates (.not _)
  | .compare op left right, formed, bounded => by
    rw [Formula.compile]
    by_cases same : left.arity = right.arity
    · refine bind (except (meets_sameArity same)) fun _ _ => ?_
      refine bind (Expr.compile_ensures formed.2.1 fun isSafe => (bounded isSafe).2.1)
        fun leftMatrix leftShaped => ?_
      refine bind (Expr.compile_ensures formed.2.2 fun isSafe => (bounded isSafe).2.2)
        fun rightMatrix rightShaped => tryBuild ?_
      rw [← same] at rightShaped
      cases op with
      | equals => exact .equals leftShaped rightShaped
      | subset => exact .subset leftShaped rightShaped
    · exact refused (if_neg same) fun _ => trivial
  | .multiplicity amount operand, formed, bounded => by
    rw [Formula.compile]
    exact bind (Expr.compile_ensures formed.2 fun isSafe => (bounded isSafe).2)
      fun _ _ => gates (.multiplicity amount _)
  | .quantified quantifier declarations body, formed, bounded => by
    have domains := Decl.compileDomains_ensures formed.2.1
      fun isSafe => (bounded isSafe).2.1
    have bodyShapes := Formula.compile_ensures formed.2.2
      fun isSafe => (bounded isSafe).2.2
    rw [Formula.compile.eq_def]
    dsimp only
    cases quantifier with
    | some =>
      exact bind (grounded domains (guarded bodyShapes fun _ _ _ => .of_repeats (.and _ _)))
        fun _ _ => gates (.any _)
    | all =>
      exact bind (grounded domains (guarded bodyShapes fun _ _ _ => .of_repeats (.implies _ _)))
        fun _ _ => gates (.all _)
  | .compareInts op left right, formed, bounded => by
    rw [Formula.compile]
    exact bind (IntExpr.compile_ensures formed.2.1 fun isSafe => (bounded isSafe).2.1)
      fun _ _ => bind (IntExpr.compile_ensures formed.2.2
        fun isSafe => (bounded isSafe).2.2) fun _ _ => gates (.intComparison op _ _)

theorem Formula.compileAll_ensures :
    ∀ {operands : List Formula}, Formula.EveryAll .formed operands →
      (safe → Formula.EveryAll (.and (.counted size) .joinable) operands) →
      Compile.Ensures size width safe (Formula.compileAll leaves range operands) fun _ => True
  | [], _, _ => by
    rw [Formula.compileAll]
    exact pure trivial
  | operand :: rest, formed, bounded => by
    rw [Formula.compileAll]
    exact bind (Formula.compile_ensures formed.1 fun isSafe => (bounded isSafe).1)
      fun _ _ => map (Formula.compileAll_ensures formed.2
        fun isSafe => (bounded isSafe).2) fun _ _ => trivial

theorem IntExpr.compile_ensures :
    ∀ {value : IntExpr}, value.Every .formed →
      (safe → value.Every (.and (.counted size) .joinable)) →
      Compile.Ensures size width safe (value.compile leaves range)
        fun word => safe → word.width ≤ 32
  | .constant value, _, _ => by
    rw [IntExpr.compile]
    exact pure fun _ => (Word.width_constant value range.one_le_bitwidth).trans_le range.bitwidth_le
  | .binary op left right, formed, bounded => by
    rw [IntExpr.compile]
    refine bind (IntExpr.compile_ensures formed.2.1 fun isSafe => (bounded isSafe).2.1)
      fun leftWord leftNarrow => ?_
    refine bind (IntExpr.compile_ensures formed.2.2 fun isSafe => (bounded isSafe).2.2)
      fun rightWord rightNarrow => ?_
    refine bind (except (op.meets_admits left right rightNarrow)) fun _ _ => ?_
    exact build (.promised (.intOp op _ _) fun isSafe =>
      .intOp op (leftNarrow isSafe) (rightNarrow isSafe))
  | .unary op operand, formed, bounded => by
    rw [IntExpr.compile]
    refine bind (IntExpr.compile_ensures formed.2 fun isSafe => (bounded isSafe).2)
      fun word wordNarrow => ?_
    exact build (.promised (.intUnaryOp op _) fun isSafe => .intUnaryOp op (wordNarrow isSafe))
  | .sum operands, formed, bounded => by
    rw [IntExpr.compile]
    refine bind (IntExpr.compileAll_ensures formed.2 fun isSafe => (bounded isSafe).2)
      fun words wordsNarrow => ?_
    exact tryBuild (.sumAll (fun isSafe => (narrow isSafe).1) fun isSafe =>
      ⟨(narrow isSafe).2, fun word member => wordsNarrow word member isSafe⟩)
  | .count operand, formed, bounded => by
    rw [IntExpr.compile]
    exact bind (Expr.compile_ensures formed.2 fun isSafe => (bounded isSafe).2)
      fun _ _ => tryBuild (.popcount (fun isSafe => (narrow isSafe).1)
        fun isSafe => (narrow isSafe).2)
  | .sumOver declarations term, formed, bounded => by
    have domains := Decl.compileDomains_ensures formed.2.1
      fun isSafe => (bounded isSafe).2.1
    have termShapes := IntExpr.compile_ensures formed.2.2 fun isSafe => (bounded isSafe).2.2
    have guards (present : Bit) (word : Word) (wordNarrow : safe → word.width ≤ 32) :
        Build.Ensures width (Word.choice present word (Word.zero range.bitwidth))
          fun chosen => safe → chosen.width ≤ 32 :=
      .promised (.choice _ _ _) fun isSafe => .choice (wordNarrow isSafe)
        (Word.width_zero_le range.bitwidth_le (by decide))
    rw [IntExpr.compile.eq_def]
    dsimp only
    refine bind (grounded domains (guarded termShapes guards)) fun words wordsNarrow => ?_
    exact tryBuild (.sumAll (fun isSafe => (narrow isSafe).1) fun isSafe =>
      ⟨(narrow isSafe).2, fun word member => wordsNarrow word member isSafe⟩)
  | .ite condition thenInt elseInt, formed, bounded => by
    rw [IntExpr.compile]
    have thenShapes := IntExpr.compile_ensures formed.2.2.1
      fun isSafe => (bounded isSafe).2.2.1
    have elseShapes := IntExpr.compile_ensures formed.2.2.2
      fun isSafe => (bounded isSafe).2.2.2
    refine bind (Formula.compile_ensures formed.2.1
      fun isSafe => (bounded isSafe).2.1) fun bit _ => ?_
    split
    · exact thenShapes
    · exact elseShapes
    · exact bind thenShapes fun _ thenNarrow => bind elseShapes fun _ elseNarrow =>
        build (.promised (.choice bit _ _) fun isSafe =>
          .choice (thenNarrow isSafe) (elseNarrow isSafe))
  | .sumOf operand, formed, bounded => by
    rw [IntExpr.compile]
    have summed := bind (Expr.compile_ensures formed.2 fun isSafe => (bounded isSafe).2)
      fun matrix _ => bind (build (.memberInts leaves range matrix)) fun words wordsNarrow =>
        tryBuild (.sumAll (fun isSafe => (narrow isSafe).1) fun isSafe => ⟨(narrow isSafe).2,
          fun word member => (wordsNarrow word member).trans range.bitwidth_le⟩)
    split
    · exact refused rfl fun _ => trivial
    · exact summed

theorem IntExpr.compileAll_ensures :
    ∀ {operands : List IntExpr}, IntExpr.EveryAll .formed operands →
      (safe → IntExpr.EveryAll (.and (.counted size) .joinable) operands) →
      Compile.Ensures size width safe (IntExpr.compileAll leaves range operands)
        fun words => ∀ word ∈ words, safe → word.width ≤ 32
  | [], _, _ => by
    rw [IntExpr.compileAll]
    exact pure (List.forall_mem_nil _)
  | operand :: rest, formed, bounded => by
    rw [IntExpr.compileAll]
    exact bind (IntExpr.compile_ensures formed.1 fun isSafe => (bounded isSafe).1)
      fun _ wordNarrow => map (IntExpr.compileAll_ensures formed.2
        fun isSafe => (bounded isSafe).2) fun _ others =>
          List.forall_mem_cons.mpr ⟨wordNarrow, others⟩

theorem Decl.compileDomains_ensures :
    ∀ {declarations : List Decl}, Decl.EveryAll .formed declarations →
      (safe → Decl.EveryAll (.and (.counted size) .joinable) declarations) →
      ∀ domain ∈ Decl.compileDomains leaves range declarations,
        Compile.Ensures size width safe domain.2 (Matrix.Shaped size domain.1.arity)
  | [], _, _ => by
    rw [Decl.compileDomains]
    exact List.forall_mem_nil _
  | .oneOf declared domain :: rest, formed, bounded => by
    rw [Decl.compileDomains]
    refine List.forall_mem_cons.mpr ⟨?_, Decl.compileDomains_ensures formed.2.2
      fun isSafe => (bounded isSafe).2.2⟩
    rw [Decl.arity_of_oneOf? formed.1]
    exact Expr.compile_ensures formed.2.1 fun isSafe => (bounded isSafe).2.1

end

end

end ModelFinder
