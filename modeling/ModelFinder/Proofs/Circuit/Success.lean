import Mathlib
import ModelFinder.Proofs.Circuit.Closure.Matrices
import ModelFinder.Proofs.Index
/-!
Operations that do not fail. An operation on matrices or words is refused where dimensions
differ or positions cannot be counted; operands of matching dimensions with countable tuples are
never refused.
-/

namespace ModelFinder

/-- From a circuit on, a computation has a result. -/
def TryBuild.Succeeds {α : Type} (circuit : Circuit) (action : TryBuild α) : Prop :=
  ∃ value, (action.run circuit).1 = .ok value

namespace TryBuild.Succeeds

variable {α β : Type} {circuit : Circuit}

theorem pure (value : α) : Succeeds circuit (Pure.pure value) := ⟨value, rfl⟩

theorem lift (action : Build α) : Succeeds circuit (liftM action) := ⟨(action circuit).1, rfl⟩

theorem except {outcome : Except Error α} {value : α} (same : outcome = .ok value) :
    Succeeds circuit (liftM outcome) := ⟨value, same⟩

theorem bind {action : TryBuild α} {next : α → TryBuild β} (first : Succeeds circuit action)
    (second : ∀ value after, Succeeds after (next value)) : Succeeds circuit (action >>= next) := by
  rcases first with ⟨value, ran⟩
  have unfolded : (action >>= next).run circuit =
      (ExceptT.bindCont next (action.run circuit).1).run (action.run circuit).2 := rfl
  rw [Succeeds, unfolded, ran]
  exact second value _

theorem exceptBind {outcome : Except Error α} {value : α} {next : α → TryBuild β}
    (same : outcome = .ok value) (second : Succeeds circuit (next value)) :
    Succeeds circuit (liftM outcome >>= next) := by
  subst same
  exact second

theorem mapM {γ : Type} {elements : List γ} {action : γ → TryBuild α}
    (each : ∀ element ∈ elements, ∀ after, Succeeds after (action element)) :
    Succeeds circuit (elements.mapM action) := by
  induction elements generalizing circuit with
  | nil => exact pure []
  | cons element rest hypothesis =>
      rw [List.forall_mem_cons] at each
      rw [List.mapM_cons]
      exact bind (each.1 circuit) fun _ _ => bind (hypothesis each.2) fun _ _ => pure _

/-! Cell by cell -/

variable {left right : Matrix}

theorem compatible {next : TryBuild α} (sameSize : left.universeSize = right.universeSize)
    (sameArity : left.arity = right.arity) (succeeds : Succeeds circuit next) :
    Succeeds circuit (do left.compatible? right; next) :=
  exceptBind (if_pos ⟨sameSize, sameArity⟩) succeeds

section

variable (sameSize : left.universeSize = right.universeSize) (sameArity : left.arity = right.arity)

include sameSize sameArity

theorem union : Succeeds circuit (left.union? right) :=
  compatible sameSize sameArity (lift _)

theorem intersection : Succeeds circuit (left.intersection? right) :=
  compatible sameSize sameArity (lift _)

theorem difference : Succeeds circuit (left.difference? right) :=
  compatible sameSize sameArity (lift _)

theorem choice (condition : Bit) : Succeeds circuit (Matrix.choice? condition left right) := by
  refine compatible sameSize sameArity ?_
  split
  · exact pure _
  · exact bind (lift _) fun _ _ => lift _

theorem subset : Succeeds circuit (left.subset? right) :=
  compatible sameSize sameArity (bind (mapM fun _ _ _ => lift _) fun _ _ => lift _)

theorem equals : Succeeds circuit (left.equals? right) :=
  bind (subset sameSize sameArity) fun _ _ =>
    bind (subset sameSize.symm sameArity.symm) fun _ _ => lift _

end

/-! Joins and products -/

section

variable {size before rest : Nat}

theorem joinRow {first : Nat} {value : Bit} {continuing : List (Nat × Bit)}
    (positive : 0 < size) (small : size ^ (before + rest) < Index.limit)
    (firstInRange : first < size ^ (before + 1)) :
    Succeeds circuit (Matrix.joinRow? size (size ^ rest) first value continuing) := by
  induction continuing generalizing circuit with
  | nil => exact pure []
  | cons entry others hypothesis =>
      refine bind (lift _) fun both after => ?_
      split
      · exact hypothesis
      · have inRange := @Index.joined_lt size before rest first entry.1 positive firstInRange
        exact exceptBind (Index.word_of_lt (inRange.trans small))
          (bind hypothesis fun _ _ => pure _)

theorem joinRows {entries others : List (Nat × Bit)} (positive : 0 < size)
    (joinable : Index.Joinable size before rest)
    (inRange : ∀ entry ∈ entries, entry.1 < size ^ (before + 1)) :
    Succeeds circuit (Matrix.joinRows? size (size ^ rest)
      (Index.rows Prod.fst (size ^ rest) others) entries) := by
  induction entries generalizing circuit with
  | nil => exact pure []
  | cons entry further hypothesis =>
      rw [List.forall_mem_cons] at inRange
      rw [Matrix.joinRows?, if_neg positive.ne']
      refine exceptBind (Index.matching?_of_lt Prod.fst others joinable.right positive) ?_
      exact bind (joinRow positive joinable.result inRange.1) fun _ _ =>
        bind (hypothesis inRange.2) fun _ _ => pure _

theorem join (positive : 0 < size) (joinable : Index.Joinable size before rest)
    (leftKnown : circuit.KnowsMatrix size (before + 1) left)
    (rightKnown : circuit.KnowsMatrix size (rest + 1) right) :
    Succeeds circuit (left.join? right) := by
  have columns : Index.joinedColumns left.arity right.arity = .ok (before + rest) := by
    rw [leftKnown.arity_eq, rightKnown.arity_eq, Index.joinedColumns, joinable.columns]
    change (if _ then _ else _) = _
    rw [if_neg (by omega)]
    congr 1
    omega
  refine exceptBind columns ?_
  rw [leftKnown.universeSize_eq, rightKnown.arity_eq]
  dsimp only
  split
  · exact pure _
  · refine exceptBind (joinable.rowLength_eq positive) ?_
    refine bind (joinRows positive joinable fun entry member =>
      leftKnown.lt_of_mem member) fun products after => ?_
    exact bind (mapM fun group _ _ => bind (lift _) fun _ _ => pure _) fun _ _ => pure _

theorem productRow {first : Nat} {value : Bit} {continuing : List (Nat × Bit)}
    (small : size ^ (before + rest) < Index.limit) (firstInRange : first < size ^ before)
    (inRange : ∀ entry ∈ continuing, entry.1 < size ^ rest) :
    Succeeds circuit (Matrix.productRow? (size ^ rest) first value continuing) := by
  induction continuing generalizing circuit with
  | nil => exact pure []
  | cons entry others hypothesis =>
      rw [List.forall_mem_cons] at inRange
      have continued := Index.continued_lt firstInRange inRange.1
      refine exceptBind (Index.word_of_lt (continued.trans small)) ?_
      exact bind (lift _) fun _ _ => bind (hypothesis inRange.2) fun _ _ => pure _

theorem product (positive : 0 < size) (continuable : Index.Continuable size before rest)
    (leftKnown : circuit.KnowsMatrix size before left)
    (rightKnown : circuit.KnowsMatrix size rest right) :
    Succeeds circuit (left.product? right) := by
  have columns : Index.columns left.arity right.arity = .ok (before + rest) := by
    rw [leftKnown.arity_eq, rightKnown.arity_eq]
    exact continuable.columns
  have capacity : Index.capacity right.universeSize right.arity = .ok (size ^ rest) := by
    rw [rightKnown.universeSize_eq, rightKnown.arity_eq]
    exact Index.capacity_of_lt positive continuable.right
  refine exceptBind columns (exceptBind capacity ?_)
  refine bind (mapM fun entry member _ => ?_) fun _ _ => pure _
  exact productRow continuable.result (leftKnown.lt_of_mem member) fun other otherMember =>
    rightKnown.lt_of_mem otherMember

end

/-! Sums -/

theorem addNeighbours_ne_nil {words : List Word} (some : words ≠ []) (circuit : Circuit) :
    (Word.addNeighbours words circuit).1 ≠ [] := by
  match words, some with
  | [only], _ => exact List.cons_ne_nil _ _
  | _ :: _ :: _, _ => exact List.cons_ne_nil _ _

theorem addRounds_ne_nil {rounds : Nat} {words : List Word} (some : words ≠ [])
    (circuit : Circuit) : (Word.addRounds rounds words circuit).1 ≠ [] := by
  fun_induction Word.addRounds rounds words generalizing circuit with
  | case1 rounds left right rest hypothesis =>
      exact hypothesis _ (addNeighbours_ne_nil some circuit) _
  | case2 => exact some

theorem sumAll_run (words : List Word) (circuit : Circuit) :
    (Word.sumAll words).run circuit =
      ((match (Word.addRounds words.length words circuit).1 with
        | sum :: _ => Pure.pure sum
        | [] => do Word.zero? (← get).width : TryBuild Word).run
          (Word.addRounds words.length words circuit).2) :=
  rfl

theorem sumAll {words : List Word} (enough : words ≠ [] ∨ 0 < circuit.width) :
    Succeeds circuit (Word.sumAll words) := by
  cases words with
  | nil =>
      have positive := enough.resolve_left (absurd rfl)
      have bits : List.replicate circuit.width (Bit.const false) ≠ [] := by simpa using positive.ne'
      exact ⟨⟨_, bits⟩, dif_pos bits⟩
  | cons word rest =>
      have some := @addRounds_ne_nil (word :: rest).length _ (List.cons_ne_nil word rest) circuit
      obtain ⟨sum, others, made⟩ := List.exists_cons_of_ne_nil some
      refine ⟨sum, ?_⟩
      rw [sumAll_run, made]
      rfl

theorem popcount {matrix : Matrix} (positive : 0 < circuit.width) :
    Succeeds circuit matrix.popcount := by
  rcases Nat.exists_eq_add_one_of_ne_zero positive.ne' with ⟨rest, width⟩
  have ones : ∀ bit, Word.ofBit? bit circuit.width =
      .ok ⟨bit :: List.replicate rest (.const false), List.cons_ne_nil _ _⟩ := by
    intro bit
    rw [width]
    rfl
  change Succeeds circuit (matrix.values.mapM (fun bit =>
    (liftM (Word.ofBit? bit circuit.width) : TryBuild Word)) >>= Word.sumAll)
  cases matrix.values with
  | nil => exact @sumAll circuit [] (.inr positive)
  | cons first others =>
      rw [List.mapM_cons]
      simp only [bind_assoc, pure_bind]
      refine bind (except (ones first)) fun word _ => ?_
      refine bind (mapM fun bit _ _ => except (ones bit)) fun words _ => ?_
      exact sumAll (.inl (List.cons_ne_nil _ _))

end TryBuild.Succeeds

end ModelFinder
