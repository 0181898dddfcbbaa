import Mathlib
import ModelFinder.Proofs.Circuit.Dimensions.Words
import ModelFinder.Proofs.Circuit.Matrix.Join
/-!
Dimensions of matrices. Operations on matrices of fitting dimensions give matrices of the expected
dimensions that store no false cell and no cell out of range. If the tuples of operands and result
can be counted, they do not fail.
-/

namespace ModelFinder

/-- A matrix over a number of atoms and of an arity, whose stored cells belong to tuples and are
not constantly false. -/
structure Matrix.Shaped (size arity : Nat) (matrix : Matrix) : Prop where
  universeSize_eq : matrix.universeSize = size
  arity_eq : matrix.arity = arity
  stored : ∀ {index : Nat} {bit : Bit}, matrix.cells[index]? = Option.some bit →
    index < size ^ arity ∧ bit.isFalse = false

namespace Matrix.Shaped

variable {size arity : Nat} {matrix : Matrix}

theorem lt_of_mem (shaped : matrix.Shaped size arity) {entry : Nat × Bit}
    (member : entry ∈ matrix.entries) : entry.1 < size ^ arity :=
  (shaped.stored (Matrix.mem_entries.mp member)).1

theorem empty (size arity : Nat) : (Matrix.empty size arity).Shaped size arity :=
  ⟨rfl, rfl, fun found => by simp [Matrix.empty] at found⟩

theorem set (shaped : matrix.Shaped size arity) {index : Nat} (inRange : index < size ^ arity)
    (value : Bit) : (matrix.set index value).Shaped size arity := by
  refine ⟨shaped.universeSize_eq, shaped.arity_eq, fun found => ?_⟩
  rw [Matrix.getElem?_set] at found
  split at found
  · rename_i same
    split at found
    · cases found
    · rename_i notFalse
      cases found
      exact ⟨same ▸ inRange, Bool.eq_false_iff.mpr notFalse⟩
  · exact shaped.stored found

theorem constant {indices : List Nat} (inRange : ∀ index ∈ indices, index < size ^ arity) :
    (Matrix.constant size arity indices).Shaped size arity := by
  refine ⟨rfl, rfl, fun found => ?_⟩
  rw [Matrix.getElem?_constant] at found
  split at found
  · rename_i member
    cases found
    exact ⟨inRange _ member, rfl⟩
  · cases found

theorem cleared (shaped : matrix.Shaped size arity) :
    (Matrix.empty matrix.universeSize matrix.arity).Shaped size arity := by
  rw [shaped.universeSize_eq, shaped.arity_eq]
  exact .empty size arity

theorem setAll (shaped : matrix.Shaped size arity) {entries : List (Nat × Bit)}
    (inRange : ∀ entry ∈ entries, entry.1 < size ^ arity) :
    (entries.foldl (fun matrix entry => matrix.set entry.1 entry.2) matrix).Shaped size arity := by
  induction entries generalizing matrix with
  | nil => exact shaped
  | cons entry rest hypothesis =>
      rw [List.forall_mem_cons] at inRange
      exact hypothesis (shaped.set inRange.1 entry.2) inRange.2

end Matrix.Shaped

theorem Matrix.lt_of_mem_grouped {limit : Nat} {entries : List (Nat × Bit)}
    (inRange : ∀ entry ∈ entries, entry.1 < limit) {group : Nat × List Bit}
    (member : group ∈ Matrix.grouped entries) : group.1 < limit := by
  rcases List.mem_map.mp (Matrix.mem_grouped_keys.mp (List.mem_map_of_mem member)) with
    ⟨entry, entryMember, same⟩
  exact same ▸ inRange entry entryMember

/-! Operations -/

namespace Build.Ensures

variable {width size arity : Nat} {matrix : Matrix}

theorem setEach {compute : Matrix → Nat → Bit → Build Bit} {entries : List (Nat × Bit)}
    (repeats : ∀ matrix index value, Build.Repeats (compute matrix index value))
    (shaped : matrix.Shaped size arity) (inRange : ∀ entry ∈ entries, entry.1 < size ^ arity) :
    Ensures width (matrix.setEach compute entries) (Matrix.Shaped size arity) := by
  induction entries generalizing matrix with
  | nil => exact pure shaped
  | cons entry rest hypothesis =>
      rw [List.forall_mem_cons] at inRange
      exact bind (of_repeats (repeats _ _ _)) fun value _ =>
        hypothesis (shaped.set inRange.1 value) inRange.2

theorem collected {conditions : List (Nat × Bit)}
    (inRange : ∀ condition ∈ conditions, condition.1 < size ^ arity) :
    Ensures width ((Matrix.grouped conditions).mapM fun group => do
        return (group.1, ← Build.any group.2)) fun entries =>
      ∀ entry ∈ entries, entry.1 < size ^ arity :=
  weaken (mapM fun _ member => map (of_repeats (.any _)) fun _ _ =>
    Matrix.lt_of_mem_grouped inRange member) fun _ => And.right

end Build.Ensures

namespace TryBuild.Ensures

variable {width size arity : Nat} {safe : Prop} {left right : Matrix}

section

variable (leftShaped : left.Shaped size arity) (rightShaped : right.Shaped size arity)

include leftShaped rightShaped

theorem compatible {α : Type} {next : TryBuild α} {post : α → Prop}
    (ensures : Ensures width safe next post) :
    Ensures width safe (do left.compatible? right; next) post := by
  have same : left.compatible? right = .ok () :=
    if_pos ⟨leftShaped.universeSize_eq.trans rightShaped.universeSize_eq.symm,
      leftShaped.arity_eq.trans rightShaped.arity_eq.symm⟩
  rw [same]
  exact ensures

theorem union : Ensures width safe (left.union? right) (Matrix.Shaped size arity) :=
  compatible leftShaped rightShaped (lift (.setEach (fun _ _ _ => .or _ _) leftShaped
    fun _ => rightShaped.lt_of_mem))

theorem intersection : Ensures width safe (left.intersection? right) (Matrix.Shaped size arity) :=
  compatible leftShaped rightShaped (lift (.setEach (fun _ _ _ => .and _ _)
    leftShaped.cleared
    fun _ member => leftShaped.lt_of_mem (List.mem_of_mem_filter member)))

theorem difference : Ensures width safe (left.difference? right) (Matrix.Shaped size arity) :=
  compatible leftShaped rightShaped (lift (.setEach
    (fun _ _ _ => .bind (.not _) fun _ => .and _ _) leftShaped.cleared
    fun _ => leftShaped.lt_of_mem))

theorem choice (condition : Bit) :
    Ensures width safe (Matrix.choice? condition left right) (Matrix.Shaped size arity) := by
  refine compatible leftShaped rightShaped ?_
  split
  · rename_i value _
    cases value with
    | true => exact pure leftShaped
    | false => exact pure rightShaped
  · refine bind (lift (.setEach (fun _ _ _ => .ite _ _ _) leftShaped.cleared
      fun _ => leftShaped.lt_of_mem)) fun result shaped => ?_
    exact lift (.setEach (fun _ _ _ => .ite _ _ _) shaped
      fun _ member => rightShaped.lt_of_mem (List.mem_of_mem_filter member))

theorem subset : Ensures width safe (left.subset? right) fun _ => True :=
  compatible leftShaped rightShaped (bind (mapM fun _ _ => lift (.of_repeats (.implies _ _)))
    fun _ _ => lift (.of_repeats (.all _)))

theorem equals : Ensures width safe (left.equals? right) fun _ => True :=
  bind (subset leftShaped rightShaped) fun _ _ => bind (subset rightShaped leftShaped) fun _ _ =>
    lift (.of_repeats (.and _ _))

end

/-! Joins and products -/

section

variable {before rest after : Nat}

theorem joinRow {length first : Nat} {value : Bit} {continuing : List (Nat × Bit)}
    (positive : 0 < size) (some : 0 < length) (short : length ≤ size ^ rest)
    (inRange : first < size ^ (before + 1))
    (counted : safe → size ^ (before + rest) ≤ Index.limit) :
    Ensures width safe (Matrix.joinRow? size length first value continuing) fun row =>
      ∀ entry ∈ row, entry.1 < size ^ (before + rest) := by
  induction continuing with
  | nil => exact pure (List.forall_mem_nil _)
  | cons entry others hypothesis =>
      refine bind (lift (.of_repeats (.and _ _))) fun both _ => ?_
      split
      · exact hypothesis
      · have joined : Index.joined size length first entry.1 < size ^ (before + rest) :=
          Index.joined_lt_of_le positive some short inRange
        refine bind (except (Index.meets_word joined counted)) fun index indexInRange => ?_
        exact map hypothesis fun row rowInRange =>
          List.forall_mem_cons.mpr ⟨indexInRange, rowInRange⟩

theorem joinRows {length : Nat} {others entries : List (Nat × Bit)} (positive : 0 < size)
    (joinable : safe → Index.Joinable size before rest) (some : 0 < length)
    (short : length ≤ size ^ rest) (isPower : safe → length = size ^ rest)
    (inRange : ∀ entry ∈ entries, entry.1 < size ^ (before + 1)) :
    Ensures width safe (Matrix.joinRows? size length (Index.rows Prod.fst length others) entries)
      fun rows => ∀ entry ∈ rows, entry.1 < size ^ (before + rest) := by
  induction entries with
  | nil => exact pure (List.forall_mem_nil _)
  | cons entry further hypothesis =>
      rw [List.forall_mem_cons] at inRange
      rw [Matrix.joinRows?, if_neg positive.ne']
      refine bind (except (Index.Joinable.meets_matching positive joinable isPower)) fun row _ => ?_
      refine bind (joinRow positive some short inRange.1 fun isSafe =>
        (joinable isSafe).result.le) fun joined joinedInRange => ?_
      exact map (hypothesis inRange.2) fun rows rowsInRange =>
        List.forall_mem_append.mpr ⟨joinedInRange, rowsInRange⟩

theorem joinedColumns (joinable : safe → Index.Joinable size before rest) :
    Meets safe (· = before + rest) (Index.joinedColumns (before + 1) (rest + 1)) := by
  refine (Index.Joinable.meets_columns joinable).bind fun both same => ?_
  rw [if_neg (by omega)]
  change both - 2 = _
  omega

theorem join (positive : 0 < size) (leftShaped : left.Shaped size (before + 1))
    (rightShaped : right.Shaped size (rest + 1))
    (joinable : safe → Index.Joinable size before rest) :
    Ensures width safe (left.join? right) (Matrix.Shaped size (before + rest)) := by
  rw [Matrix.join?, leftShaped.arity_eq, rightShaped.arity_eq, leftShaped.universeSize_eq]
  refine bind (except (joinedColumns joinable)) fun columns same => ?_
  subst same
  split
  · exact pure (.empty size _)
  · refine bind (except (Index.Joinable.meets_rowLength positive joinable)) fun length bounds => ?_
    refine bind (joinRows positive joinable bounds.1 bounds.2.1 bounds.2.2 fun _ =>
      leftShaped.lt_of_mem) fun products inRange => ?_
    have lt (group : Nat × List Bit) (member : group ∈ Matrix.grouped products) :
        Ensures width safe (do return (group.1, ← (Build.any group.2 : Build Bit)))
          fun entry => entry.1 < size ^ (before + rest) :=
      map (lift (.of_repeats (.any _))) fun _ _ => Matrix.lt_of_mem_grouped inRange member
    exact map (mapM lt) fun combined combinedInRange =>
      (Matrix.Shaped.empty size _).setAll combinedInRange

theorem productRow {counted first : Nat} {value : Bit} {continuing : List (Nat × Bit)}
    (short : counted ≤ size ^ after) (firstInRange : first < size ^ before)
    (inRange : ∀ entry ∈ continuing, entry.1 < size ^ after)
    (small : safe → size ^ (before + after) ≤ Index.limit) :
    Ensures width safe (Matrix.productRow? counted first value continuing) fun row =>
      ∀ entry ∈ row, entry.1 < size ^ (before + after) := by
  induction continuing with
  | nil => exact pure (List.forall_mem_nil _)
  | cons entry others hypothesis =>
      rw [List.forall_mem_cons] at inRange
      have continued := Index.continued_lt_of_le short firstInRange inRange.1
      refine bind (except (Index.meets_word continued small)) fun index indexInRange => ?_
      refine bind (lift (.of_repeats (.and _ _))) fun both _ => ?_
      exact map (hypothesis inRange.2) fun row rowInRange =>
        List.forall_mem_cons.mpr ⟨indexInRange, rowInRange⟩

theorem product (positive : 0 < size) (leftShaped : left.Shaped size before)
    (rightShaped : right.Shaped size after)
    (continuable : safe → Index.Continuable size before after) :
    Ensures width safe (left.product? right) (Matrix.Shaped size (before + after)) := by
  rw [Matrix.product?, leftShaped.arity_eq, rightShaped.arity_eq, leftShaped.universeSize_eq,
    rightShaped.universeSize_eq]
  refine bind (except (Index.Continuable.meets_columns continuable)) fun columns same => ?_
  subst same
  refine bind (except (Index.Continuable.meets_capacity positive continuable))
    fun counted short => ?_
  refine map (mapM fun entry member => productRow short (leftShaped.lt_of_mem member)
    (fun _ => rightShaped.lt_of_mem) fun isSafe => (continuable isSafe).result.le)
    fun rows inRange => (Matrix.Shaped.empty size _).setAll fun entry member => ?_
  rcases List.mem_flatten.mp member with ⟨row, rowMember, inRow⟩
  exact inRange row rowMember entry inRow

end

end TryBuild.Ensures

end ModelFinder
