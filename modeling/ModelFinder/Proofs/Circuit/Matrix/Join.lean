import Mathlib
import ModelFinder.Proofs.Index
import ModelFinder.Proofs.Circuit.Matrix.Operations
/-!
Products and joins. Both list conditions for positions of their results: a product has one
condition for every position, and a join collects the conditions of a position in a
disjunction.
-/

namespace ModelFinder

namespace Matrix

def holdsAt (assignment : Nat → Bool) (conditions : List (Nat × Bit)) (index : Nat) : Bool :=
  conditions.any fun condition => condition.1 == index && condition.2.eval assignment

@[simp] theorem holdsAt_nil (assignment : Nat → Bool) (index : Nat) :
    holdsAt assignment [] index = false := rfl

@[simp] theorem holdsAt_cons (assignment : Nat → Bool) (condition : Nat × Bit)
    (conditions : List (Nat × Bit)) (index : Nat) :
    holdsAt assignment (condition :: conditions) index =
      (condition.1 == index && condition.2.eval assignment ||
        holdsAt assignment conditions index) := rfl

@[simp] theorem holdsAt_append (assignment : Nat → Bool) (first second : List (Nat × Bit))
    (index : Nat) :
    holdsAt assignment (first ++ second) index =
      (holdsAt assignment first index || holdsAt assignment second index) :=
  List.any_append

theorem holdsAt_iff {assignment : Nat → Bool} {conditions : List (Nat × Bit)} {index : Nat} :
    holdsAt assignment conditions index = true ↔
      ∃ condition ∈ conditions, condition.1 = index ∧ condition.2.eval assignment = true := by
  simp [holdsAt]

theorem of_mem_grouped {conditions : List (Nat × Bit)} {group : Nat × List Bit}
    (member : group ∈ grouped conditions) :
    group.2 = (conditions.filter fun condition => condition.1 == group.1).map Prod.snd := by
  rcases List.mem_map.mp member with ⟨⟨position, found⟩, foundMember, rfl⟩
  have stored := Std.ExtTreeMap.mem_toList_iff_getElem?_eq_some.mp foundMember
  have look := Grouping.getD_groups Prod.fst conditions position
  rw [Std.ExtTreeMap.getD_eq_getD_getElem?, stored, Option.getD_some] at look
  rw [look]

theorem nodup_grouped (conditions : List (Nat × Bit)) :
    ((grouped conditions).map Prod.fst).Nodup := by
  rw [grouped, List.map_map, List.Nodup, List.pairwise_map]
  exact Std.ExtTreeMap.ordered_keys_toList.imp fun ordered => (compare_lt_iff_lt.mp ordered).ne

private theorem mem_groups_iff {α : Type} (number : α → Nat) (elements : List α) (key : Nat) :
    key ∈ Grouping.groups number elements ↔ key ∈ elements.map number := by
  induction elements with
  | nil => simp [Grouping.groups]
  | cons element rest hypothesis =>
      have step : Grouping.groups number (element :: rest) =
          (Grouping.groups number rest).insert (number element)
            (element :: (Grouping.groups number rest).getD (number element) []) := rfl
      rw [step, Std.ExtTreeMap.mem_insert, hypothesis, compare_eq_iff_eq, List.map_cons,
        List.mem_cons, eq_comm]

theorem mem_grouped_keys {conditions : List (Nat × Bit)} {key : Nat} :
    key ∈ (grouped conditions).map Prod.fst ↔ key ∈ conditions.map Prod.fst := by
  rw [grouped, List.map_map]
  change key ∈ (Grouping.groups Prod.fst conditions).toList.map Prod.fst ↔ _
  rw [Std.ExtTreeMap.map_fst_toList_eq_keys, Std.ExtTreeMap.mem_keys, mem_groups_iff]

theorem any_of_mem_grouped {conditions : List (Nat × Bit)} {group : Nat × List Bit}
    (member : group ∈ grouped conditions) (assignment : Nat → Bool) :
    group.2.any (Bit.eval assignment) = holdsAt assignment conditions group.1 := by
  rw [of_mem_grouped member, List.any_map, List.any_filter]
  rfl

end Matrix

namespace Build

variable {circuit : Circuit} {size arity : Nat}

theorem conditions_yields {β : Type} {elements : List β} {position : β → Nat}
    {action : β → Build Bit} {value : β → (Nat → Bool) → Bool}
    (each : ∀ element ∈ elements, ∀ after, circuit.Extends after →
      Computes after (action element) (value element)) :
    Yields circuit (elements.mapM fun element => do return (position element, ← action element))
      fun conditions after => (∀ condition ∈ conditions, after.Knows condition.2) ∧
        ∀ assignment, (conditions.map fun condition =>
            (condition.1, condition.2.eval assignment)) =
          elements.map fun element => (position element, value element assignment) := by
  induction elements generalizing circuit with
  | nil => exact Yields.pure ⟨by simp, fun _ => rfl⟩
  | cons element rest hypothesis =>
      rw [List.forall_mem_cons] at each
      rw [List.mapM_cons, bind_assoc]
      refine Yields.bind (each.1 circuit (.refl circuit)) fun bit middle grown made => ?_
      rw [pure_bind]
      have later := hypothesis fun other member after grownAgain =>
        each.2 other member after (grown.trans grownAgain)
      refine Yields.bind later fun conditions after grownAgain madeAll => Yields.pure ⟨?_, ?_⟩
      · exact List.forall_mem_cons.mpr ⟨made.1.mono grownAgain, madeAll.1⟩
      · intro assignment
        rw [List.map_cons, madeAll.2, List.map_cons, made.2]

/-- A matrix made of conditions for positions: a cell holds where one of the conditions of its
position does. -/
theorem collected_yields {conditions : List (Nat × Bit)}
    (known : ∀ condition ∈ conditions, circuit.Knows condition.2)
    (inRange : ∀ condition ∈ conditions, condition.1 < size ^ arity) :
    Yields circuit (do
        let combined ← (Matrix.grouped conditions).mapM
          fun group => do return (group.1, ← Build.any group.2)
        return combined.foldl (fun matrix entry => matrix.set entry.1 entry.2)
          (Matrix.empty size arity))
      fun matrix after => after.KnowsMatrix size arity matrix ∧ ∀ assignment index,
        (matrix.cell index).eval assignment =
          Matrix.holdsAt assignment conditions index := by
  have groupsKnown : ∀ group ∈ Matrix.grouped conditions, circuit.KnowsAll group.2 := by
    intro group member bit bitMember
    rw [Matrix.of_mem_grouped member] at bitMember
    rcases List.mem_map.mp bitMember with ⟨condition, found, rfl⟩
    exact known condition (List.mem_of_mem_filter found)
  have disjunctions := fun group member after (grown : circuit.Extends after) =>
    any_computes fun bit bitMember => (groupsKnown group member bit bitMember).mono grown
  refine Yields.bind (conditions_yields disjunctions) fun entries middle grown made => ?_
  rcases made with ⟨entriesKnown, values⟩
  have origin : ∀ entry ∈ entries, ∀ assignment, ∃ group ∈ Matrix.grouped conditions,
      group.1 = entry.1 ∧ group.2.any (Bit.eval assignment) = entry.2.eval assignment := by
    intro entry member assignment
    have listed : (entry.1, entry.2.eval assignment) ∈
        entries.map fun entry => (entry.1, entry.2.eval assignment) :=
      List.mem_map.mpr ⟨entry, member, rfl⟩
    rw [values assignment] at listed
    rcases List.mem_map.mp listed with ⟨group, groupMember, same⟩
    exact ⟨group, groupMember, congrArg Prod.fst same, congrArg Prod.snd same⟩
  have keys : entries.map Prod.fst = (Matrix.grouped conditions).map Prod.fst := by
    have same := congrArg (List.map Prod.fst) (values fun _ => false)
    rw [List.map_map, List.map_map] at same
    exact same
  have entriesInRange : ∀ entry ∈ entries, entry.1 < size ^ arity := by
    intro entry member
    have listed : entry.1 ∈ entries.map Prod.fst := List.mem_map_of_mem member
    rw [keys, Matrix.mem_grouped_keys] at listed
    rcases List.mem_map.mp listed with ⟨condition, conditionMember, same⟩
    exact same ▸ inRange condition conditionMember
  have distinct : (entries.map Prod.fst).Nodup := keys ▸ Matrix.nodup_grouped conditions
  refine Yields.weaken (setAll_yields (Circuit.knowsMatrix_empty middle size arity) distinct
    entriesInRange entriesKnown) fun matrix after _ made => ⟨made.1, fun assignment index => ?_⟩
  by_cases member : index ∈ entries.map Prod.fst
  · rcases List.mem_map.mp member with ⟨entry, entryMember, rfl⟩
    rcases origin entry entryMember assignment with ⟨group, groupMember, same, value⟩
    rw [made.2.1 entry entryMember, ← value, Matrix.any_of_mem_grouped groupMember, same]
  · rw [made.2.2 index member, Matrix.cell_empty, Bit.eval, eq_comm, Bool.eq_false_iff]
    intro holds
    rcases Matrix.holdsAt_iff.mp holds with ⟨condition, conditionMember, rfl, -⟩
    rw [keys, Matrix.mem_grouped_keys] at member
    exact member (List.mem_map_of_mem conditionMember)

/-- Its cells hold in this way even if it has no room for their positions. -/
theorem collected_yields_cells {conditions : List (Nat × Bit)}
    (known : ∀ condition ∈ conditions, circuit.Knows condition.2) :
    Yields circuit (do
        let combined ← (Matrix.grouped conditions).mapM
          fun group => do return (group.1, ← Build.any group.2)
        return combined.foldl (fun matrix entry => matrix.set entry.1 entry.2)
          (Matrix.empty size arity))
      fun matrix after => (∀ index, after.Knows (matrix.cell index)) ∧ ∀ assignment index,
        (matrix.cell index).eval assignment = Matrix.holdsAt assignment conditions index := by
  intro valid
  -- the same cells, in a matrix that is large enough
  let room := (conditions.map Prod.fst).sum + 1
  have inRange : ∀ condition ∈ conditions, condition.1 < room ^ 1 := fun condition member =>
    (Nat.lt_succ_of_le (List.le_sum_of_mem (List.mem_map_of_mem member))).trans_eq (pow_one _).symm
  rcases collected_yields known inRange valid with ⟨afterValid, grown, roomKnown, values⟩
  have same (entries : List (Nat × Bit)) (index : Nat) :
      (entries.foldl (fun matrix entry => matrix.set entry.1 entry.2)
        (Matrix.empty size arity)).cell index =
      (entries.foldl (fun matrix entry => matrix.set entry.1 entry.2)
        (Matrix.empty room 1)).cell index := by
    have empty : (Matrix.empty size arity).cells = (Matrix.empty room 1).cells := rfl
    rw [Matrix.cell, Matrix.cell, Matrix.cells_setAll empty]
  exact ⟨afterValid, grown, fun index => (same _ index).symm ▸ roomKnown.cell index,
    fun assignment index => (same _ index).symm ▸ values assignment index⟩

end Build

namespace TryBuild

variable {circuit : Circuit} {size : Nat}

/-! Joins -/

/-- The conditions that one cell contributes to a join. -/
theorem joinRow_yields {base rowLength first : Nat} {value : Bit} {continuing : List (Nat × Bit)}
    (valueKnown : circuit.Knows value)
    (known : ∀ condition ∈ continuing, circuit.Knows condition.2) :
    Yields circuit (Matrix.joinRow? base rowLength first value continuing)
      fun conditions after =>
        (∀ condition ∈ conditions, after.Knows condition.2 ∧
          ∃ second, condition.1 = Index.joined base rowLength first second) ∧
        ∀ assignment index, Matrix.holdsAt assignment conditions index = true ↔
          ∃ condition ∈ continuing, value.eval assignment = true ∧
            condition.2.eval assignment = true ∧
            Index.joined base rowLength first condition.1 = index := by
  induction continuing generalizing circuit with
  | nil => exact Yields.pure ⟨by simp, by simp⟩
  | cons condition rest hypothesis =>
      rcases condition with ⟨second, other⟩
      rw [List.forall_mem_cons] at known
      rw [Matrix.joinRow?]
      refine Yields.bind (Yields.lift (Build.and_computes valueKnown known.1))
        fun both middle grown made => Yields.of_valid fun valid => ?_
      have later := fun after (grown : circuit.Extends after) =>
        hypothesis (valueKnown.mono grown) fun other member => (known.2 other member).mono grown
      have conjunction : ∀ assignment, both.eval assignment = true ↔
          value.eval assignment = true ∧ other.eval assignment = true := by
        intro assignment
        have value := made.2 assignment
        dsimp only at value
        rw [value, Bool.and_eq_true]
      split
      · rename_i never
        have constant := (made.1.isFalse_iff valid).mp never
        refine Yields.weaken (later middle grown) fun conditions after _ held =>
          ⟨held.1, fun assignment index => ?_⟩
        have nowhere : ¬(value.eval assignment = true ∧ other.eval assignment = true) := by
          rw [← conjunction, constant]
          simp [Bit.eval]
        rw [held.2, List.exists_mem_cons_iff]
        simp only [← and_assoc, nowhere, false_and, false_or]
      · have counted : Yields middle (liftM (Index.word (Index.joined base rowLength first second)))
            fun index _ => index = Index.joined base rowLength first second :=
          Yields.except fun index same => Index.of_word same
        refine Yields.bind counted fun position after grownAgain same => ?_
        subst same
        refine Yields.bind (later after (grown.trans grownAgain))
          fun conditions last grownLast held =>
            Yields.pure ⟨?_, fun assignment index => ?_⟩
        · exact List.forall_mem_cons.mpr
            ⟨⟨(made.1.mono grownAgain).mono grownLast, second, rfl⟩, held.1⟩
        · rw [Matrix.holdsAt_cons, Bool.or_eq_true, held.2, List.exists_mem_cons_iff,
            Bool.and_eq_true, conjunction, beq_iff_eq]
          exact or_congr_left (by tauto)

theorem joinRows_yields {rest : Nat} (positive : 0 < size)
    (small : size ^ (rest + 1) < Index.limit) {left right : List (Nat × Bit)}
    (leftKnown : ∀ condition ∈ left, circuit.Knows condition.2)
    (rightKnown : ∀ condition ∈ right, circuit.Knows condition.2) :
    Yields circuit (Matrix.joinRows? size (size ^ rest)
        (Index.rows Prod.fst (size ^ rest) right) left)
      fun conditions after =>
        (∀ condition ∈ conditions, after.Knows condition.2 ∧ ∃ first ∈ left, ∃ second,
          condition.1 = Index.joined size (size ^ rest) first.1 second) ∧
        ∀ assignment index, Matrix.holdsAt assignment conditions index = true ↔
          ∃ first ∈ left, ∃ second ∈ right, first.2.eval assignment = true ∧
            second.2.eval assignment = true ∧ second.1 / size ^ rest = first.1 % size ∧
            Index.joined size (size ^ rest) first.1 second.1 = index := by
  induction left generalizing circuit with
  | nil => exact Yields.pure ⟨by simp, by simp⟩
  | cons entry others hypothesis =>
      rcases entry with ⟨first, value⟩
      rw [List.forall_mem_cons] at leftKnown
      rw [Matrix.joinRows?, if_neg positive.ne']
      dsimp only
      have found : Yields circuit (liftM (Index.matching? (Index.rows Prod.fst (size ^ rest) right)
          size (size ^ rest) first)) fun continuing _ => continuing =
            right.filter fun element => element.1 / size ^ rest == first % size := by
        refine Yields.except fun continuing same => ?_
        rw [Index.matching?_of_lt Prod.fst right small positive] at same
        exact (Except.ok.inj same).symm
      refine Yields.bind found fun continuing middle grown same => ?_
      subst same
      have rowKnown : ∀ condition ∈ right.filter fun element =>
          element.1 / size ^ rest == first % size, middle.Knows condition.2 :=
        fun condition member => (rightKnown condition (List.mem_of_mem_filter member)).mono grown
      refine Yields.bind (joinRow_yields (leftKnown.1.mono grown) rowKnown)
        fun row second grownRow madeRow => ?_
      have later := hypothesis
        (fun condition member => ((leftKnown.2 condition member).mono grown).mono grownRow)
        fun condition member => ((rightKnown condition member).mono grown).mono grownRow
      refine Yields.bind later fun conditions after grownLast held =>
        Yields.pure ⟨?_, fun assignment index => ?_⟩
      · intro condition member
        rcases List.mem_append.mp member with member | member
        · rcases madeRow.1 condition member with ⟨known, position, same⟩
          exact ⟨known.mono grownLast, (first, value), List.mem_cons_self, position, same⟩
        · rcases held.1 condition member with ⟨known, other, otherMember, position, same⟩
          exact ⟨known, other, List.mem_cons_of_mem _ otherMember, position, same⟩
      · rw [Matrix.holdsAt_append, Bool.or_eq_true, madeRow.2, held.2, List.exists_mem_cons_iff]
        refine or_congr_left ?_
        simp only [List.mem_filter, beq_iff_eq]
        constructor
        · rintro ⟨condition, ⟨member, agree⟩, holds, holdsToo, same⟩
          exact ⟨condition, member, holds, holdsToo, agree, same⟩
        · rintro ⟨condition, member, holds, holdsToo, agree, same⟩
          exact ⟨condition, ⟨member, agree⟩, holds, holdsToo, same⟩

/-- The cell of a tuple holds in a join where the two tuples that it is made of do. -/
theorem join_yields {before rest : Nat} {left right : Matrix} (positive : 0 < size)
    (joinable : Index.Joinable size before rest)
    (leftKnown : circuit.KnowsMatrix size (before + 1) left)
    (rightKnown : circuit.KnowsMatrix size (rest + 1) right) :
    Yields circuit (left.join? right) fun matrix after =>
      after.KnowsMatrix size (before + rest) matrix ∧
      ∀ assignment index, (matrix.cell index).eval assignment = true ↔ ∃ first second,
        (left.cell first).eval assignment = true ∧ (right.cell second).eval assignment = true ∧
        second / size ^ rest = first % size ∧
        Index.joined size (size ^ rest) first second = index := by
  rw [Matrix.join?]
  have counted : Yields circuit (liftM (Index.joinedColumns left.arity right.arity))
      fun columns _ => columns = before + rest := by
    refine Yields.except fun columns same => ?_
    have sum := Index.of_joinedColumns same
    rw [leftKnown.arity_eq, rightKnown.arity_eq] at sum
    omega
  refine Yields.bind counted fun columns first grown same => ?_
  subst same
  rw [leftKnown.universeSize_eq, rightKnown.arity_eq]
  dsimp only
  split
  · rename_i nothing
    refine Yields.pure ⟨Circuit.knowsMatrix_empty first size _, fun assignment index => ?_⟩
    rw [Matrix.cell_empty, Bit.eval]
    refine iff_of_false Bool.false_ne_true ?_
    rintro ⟨leftIndex, rightIndex, leftHolds, rightHolds, -⟩
    have leftStored := Matrix.mem_entries_of_eval leftHolds
    have rightStored := Matrix.mem_entries_of_eval rightHolds
    rw [Bool.or_eq_true, Std.ExtTreeMap.isEmpty_iff, Std.ExtTreeMap.isEmpty_iff] at nothing
    rcases nothing with nothing | nothing
    · simp [Matrix.entries, nothing] at leftStored
    · simp [Matrix.entries, nothing] at rightStored
  · have length : Yields first (liftM (Index.rowLength size (rest + 1)))
        fun rowLength _ => rowLength = size ^ rest := by
      refine Yields.except fun rowLength same => ?_
      rw [joinable.rowLength_eq positive] at same
      exact (Except.ok.inj same).symm
    refine Yields.bind length fun rowLength second grownAgain same => ?_
    subst same
    have leftAfter := (leftKnown.mono grown).mono grownAgain
    have rightAfter := (rightKnown.mono grown).mono grownAgain
    refine Yields.bind (joinRows_yields positive joinable.right
      (fun condition member => leftAfter.knows_of_mem member)
      fun condition member => rightAfter.knows_of_mem member) fun products third _ made => ?_
    have inRange : ∀ condition ∈ products, condition.1 < size ^ (before + rest) := by
      intro condition member
      rcases (made.1 condition member).2 with ⟨origin, originMember, position, same⟩
      rw [same]
      exact Index.joined_lt positive (leftAfter.lt_of_mem originMember)
    have collected := Build.collected_yields
      (fun condition member => (made.1 condition member).1) inRange
    have disjunctions : ((Matrix.grouped products).mapM fun group => do
          return (group.1, ← (Build.any group.2 : Build Bit)) : TryBuild (List (Nat × Bit))) =
        liftM ((Matrix.grouped products).mapM fun group => do
          return (group.1, ← Build.any group.2)) := by
      rw [← mapM_lift]
      simp only [liftM_bind, liftM_pure]
    rw [disjunctions]
    have lifted := Yields.lift collected
    rw [liftM_bind] at lifted
    simp only [liftM_pure] at lifted
    refine Yields.weaken lifted fun matrix after _ held => ⟨held.1, fun assignment index => ?_⟩
    rw [held.2, made.2]
    constructor
    · rintro ⟨⟨leftIndex, leftBit⟩, leftMember, ⟨rightIndex, rightBit⟩, rightMember, leftHolds,
        rightHolds, agree, same⟩
      refine ⟨leftIndex, rightIndex, ?_, ?_, agree, same⟩
      · rw [Matrix.cell_of_mem leftMember]
        exact leftHolds
      · rw [Matrix.cell_of_mem rightMember]
        exact rightHolds
    · rintro ⟨leftIndex, rightIndex, leftHolds, rightHolds, agree, same⟩
      exact ⟨_, Matrix.mem_entries_of_eval leftHolds, _, Matrix.mem_entries_of_eval rightHolds,
        leftHolds, rightHolds, agree, same⟩

/-! Products -/

theorem productRow_yields {capacity first : Nat} {value : Bit} {continuing : List (Nat × Bit)}
    (valueKnown : circuit.Knows value)
    (known : ∀ condition ∈ continuing, circuit.Knows condition.2) :
    Yields circuit (Matrix.productRow? capacity first value continuing)
      fun conditions after => (∀ condition ∈ conditions, after.Knows condition.2) ∧
        ∀ assignment, (conditions.map fun condition =>
            (condition.1, condition.2.eval assignment)) =
          continuing.map fun condition =>
            (first * capacity + condition.1,
              value.eval assignment && condition.2.eval assignment) := by
  induction continuing generalizing circuit with
  | nil => exact Yields.pure ⟨by simp, fun _ => rfl⟩
  | cons condition rest hypothesis =>
      rcases condition with ⟨second, other⟩
      rw [List.forall_mem_cons] at known
      rw [Matrix.productRow?]
      have counted : Yields circuit (liftM (Index.word (first * capacity + second)))
          fun index _ => index = first * capacity + second :=
        Yields.except fun index same => Index.of_word same
      refine Yields.bind counted fun position start grownStart same => ?_
      subst same
      refine Yields.bind (Yields.lift (Build.and_computes (valueKnown.mono grownStart)
        (known.1.mono grownStart))) fun both middle grown made => ?_
      have later := hypothesis ((valueKnown.mono grownStart).mono grown) fun other member =>
        ((known.2 other member).mono grownStart).mono grown
      refine Yields.bind later fun conditions after grownAgain held => Yields.pure ⟨?_, ?_⟩
      · exact List.forall_mem_cons.mpr ⟨made.1.mono grownAgain, held.1⟩
      · intro assignment
        have value := made.2 assignment
        dsimp only at value
        rw [List.map_cons, List.map_cons, held.2, value]

theorem productRows_yields {capacity : Nat} {left right : List (Nat × Bit)}
    (leftKnown : ∀ condition ∈ left, circuit.Knows condition.2)
    (rightKnown : ∀ condition ∈ right, circuit.Knows condition.2) :
    Yields circuit (left.mapM fun entry => Matrix.productRow? capacity entry.1 entry.2 right)
      fun rows after => (∀ condition ∈ rows.flatten, after.Knows condition.2) ∧
        ∀ assignment, (rows.flatten.map fun condition =>
            (condition.1, condition.2.eval assignment)) =
          left.flatMap fun first => right.map fun second =>
            (first.1 * capacity + second.1,
              first.2.eval assignment && second.2.eval assignment) := by
  induction left generalizing circuit with
  | nil => exact Yields.pure ⟨by simp, fun _ => rfl⟩
  | cons entry others hypothesis =>
      rw [List.forall_mem_cons] at leftKnown
      rw [List.mapM_cons]
      refine Yields.bind (productRow_yields leftKnown.1 rightKnown)
        fun row middle grown made => ?_
      have later := hypothesis
        (fun condition member => (leftKnown.2 condition member).mono grown)
        fun condition member => (rightKnown condition member).mono grown
      refine Yields.bind later fun rows after grownAgain held => Yields.pure ⟨?_, ?_⟩
      · rw [List.flatten_cons, List.forall_mem_append]
        exact ⟨fun condition member => (made.1 condition member).mono grownAgain, held.1⟩
      · intro assignment
        rw [List.flatten_cons, List.map_append, made.2, held.2, List.flatMap_cons]

theorem nodup_continued {left right : List Nat} {capacity : Nat} (leftDistinct : left.Nodup)
    (rightDistinct : right.Nodup) (below : ∀ second ∈ right, second < capacity) :
    (left.flatMap fun first => right.map fun second => first * capacity + second).Nodup := by
  rw [List.nodup_flatMap]
  constructor
  · intro first _
    exact rightDistinct.map fun _ _ same => Nat.add_left_cancel same
  · refine leftDistinct.imp fun {first other} different => ?_
    intro position member otherMember
    rcases List.mem_map.mp member with ⟨second, secondMember, rfl⟩
    rcases List.mem_map.mp otherMember with ⟨second', secondMember', same⟩
    have bound := below second secondMember
    have bound' := below second' secondMember'
    apply different
    have quotient := congrArg (· / capacity) same
    simp only [Nat.mul_comm _ capacity, Nat.mul_add_div (by omega : 0 < capacity),
      Nat.div_eq_of_lt bound, Nat.div_eq_of_lt bound'] at quotient
    omega

/-- The cell of a tuple holds in a product where the two tuples that continue each other do. -/
theorem product_yields {before rest : Nat} {left right : Matrix} (positive : 0 < size)
    (continuable : Index.Continuable size before rest)
    (leftKnown : circuit.KnowsMatrix size before left)
    (rightKnown : circuit.KnowsMatrix size rest right) :
    Yields circuit (left.product? right) fun matrix after =>
      after.KnowsMatrix size (before + rest) matrix ∧
      ∀ assignment index, (matrix.cell index).eval assignment = true ↔ ∃ first second,
        (left.cell first).eval assignment = true ∧ (right.cell second).eval assignment = true ∧
        first * size ^ rest + second = index := by
  rw [Matrix.product?]
  have counted : Yields circuit (liftM (Index.columns left.arity right.arity))
      fun columns _ => columns = before + rest := by
    refine Yields.except fun columns same => ?_
    rw [leftKnown.arity_eq, rightKnown.arity_eq] at same
    exact Index.of_columns same
  refine Yields.bind counted fun columns first grown same => ?_
  subst same
  rw [leftKnown.universeSize_eq, rightKnown.universeSize_eq, rightKnown.arity_eq]
  have sized : Yields first (liftM (Index.capacity size rest))
      fun capacity _ => capacity = size ^ rest := by
    refine Yields.except fun capacity same => ?_
    rw [Index.capacity_of_lt positive continuable.right] at same
    exact (Except.ok.inj same).symm
  refine Yields.bind sized fun capacity second grownAgain same => ?_
  subst same
  have leftAfter := (leftKnown.mono grown).mono grownAgain
  have rightAfter := (rightKnown.mono grown).mono grownAgain
  refine Yields.bind (productRows_yields (fun condition member => leftAfter.knows_of_mem member)
    fun condition member => rightAfter.knows_of_mem member) fun rows third _ made => ?_
  rcases made with ⟨known, values⟩
  have keys : rows.flatten.map Prod.fst = (left.entries.map Prod.fst).flatMap fun first =>
      (right.entries.map Prod.fst).map fun second => first * size ^ rest + second := by
    have same := congrArg (List.map Prod.fst) (values fun _ => false)
    rw [List.map_map, List.map_flatMap] at same
    rw [List.flatMap_map]
    simp only [List.map_map] at same ⊢
    exact same
  have distinct : (rows.flatten.map Prod.fst).Nodup := by
    rw [keys]
    refine nodup_continued left.nodup_entries right.nodup_entries fun second member => ?_
    rcases List.mem_map.mp member with ⟨entry, entryMember, rfl⟩
    exact rightAfter.lt_of_mem entryMember
  have inRange : ∀ entry ∈ rows.flatten, entry.1 < size ^ (before + rest) := by
    intro entry member
    have listed : entry.1 ∈ rows.flatten.map Prod.fst := List.mem_map_of_mem member
    rw [keys] at listed
    simp only [List.mem_flatMap, List.mem_map] at listed
    rcases listed with ⟨_, ⟨leftEntry, leftMember, rfl⟩, _, ⟨rightEntry, rightMember, rfl⟩, same⟩
    rw [← same]
    exact Index.continued_lt (leftAfter.lt_of_mem leftMember) (rightAfter.lt_of_mem rightMember)
  refine Yields.weaken (Yields.lift (Build.setAll_yields
    (Circuit.knowsMatrix_empty third size (before + rest)) distinct inRange known))
    fun matrix after _ held => ⟨held.1, fun assignment index => ?_⟩
  have listed : (matrix.cell index).eval assignment = true ↔ (index, true) ∈
      rows.flatten.map fun condition => (condition.1, condition.2.eval assignment) := by
    rw [List.mem_map]
    constructor
    · intro holds
      by_cases member : index ∈ rows.flatten.map Prod.fst
      · rcases List.mem_map.mp member with ⟨entry, entryMember, rfl⟩
        rw [held.2.1 entry entryMember] at holds
        exact ⟨entry, entryMember, by rw [holds]⟩
      · rw [held.2.2 index member, Matrix.cell_empty, Bit.eval] at holds
        cases holds
    · rintro ⟨entry, entryMember, same⟩
      cases congrArg Prod.fst same
      rw [held.2.1 entry entryMember]
      exact congrArg Prod.snd same
  rw [listed, values]
  simp only [List.mem_flatMap, List.mem_map, Prod.mk.injEq, Bool.and_eq_true]
  constructor
  · rintro ⟨leftEntry, leftMember, rightEntry, rightMember, same, leftHolds, rightHolds⟩
    refine ⟨leftEntry.1, rightEntry.1, ?_, ?_, same⟩
    · rw [Matrix.cell_of_mem leftMember]
      exact leftHolds
    · rw [Matrix.cell_of_mem rightMember]
      exact rightHolds
  · rintro ⟨leftIndex, rightIndex, leftHolds, rightHolds, same⟩
    exact ⟨_, Matrix.mem_entries_of_eval leftHolds, _, Matrix.mem_entries_of_eval rightHolds,
      same, leftHolds, rightHolds⟩

end TryBuild

end ModelFinder
