import Mathlib
import ModelFinder.Proofs.Circuit.Repetition
import ModelFinder.Proofs.Circuit.Word.Addition
import ModelFinder.Proofs.Safety
/-!
Results whose dimensions are known without looking at any bit. `Build.Ensures` says it of a
computation, on every circuit of a width, whether or not the circuit is valid and knows the inputs.
The words that operations give are no wider than their operands.
-/

namespace ModelFinder

/-- On every circuit of a width, a computation has a result with a property and keeps the
width. -/
def Build.Ensures {α : Type} (width : Nat) (action : Build α) (post : α → Prop) : Prop :=
  ∀ circuit : Circuit, circuit.width = width →
    (action circuit).2.width = width ∧ post (action circuit).1

/-- The same for a computation that may fail. -/
def TryBuild.Ensures {α : Type} (width : Nat) (safe : Prop) (action : TryBuild α)
    (post : α → Prop) : Prop :=
  Build.Ensures width action.run (Meets safe post)

namespace Build.Ensures

variable {α β : Type} {width : Nat}

theorem pure {value : α} {post : α → Prop} (holds : post value) :
    Ensures width (Pure.pure value) post :=
  fun _ same => ⟨same, holds⟩

theorem bind {action : Build α} {next : α → Build β} {middle : α → Prop} {post : β → Prop}
    (first : Ensures width action middle)
    (second : ∀ value, middle value → Ensures width (next value) post) :
    Ensures width (action >>= next) post := by
  intro circuit same
  rcases first circuit same with ⟨kept, holds⟩
  exact second _ holds _ kept

theorem map {action : Build α} {transform : α → β} {middle : α → Prop} {post : β → Prop}
    (first : Ensures width action middle)
    (implies : ∀ value, middle value → post (transform value)) :
    Ensures width (do return transform (← action)) post :=
  bind first fun value holds => pure (implies value holds)

theorem weaken {action : Build α} {strong weak : α → Prop} (ensures : Ensures width action strong)
    (implies : ∀ value, strong value → weak value) : Ensures width action weak :=
  fun circuit same => (ensures circuit same).imp_right (implies _)

theorem of_repeats {action : Build α} (repeats : Build.Repeats action) :
    Ensures width action fun _ => True :=
  fun circuit same => ⟨(repeats circuit).1.width.trans same, trivial⟩

theorem mapM {elements : List α} {action : α → Build β} {post : β → Prop}
    (each : ∀ element ∈ elements, Ensures width (action element) post) :
    Ensures width (elements.mapM action) fun results =>
      results.length = elements.length ∧ ∀ result ∈ results, post result := by
  induction elements with
  | nil => exact pure ⟨rfl, List.forall_mem_nil _⟩
  | cons element rest hypothesis =>
      rw [List.forall_mem_cons] at each
      rw [List.mapM_cons]
      refine bind each.1 fun result holds => map (hypothesis each.2) fun results others => ?_
      exact ⟨congrArg Nat.succ others.1, List.forall_mem_cons.mpr ⟨holds, others.2⟩⟩

theorem mapM_length {elements : List α} {action : α → Build β}
    (each : ∀ element, Build.Repeats (action element)) :
    Ensures width (elements.mapM action) fun results => results.length = elements.length :=
  weaken (mapM fun element _ => of_repeats (each element)) fun _ => And.left

end Build.Ensures

namespace TryBuild.Ensures

variable {α β : Type} {width : Nat} {safe : Prop}

theorem pure {value : α} {post : α → Prop} (holds : post value) :
    Ensures width safe (Pure.pure value) post :=
  fun _ same => ⟨same, holds⟩

theorem except {outcome : Except Error α} {post : α → Prop} (meets : Meets safe post outcome) :
    Ensures width safe (liftM outcome) post :=
  Build.Ensures.pure meets

theorem throw {error : Error} {post : α → Prop}
    (reported : safe → error.Reported) :
    Ensures width safe (MonadExcept.throw error) post :=
  fun _ same => ⟨same, reported⟩

theorem lift {action : Build α} {post : α → Prop} (ensures : Build.Ensures width action post) :
    Ensures width safe (liftM action) post :=
  fun circuit same => ensures circuit same

theorem bind {action : TryBuild α} {next : α → TryBuild β} {middle : α → Prop} {post : β → Prop}
    (first : Ensures width safe action middle)
    (second : ∀ value, middle value → Ensures width safe (next value) post) :
    Ensures width safe (action >>= next) post := by
  change Build.Ensures width (action.run >>= ExceptT.bindCont next) (Meets safe post)
  refine Build.Ensures.bind first fun outcome meets => ?_
  cases outcome with
  | error error => exact throw meets
  | ok value => exact second value meets

theorem map {action : TryBuild α} {transform : α → β} {middle : α → Prop} {post : β → Prop}
    (first : Ensures width safe action middle)
    (implies : ∀ value, middle value → post (transform value)) :
    Ensures width safe (do return transform (← action)) post :=
  bind first fun value holds => pure (implies value holds)

theorem mapM {elements : List α} {action : α → TryBuild β} {post : β → Prop}
    (each : ∀ element ∈ elements, Ensures width safe (action element) post) :
    Ensures width safe (elements.mapM action) fun results => ∀ result ∈ results, post result := by
  induction elements with
  | nil => exact pure (List.forall_mem_nil _)
  | cons element rest hypothesis =>
      rw [List.forall_mem_cons] at each
      rw [List.mapM_cons]
      exact bind each.1 fun result holds => map (hypothesis each.2) fun results others =>
        List.forall_mem_cons.mpr ⟨holds, others⟩

theorem reading {next : Nat → TryBuild α} {post : α → Prop}
    (ensures : Ensures width safe (next width) post) :
    Ensures width safe (MonadState.get >>= fun circuit => next circuit.width) post := by
  intro circuit same
  change Circuit.width ((next circuit.width).run circuit).2 = _ ∧
    Meets safe post ((next circuit.width).run circuit).1
  rw [same]
  exact ensures circuit same

end TryBuild.Ensures

/-! Words -/

namespace Word

theorem width_ofBits_le {bits : List Bit} {limit : Nat} (short : bits.length ≤ limit)
    (positive : 1 ≤ limit) : (ofBits bits).width ≤ limit := by
  rw [ofBits]
  split
  · exact short
  · exact positive

theorem width_zero_le {width limit : Nat} (le : width ≤ limit) (positive : 1 ≤ limit) :
    (zero width).width ≤ limit :=
  width_ofBits_le (List.length_replicate.trans_le le) positive

end Word

namespace Build.Ensures

variable {width limit : Nat} {word left right : Word}

theorem ripple {carry : Bit} {pairs : List (Bit × Bit)} :
    Ensures width (Word.ripple carry pairs) fun result => result.1.length = pairs.length := by
  induction pairs generalizing carry with
  | nil => exact pure rfl
  | cons pair rest hypothesis =>
      refine bind (of_repeats (.sum _ _ _)) fun _ _ => ?_
      refine bind (of_repeats (.carry _ _ _)) fun _ _ => ?_
      exact map hypothesis fun result length => congrArg Nat.succ length

theorem addWithCarry {carry : Bit} (leftNarrow : left.width ≤ limit)
    (rightNarrow : right.width ≤ limit) :
    Ensures width (left.addWithCarry right carry) fun result => result.1.width ≤ limit := by
  refine map ripple fun result length =>
    Word.width_ofBits_le ?_ (left.width_pos.trans_le leftNarrow)
  rw [length, Word.length_pairs]
  exact max_le leftNarrow rightNarrow

theorem plus (leftNarrow : left.width ≤ limit) (rightNarrow : right.width ≤ limit) :
    Ensures width (left.plus right) fun result => result.width ≤ limit :=
  map (addWithCarry leftNarrow rightNarrow) fun _ narrow => narrow

theorem wordNot (narrow : word.width ≤ limit) :
    Ensures width word.not fun result => result.width ≤ limit :=
  map (mapM_length .not) fun _ length =>
    Word.width_ofBits_le (length.trans_le narrow) (word.width_pos.trans_le narrow)

theorem minus (leftNarrow : left.width ≤ limit) (rightNarrow : right.width ≤ limit) :
    Ensures width (left.minus right) fun result => result.width ≤ limit :=
  bind (wordNot rightNarrow) fun _ complementNarrow =>
    map (addWithCarry leftNarrow complementNarrow) fun _ narrow => narrow

theorem bitwise {gate : Bit → Bit → Build Bit}
    (gates : ∀ first second, Build.Repeats (gate first second)) (leftNarrow : left.width ≤ limit)
    (rightNarrow : right.width ≤ limit) :
    Ensures width (Word.bitwise gate left right) fun result => result.width ≤ limit := by
  refine map (mapM_length fun _ => gates _ _) fun result length =>
    Word.width_ofBits_le ?_ (left.width_pos.trans_le leftNarrow)
  rw [length, Word.length_pairs]
  exact max_le leftNarrow rightNarrow

theorem choice {condition : Bit} (leftNarrow : left.width ≤ limit)
    (rightNarrow : right.width ≤ limit) :
    Ensures width (Word.choice condition left right) fun result => result.width ≤ limit := by
  rw [Word.choice]
  split
  · rename_i value _
    cases value with
    | true => exact pure leftNarrow
    | false => exact pure rightNarrow
  · exact bitwise (.ite condition) leftNarrow rightNarrow

theorem negate (narrow : word.width ≤ limit) :
    Ensures width word.negate fun result => result.width ≤ limit := by
  have one : word.oneLike.width ≤ limit := by
    have positive := word.width_pos
    rw [Word.oneLike, Word.width_mk, List.length_cons, List.length_replicate]
    omega
  exact bind (wordNot narrow) fun _ complementNarrow => plus complementNarrow one

theorem negateIf {condition : Bit} (narrow : word.width ≤ limit) :
    Ensures width (word.negateIf condition) fun result => result.width ≤ limit :=
  bind (negate narrow) fun _ negatedNarrow => choice negatedNarrow narrow

theorem abs (narrow : word.width ≤ limit) :
    Ensures width word.abs fun result => result.width ≤ limit :=
  negateIf narrow

theorem sgn (narrow : word.width ≤ limit) :
    Ensures width word.sgn fun result => result.width ≤ limit := by
  refine bind (of_repeats (.mapM .not)) fun _ _ => bind (of_repeats (.all _)) fun _ _ => ?_
  refine map (of_repeats (.not _)) fun _ _ => ?_
  have positive := word.width_pos
  rw [Word.width_mk, List.length_cons, List.length_replicate]
  omega

theorem addShifted {multiplicand product : Word} {shift : Nat} {selectors : List Bit}
    (narrow : multiplicand.width ≤ limit) (productNarrow : product.width ≤ limit)
    (short : shift + selectors.length ≤ limit) :
    Ensures width (Word.addShifted multiplicand product shift selectors) fun result =>
      result.width ≤ limit := by
  induction selectors generalizing product shift with
  | nil => exact pure productNarrow
  | cons selector rest hypothesis =>
      rw [List.length_cons] at short
      rw [Word.addShifted]
      split
      · exact hypothesis productNarrow (by omega)
      · refine bind (mapM_length fun _ => .and _ _) fun kept length => ?_
        refine bind (plus productNarrow (Word.width_ofBits_le ?_ (by omega))) fun sum sumNarrow =>
          hypothesis sumNarrow (by omega)
        rw [List.length_take] at length
        change kept.length = min (multiplicand.width - shift) multiplicand.width at length
        rw [List.length_append, List.length_replicate]
        omega

theorem multiply (leftNarrow : left.width ≤ limit) :
    Ensures width (left.multiply right) fun result => result.width ≤ limit := by
  refine addShifted leftNarrow
    (Word.width_zero_le leftNarrow (left.width_pos.trans_le leftNarrow)) ?_
  rw [Word.length_extendedBits]
  omega

theorem restoringDivision {complement : Word} {remainder dividend : List Bit}
    (narrow : complement.width ≤ limit) (short : remainder.length ≤ limit) :
    Ensures width (Word.restoringDivision complement remainder dividend) fun result =>
      result.1.length = dividend.length ∧ result.2.length ≤ limit := by
  induction dividend generalizing remainder with
  | nil => exact pure ⟨rfl, short⟩
  | cons incoming rest hypothesis =>
      have positive := complement.width_pos
      have shifted : (Word.ofBits (incoming :: remainder.dropLast)).width ≤ limit := by
        refine Word.width_ofBits_le ?_ (by omega)
        rw [List.length_cons, List.length_dropLast]
        omega
      refine bind (addWithCarry shifted narrow) fun sum _ => ?_
      refine bind (mapM_length fun _ => .ite _ _ _) fun next length => ?_
      have nextShort : next.length ≤ limit := by
        rw [length, List.length_zip]
        exact (min_le_left _ _).trans shifted
      exact map (hypothesis nextShort) fun result lengths =>
        ⟨congrArg Nat.succ lengths.1, lengths.2⟩

theorem divideWithRemainder (leftNarrow : left.width ≤ limit) (rightNarrow : right.width ≤ limit) :
    Ensures width (left.divideWithRemainder right) fun result =>
      result.1.width ≤ limit ∧ result.2.width ≤ limit := by
  have positive := left.width_pos
  refine bind (abs leftNarrow) fun dividend dividendNarrow => ?_
  refine bind (abs rightNarrow) fun divisor divisorNarrow => ?_
  refine bind (wordNot divisorNarrow) fun complement complementNarrow => ?_
  refine bind (restoringDivision complementNarrow (by rw [List.length_replicate]; exact leftNarrow))
    fun result lengths => ?_
  rw [List.length_reverse] at lengths
  refine bind (of_repeats (.xor _ _)) fun _ _ => ?_
  have quotientNarrow : (Word.ofBits result.1.reverse).width ≤ limit := by
    refine Word.width_ofBits_le ?_ (by omega)
    rw [List.length_reverse, lengths.1]
    exact dividendNarrow
  refine bind (negateIf quotientNarrow) fun quotient signedNarrow => ?_
  exact map (negateIf (Word.width_ofBits_le lengths.2 (by omega))) fun _ remainderNarrow =>
    ⟨signedNarrow, remainderNarrow⟩

theorem addNeighbours {words : List Word} (narrow : ∀ word ∈ words, word.width ≤ limit) :
    Ensures width (Word.addNeighbours words) fun sums => ∀ sum ∈ sums, sum.width ≤ limit := by
  fun_induction Word.addNeighbours words with
  | case1 left right rest hypothesis =>
      rw [List.forall_mem_cons, List.forall_mem_cons] at narrow
      refine bind (plus narrow.1 narrow.2.1) fun sum sumNarrow => ?_
      exact map (hypothesis narrow.2.2) fun sums sumsNarrow =>
        List.forall_mem_cons.mpr ⟨sumNarrow, sumsNarrow⟩
  | case2 words => exact pure narrow

theorem addRounds {rounds : Nat} {words : List Word}
    (narrow : ∀ word ∈ words, word.width ≤ limit) :
    Ensures width (Word.addRounds rounds words) fun sums => ∀ sum ∈ sums, sum.width ≤ limit := by
  fun_induction Word.addRounds rounds words with
  | case1 rounds left right rest hypothesis =>
      exact bind (addNeighbours narrow) fun sums sumsNarrow => hypothesis sums sumsNarrow
  | case2 => exact pure narrow

theorem barrel {kind : ShiftKind} {fill : Bit} {current : List Bit} {stage : Nat}
    {selectors : List Bit} (short : current.length ≤ limit) :
    Ensures width (Word.barrel kind fill current stage selectors) fun bits =>
      bits.length ≤ limit := by
  induction selectors generalizing current stage with
  | nil => exact pure short
  | cons selector rest hypothesis =>
      rw [Word.barrel]
      split
      · exact hypothesis short
      · refine bind (mapM_length fun _ => .ite _ _ _) fun next length => hypothesis ?_
        rw [length, List.length_zip]
        exact (min_le_right _ _).trans short

theorem shift {kind : ShiftKind} {amount : Word} (narrow : word.width ≤ limit) :
    Ensures width (Word.shift kind word amount) fun result => result.width ≤ limit :=
  bind (barrel narrow) fun _ movedShort => map (mapM_length fun _ => .ite _ _ _) fun _ length =>
    Word.width_ofBits_le (length.trans_le movedShort) (word.width_pos.trans_le narrow)

end Build.Ensures

namespace TryBuild.Ensures

variable {width limit : Nat} {safe : Prop}

theorem sumAll {words : List Word} (positive : safe → 0 < width)
    (narrow : safe → width ≤ limit ∧ ∀ word ∈ words, word.width ≤ limit) :
    Ensures width safe (Word.sumAll words) fun sum => safe → sum.width ≤ limit := by
  by_cases isSafe : safe
  · refine bind (lift (Build.Ensures.addRounds (narrow isSafe).2)) fun sums sumsNarrow => ?_
    cases sums with
    | nil =>
        refine @reading _ width safe (fun width => liftM (Word.zero? width)) _ (except ?_)
        have some : List.replicate width (Bit.const false) ≠ [] := by
          simpa using (positive isSafe).ne'
        rw [Word.zero?, Word.ofBits?, dif_pos some]
        intro _
        rw [Word.width_mk, List.length_replicate]
        exact (narrow isSafe).1
    | cons sum rest => exact pure fun _ => (List.forall_mem_cons.mp sumsNarrow).1
  · intro circuit same
    refine ⟨(Build.Repeats.sumAll words circuit).1.width.trans same, ?_⟩
    cases (Word.sumAll words).run circuit |>.1 with
    | error error => exact fun isSafe' => absurd isSafe' isSafe
    | ok sum => exact fun isSafe' => absurd isSafe' isSafe

theorem popcount {matrix : Matrix} (positive : safe → 0 < width)
    (narrow : safe → width ≤ limit) :
    Ensures width safe matrix.popcount fun sum => safe → sum.width ≤ limit := by
  refine @reading _ width safe (fun width => do
    let words ← matrix.values.mapM fun value => (liftM (Word.ofBit? value width) : TryBuild Word)
    Word.sumAll words) _ ?_
  have ones : ∀ bit ∈ matrix.values, Ensures width safe
      (liftM (Word.ofBit? bit width) : TryBuild Word) fun word => safe → word.width ≤ limit := by
    intro bit _
    refine except ?_
    cases width with
    | zero => exact fun isSafe => absurd (positive isSafe) (lt_irrefl 0)
    | succ rest =>
        intro isSafe
        rw [Word.width_mk, List.length_cons, List.length_replicate]
        exact narrow isSafe
  exact bind (mapM ones) fun words wordsNarrow => sumAll positive fun isSafe =>
    ⟨narrow isSafe, fun word member => wordsNarrow word member isSafe⟩

end TryBuild.Ensures

end ModelFinder
