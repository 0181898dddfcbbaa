import Mathlib
import ModelFinder.Circuit.Matrix
import ModelFinder.Circuit.Word.Shift
import ModelFinder.Circuit.Word.Comparison
import ModelFinder.Proofs.Circuit.Closure.Words
/-!
Sharing. What a circuit has computed once costs nothing the second time: run again, on the circuit
that it left or on any later one, a computation gives the result it gave before and makes no gate.

`Build.Repeats` is the judgement of this theory. It needs no assumption about the circuit or about
the inputs: a gate is looked up under its kind and the labels of its operands, and those are the
same the second time because everything before was found again.
-/

namespace ModelFinder

/-- A computation only adds gates, and once it has run, running it again on any later circuit
gives the same result and leaves that circuit as it is. -/
def Build.Repeats {α : Type} (action : Build α) : Prop :=
  ∀ circuit : Circuit, circuit.Extends (action circuit).2 ∧
    ∀ later, (action circuit).2.Extends later → action later = ((action circuit).1, later)

namespace Build.Repeats

variable {α β γ : Type}

theorem pure (value : α) : Build.Repeats (Pure.pure value) :=
  fun circuit => ⟨.refl circuit, fun _ _ => rfl⟩

theorem bind {action : Build α} {next : α → Build β} (first : Build.Repeats action)
    (second : ∀ value, Build.Repeats (next value)) : Build.Repeats (action >>= next) := by
  intro circuit
  rcases first circuit with ⟨grown, again⟩
  rcases second (action circuit).1 (action circuit).2 with ⟨grown', again'⟩
  refine ⟨grown.trans grown', fun later after => ?_⟩
  have repeated : action later = ((action circuit).1, later) := again later (grown'.trans after)
  change next (action later).1 (action later).2 = _
  rw [repeated]
  exact again' later after

theorem map {action : Build α} {transform : α → β} (first : Build.Repeats action) :
    Build.Repeats (do return transform (← action)) :=
  bind first fun value => pure (transform value)

theorem mapM {elements : List α} {action : α → Build β}
    (each : ∀ element, Build.Repeats (action element)) :
    Build.Repeats (elements.mapM action) := by
  induction elements with
  | nil => exact pure []
  | cons element rest hypothesis =>
      rw [List.mapM_cons]
      exact bind (each element) fun result => bind hypothesis fun results => pure _

/-! Computations that may fail -/

theorem throw {error : Error} : Build.Repeats (MonadExcept.throw error : TryBuild α).run :=
  pure (Except.error error)

theorem tryPure (value : α) : Build.Repeats (Pure.pure value : TryBuild α).run :=
  pure (Except.ok value)

theorem except (outcome : Except Error α) :
    Build.Repeats (liftM outcome : TryBuild α).run :=
  pure outcome

theorem lift {action : Build α} (repeats : Build.Repeats action) :
    Build.Repeats (liftM action : TryBuild α).run :=
  bind repeats fun value => pure (Except.ok value)

theorem tryBind {action : TryBuild α} {next : α → TryBuild β}
    (first : Build.Repeats action.run) (second : ∀ value, Build.Repeats (next value).run) :
    Build.Repeats (action >>= next).run := by
  change Build.Repeats (action.run >>= ExceptT.bindCont next)
  refine bind first fun outcome => ?_
  cases outcome with
  | error error => exact throw
  | ok value => exact second value

theorem tryMap {action : TryBuild α} {transform : α → β} (first : Build.Repeats action.run) :
    Build.Repeats (do return transform (← action) : TryBuild β).run :=
  tryBind first fun value => tryPure (transform value)

theorem tryMapM {elements : List α} {action : α → TryBuild β}
    (each : ∀ element, Build.Repeats (action element).run) :
    Build.Repeats (elements.mapM action).run := by
  induction elements with
  | nil => exact tryPure []
  | cons element rest hypothesis =>
      rw [List.mapM_cons]
      exact tryBind (each element) fun result => tryBind hypothesis fun results => tryPure _

/-- A circuit keeps its width, so what depends on the width alone repeats. -/
theorem tryWidth {next : Nat → TryBuild α} (repeats : ∀ width, Build.Repeats (next width).run) :
    Build.Repeats (MonadState.get >>= fun circuit => next circuit.width : TryBuild α).run := by
  intro circuit
  rcases repeats circuit.width circuit with ⟨grown, again⟩
  refine ⟨grown, fun later after => ?_⟩
  have same : later.width = circuit.width := after.width.trans grown.width
  change next later.width later = _
  rw [same]
  exact again later after

/-! Gates -/

theorem intern (kind : GateKind) (operands : List Bit) (make : Int → Bit) :
    Build.Repeats (Build.intern kind operands make) := by
  intro circuit
  rw [Build.intern_run]
  cases found : circuit.gates[kind.key operands]? with
  | some bit =>
      refine ⟨.refl circuit, fun later after => ?_⟩
      rw [Build.intern_run, after.gates found]
  | none =>
      refine ⟨Circuit.extends_addGate found _, fun later after => ?_⟩
      have stored : later.gates[kind.key operands]? = some (make circuit.nextLabel) :=
        after.gates (by simp [Circuit.addGate])
      rw [Build.intern_run, stored]

theorem all (inputs : List Bit) : Build.Repeats (Build.all inputs) := by
  rw [Build.all]
  split
  · exact pure _
  · dsimp only
    split
    · exact pure _
    · split
      · exact pure _
      · exact pure _
      · exact intern _ _ _

theorem any (inputs : List Bit) : Build.Repeats (Build.any inputs) := by
  rw [Build.any]
  split
  · exact pure _
  · dsimp only
    split
    · exact pure _
    · split
      · exact pure _
      · exact pure _
      · exact intern _ _ _

theorem and (left right : Bit) : Build.Repeats (Build.and left right) := all _

theorem or (left right : Bit) : Build.Repeats (Build.or left right) := any _

theorem not (input : Bit) : Build.Repeats (Build.not input) := by
  rw [Build.not.eq_def]
  split
  · exact pure _
  · exact pure _
  · exact intern _ _ _

theorem ite (condition thenBit elseBit : Bit) :
    Build.Repeats (Build.ite condition thenBit elseBit) := by
  rw [Build.ite]
  split
  · exact pure _
  split
  · exact pure _
  split
  · exact or _ _
  split
  · exact and _ _
  split
  · exact or _ _
  · exact bind (not _) fun _ => and _ _
  · exact bind (not _) fun _ => or _ _
  · exact and _ _
  · exact intern _ _ _

theorem xor (left right : Bit) : Build.Repeats (Build.xor left right) :=
  bind (not right) fun _ => ite _ _ _

theorem iff (left right : Bit) : Build.Repeats (Build.iff left right) :=
  bind (not right) fun _ => ite _ _ _

theorem implies (left right : Bit) : Build.Repeats (Build.implies left right) :=
  bind (not left) fun _ => or _ _

theorem sum (left right carryIn : Bit) : Build.Repeats (Build.sum left right carryIn) :=
  bind (xor left right) fun _ => xor _ _

theorem carry (left right carryIn : Bit) : Build.Repeats (Build.carry left right carryIn) :=
  bind (and left right) fun _ => bind (xor left right) fun _ => bind (and _ _) fun _ => or _ _

/-! Words -/

theorem ripple (carry : Bit) (pairs : List (Bit × Bit)) :
    Build.Repeats (Word.ripple carry pairs) := by
  induction pairs generalizing carry with
  | nil => exact pure _
  | cons pair rest hypothesis =>
      exact bind (sum _ _ _) fun _ => bind (Repeats.carry _ _ _) fun next =>
        bind (hypothesis next) fun _ => pure _

theorem addWithCarry (left right : Word) (carry : Bit) :
    Build.Repeats (left.addWithCarry right carry) :=
  bind (ripple _ _) fun _ => pure _

theorem plus (left right : Word) : Build.Repeats (left.plus right) :=
  map (addWithCarry _ _ _)

theorem wordNot (word : Word) : Build.Repeats word.not := map (mapM not)

theorem minus (left right : Word) : Build.Repeats (left.minus right) :=
  bind (wordNot right) fun _ => map (addWithCarry _ _ _)

theorem bitwise {gate : Bit → Bit → Build Bit}
    (gates : ∀ first second, Build.Repeats (gate first second))
    (left right : Word) : Build.Repeats (Word.bitwise gate left right) :=
  map (mapM fun _ => gates _ _)

theorem choice (condition : Bit) (thenWord elseWord : Word) :
    Build.Repeats (Word.choice condition thenWord elseWord) := by
  rw [Word.choice]
  split
  · exact pure _
  · exact bitwise (ite condition) _ _

theorem negate (word : Word) : Build.Repeats word.negate :=
  bind (wordNot word) fun _ => plus _ _

theorem negateIf (condition : Bit) (word : Word) : Build.Repeats (word.negateIf condition) :=
  bind (negate word) fun _ => choice _ _ _

theorem abs (word : Word) : Build.Repeats word.abs := negateIf _ _

theorem sgn (word : Word) : Build.Repeats word.sgn :=
  bind (mapM not) fun _ => bind (all _) fun _ => map (not _)

theorem addShifted (multiplicand product : Word) (shift : Nat) (selectors : List Bit) :
    Build.Repeats (Word.addShifted multiplicand product shift selectors) := by
  induction selectors generalizing product shift with
  | nil => exact pure _
  | cons selector rest hypothesis =>
      rw [Word.addShifted]
      split
      · exact hypothesis _ _
      · exact bind (mapM fun _ => and _ _) fun _ => bind (plus _ _) fun _ => hypothesis _ _

theorem multiply (left right : Word) : Build.Repeats (left.multiply right) :=
  addShifted _ _ _ _

theorem restoringDivision (complement : Word) (remainder dividend : List Bit) :
    Build.Repeats (Word.restoringDivision complement remainder dividend) := by
  induction dividend generalizing remainder with
  | nil => exact pure _
  | cons incoming rest hypothesis =>
      exact bind (addWithCarry _ _ _) fun _ => bind (mapM fun _ => ite _ _ _) fun _ =>
        bind (hypothesis _) fun _ => pure _

theorem divideWithRemainder (left right : Word) :
    Build.Repeats (left.divideWithRemainder right) :=
  bind (abs left) fun _ => bind (abs right) fun divisor => bind (wordNot divisor) fun _ =>
    bind (restoringDivision _ _ _) fun _ => bind (xor _ _) fun _ =>
      bind (negateIf _ _) fun _ => bind (negateIf _ _) fun _ => pure _

theorem divide (left right : Word) : Build.Repeats (left.divide right) :=
  map (divideWithRemainder _ _)

theorem modulo (left right : Word) : Build.Repeats (left.modulo right) :=
  map (divideWithRemainder _ _)

theorem addNeighbours (words : List Word) : Build.Repeats (Word.addNeighbours words) := by
  fun_induction Word.addNeighbours words with
  | case1 left right rest hypothesis => exact bind (plus _ _) fun _ => map hypothesis
  | case2 words => exact pure _

theorem addRounds (rounds : Nat) (words : List Word) :
    Build.Repeats (Word.addRounds rounds words) := by
  fun_induction Word.addRounds rounds words with
  | case1 rounds left right rest hypothesis => exact bind (addNeighbours _) hypothesis
  | case2 => exact pure _

theorem sumAll (words : List Word) : Build.Repeats (Word.sumAll words).run := by
  refine tryBind (lift (addRounds _ words)) fun sums => ?_
  cases sums with
  | nil => exact tryWidth fun _ => except _
  | cons sum rest => exact tryPure _

theorem barrel (kind : ShiftKind) (fill : Bit) (current : List Bit) (stage : Nat)
    (selectors : List Bit) : Build.Repeats (Word.barrel kind fill current stage selectors) := by
  induction selectors generalizing current stage with
  | nil => exact pure _
  | cons selector rest hypothesis =>
      rw [Word.barrel]
      split
      · exact hypothesis _ _
      · exact bind (mapM fun _ => ite _ _ _) fun _ => hypothesis _ _

theorem shift (kind : ShiftKind) (word amount : Word) :
    Build.Repeats (Word.shift kind word amount) :=
  bind (barrel _ _ _ _ _) fun _ => map (mapM fun _ => ite _ _ _)

theorem agreements (pairs : List (Bit × Bit)) : Build.Repeats (Word.agreements pairs) := by
  induction pairs with
  | nil => exact pure _
  | cons pair rest hypothesis =>
      refine bind (iff _ _) fun agree => ?_
      split
      · exact pure _
      · exact map hypothesis

theorem eq (left right : Word) : Build.Repeats (left.eq right) := by
  refine bind (agreements _) fun found => ?_
  cases found with
  | some bits => exact all bits
  | none => exact pure _

theorem descents (agreeAbove : Bit) (pairs : List (Bit × Bit)) :
    Build.Repeats (Word.descents agreeAbove pairs) := by
  induction pairs generalizing agreeAbove with
  | nil => exact pure _
  | cons pair rest hypothesis =>
      exact bind (implies _ _) fun _ => bind (implies _ _) fun _ => bind (iff _ _) fun _ =>
        bind (and _ _) fun _ => map (hypothesis _)

theorem lte (left right : Word) : Build.Repeats (left.lte right) := by
  rw [Word.lte]
  split
  · exact pure _
  · exact bind (implies _ _) fun _ => bind (iff _ _) fun _ => bind (descents _ _) fun _ => all _

theorem lt (left right : Word) : Build.Repeats (left.lt right) :=
  bind (lte _ _) fun _ => bind (eq _ _) fun _ => bind (not _) fun _ => and _ _

/-! Matrices -/

theorem setEach {compute : Matrix → Nat → Bit → Build Bit}
    (each : ∀ matrix index value, Build.Repeats (compute matrix index value)) (matrix : Matrix)
    (entries : List (Nat × Bit)) : Build.Repeats (matrix.setEach compute entries) := by
  induction entries generalizing matrix with
  | nil => exact pure _
  | cons entry rest hypothesis => exact bind (each _ _ _) fun _ => hypothesis _

variable (first second : Matrix)

theorem union : Build.Repeats (first.union? second).run :=
  tryBind (except _) fun _ => lift (setEach (fun _ _ _ => or _ _) _ _)

theorem intersection : Build.Repeats (first.intersection? second).run :=
  tryBind (except _) fun _ => lift (setEach (fun _ _ _ => and _ _) _ _)

theorem difference : Build.Repeats (first.difference? second).run :=
  tryBind (except _) fun _ => lift (setEach (fun _ _ _ => bind (not _) fun _ => and _ _) _ _)

theorem joinRow (base rowLength left : Nat) (value : Bit) (entries : List (Nat × Bit)) :
    Build.Repeats (Matrix.joinRow? base rowLength left value entries).run := by
  induction entries with
  | nil => exact tryPure _
  | cons entry rest hypothesis =>
      rw [Matrix.joinRow?]
      refine tryBind (lift (and _ _)) fun both => ?_
      split
      · exact hypothesis
      · exact tryBind (except _) fun _ => tryMap hypothesis

theorem joinRows (base rowLength : Nat) (rows : Std.ExtTreeMap Nat (List (Nat × Bit)))
    (entries : List (Nat × Bit)) :
    Build.Repeats (Matrix.joinRows? base rowLength rows entries).run := by
  induction entries with
  | nil => exact tryPure _
  | cons entry rest hypothesis =>
      rw [Matrix.joinRows?]
      split
      · exact tryBind throw fun _ => tryBind (except _) fun _ =>
          tryBind (joinRow _ _ _ _ _) fun _ => tryMap hypothesis
      · exact tryBind (except _) fun _ => tryBind (joinRow _ _ _ _ _) fun _ => tryMap hypothesis

theorem join : Build.Repeats (first.join? second).run := by
  refine tryBind (except _) fun arity => ?_
  split
  · exact tryPure _
  · exact tryBind (except _) fun _ => tryBind (joinRows _ _ _ _) fun _ =>
      tryBind (tryMapM fun _ => tryBind (lift (any _)) fun _ => tryPure _) fun _ => tryPure _

theorem productRow (capacity left : Nat) (value : Bit) (entries : List (Nat × Bit)) :
    Build.Repeats (Matrix.productRow? capacity left value entries).run := by
  induction entries with
  | nil => exact tryPure _
  | cons entry rest hypothesis =>
      exact tryBind (except _) fun _ => tryBind (lift (and _ _)) fun _ => tryMap hypothesis

theorem product : Build.Repeats (first.product? second).run :=
  tryBind (except _) fun _ => tryBind (except _) fun _ =>
    tryBind (tryMapM fun _ => productRow _ _ _ _) fun _ => tryPure _

theorem matrixChoice (condition : Bit) :
    Build.Repeats (Matrix.choice? condition first second).run := by
  refine tryBind (except _) fun _ => ?_
  split
  · exact tryPure _
  · exact tryBind (lift (setEach (fun _ _ _ => ite _ _ _) _ _)) fun _ =>
      lift (setEach (fun _ _ _ => ite _ _ _) _ _)

theorem subset : Build.Repeats (first.subset? second).run :=
  tryBind (except _) fun _ => tryBind (tryMapM fun _ => lift (implies _ _)) fun _ =>
    lift (all _)

theorem equals : Build.Repeats (first.equals? second).run :=
  tryBind (subset _ _) fun _ => tryBind (subset _ _) fun _ => lift (and _ _)

theorem some : Build.Repeats first.some := any _

theorem none : Build.Repeats first.none := bind (some _) fun _ => not _

theorem exclusions (seen : Bit) (values : List Bit) :
    Build.Repeats (Matrix.exclusions seen values) := by
  induction values generalizing seen with
  | nil => exact pure _
  | cons value rest hypothesis =>
      exact bind (not _) fun _ => bind (implies _ _) fun _ => bind (or _ _) fun _ =>
        map (hypothesis _)

theorem lone : Build.Repeats first.lone := bind (exclusions _ _) fun _ => all _

theorem one : Build.Repeats first.one := bind (lone _) fun _ => bind (some _) fun _ => and _ _

theorem popcount : Build.Repeats first.popcount.run :=
  @tryWidth _ (fun width => do
    let words ← first.values.mapM fun value => (liftM (Word.ofBit? value width) : TryBuild Word)
    Word.sumAll words) fun _ => tryBind (tryMapM fun _ => except _) fun _ => sumAll _

end Build.Repeats

end ModelFinder
