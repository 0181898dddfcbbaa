import Mathlib
import ModelFinder.Proofs.Compile.Expressions
import ModelFinder.Proofs.Compile.Formulas
import ModelFinder.Proofs.Compile.Integers
/-!
Compiled terms and their evaluation. What a formula or an integer expression compiles to has,
under every assignment, the value that evaluation gives the term over the instance of the
assignment.
-/

namespace ModelFinder

namespace Setting.Sound

/-- Formed terms of which every expression's tuples and all joins can be counted. -/
abbrev countable (setting : Setting) : SyntaxCheck :=
  SyntaxCheck.formed.and (.and (.counted setting.size) .joinable)

private theorem divides_of {setting : Setting} {op : IntOp}
    (free : ¬setting.mayFail → ¬op.Divides) (divides : op.Divides) : setting.mayFail := by
  by_contra never
  exact free never divides

variable {setting : Setting}

mutual

theorem agreesExpr (sound : setting.Sound) : ∀ {expr : Expr}, expr.Every (countable setting) →
    (¬setting.mayFail → expr.Every SyntaxCheck.divisionFree) → setting.AgreesExpr expr
  | .relation leaf, _, _ => agrees_relation sound leaf
  | .variable leaf, _, _ => agrees_variable leaf
  | .constant leaf, made, _ => agrees_constant sound leaf made.2.1
  | .binary _ _ _ _, made, free =>
    agrees_combined sound (Expr.arity_of_combine? made.1.1)
      (Expr.countable_of_combine? made.1.1 (Expr.arity_pos And.left made.2.1)
        (Expr.arity_pos And.left made.2.2) made.2.2.root.2.1 made.1.2.1 made.1.2.2)
      (agreesExpr sound made.2.1 fun never => (free never).2.1)
      (agreesExpr sound made.2.2 fun never => (free never).2.2)
  | .union _ _, made, free =>
    agrees_union sound (agreesExprs sound made.2 fun never => (free never).2)
  | .ite _ _ _ _, made, free =>
    have arities := Formula.arity_of_choose? made.1.1
    agrees_chosenExpr arities.2.symm (arities.1.symm.trans arities.2.symm)
      (agreesFormula sound made.2.1 fun never => (free never).2.1)
      (agreesExpr sound made.2.2.1 fun never => (free never).2.2.1)
      (agreesExpr sound made.2.2.2 fun never => (free never).2.2.2)
  | .ofInt cast _, made, free =>
    agrees_cast sound cast made.1.2.1 (agreesInt sound made.2 fun never => (free never).2)

theorem agreesExprs (sound : setting.Sound) : ∀ {operands : List Expr},
    Expr.EveryAll (countable setting) operands →
    (¬setting.mayFail → Expr.EveryAll SyntaxCheck.divisionFree operands) →
    ∀ operand ∈ operands, setting.AgreesExpr operand
  | [], _, _ => fun _ member => nomatch member
  | _ :: _, made, free => List.forall_mem_cons.mpr
    ⟨agreesExpr sound made.1 fun never => (free never).1,
      agreesExprs sound made.2 fun never => (free never).2⟩

theorem agreesFormula (sound : setting.Sound) : ∀ {formula : Formula},
    formula.Every (countable setting) →
    (¬setting.mayFail → formula.Every SyntaxCheck.divisionFree) → setting.AgreesFormula formula
  | .literal value, _, _ => (agrees_truth value).1
  | .constant value, _, _ => (agrees_truth value).2
  | .binary op _ _, made, free =>
    agrees_connected op (agreesFormula sound made.2.1 fun never => (free never).2.1)
      (agreesFormula sound made.2.2 fun never => (free never).2.2)
  | .nary op _, made, free =>
    agrees_listed op (agreesFormulas sound made.2 fun never => (free never).2)
  | .not _, made, free =>
    agrees_negated (agreesFormula sound made.2 fun never => (free never).2)
  | .compare op _ _, made, free =>
    agrees_compared op (agreesExpr sound made.2.1 fun never => (free never).2.1)
      (agreesExpr sound made.2.2 fun never => (free never).2.2)
  | .multiplicity amount _, made, free =>
    agrees_multiplicity amount (agreesExpr sound made.2 fun never => (free never).2)
  | .quantified quantifier _ _, made, free =>
    agrees_quantified quantifier (agreesDecls sound made.2.1 fun never => (free never).2.1)
      (agreesFormula sound made.2.2 fun never => (free never).2.2)
  | .compareInts op _ _, made, free =>
    agrees_comparedInts op (agreesInt sound made.2.1 fun never => (free never).2.1)
      (agreesInt sound made.2.2 fun never => (free never).2.2)

theorem agreesFormulas (sound : setting.Sound) : ∀ {operands : List Formula},
    Formula.EveryAll (countable setting) operands →
    (¬setting.mayFail → Formula.EveryAll SyntaxCheck.divisionFree operands) →
    ∀ operand ∈ operands, setting.AgreesFormula operand
  | [], _, _ => fun _ member => nomatch member
  | _ :: _, made, free => List.forall_mem_cons.mpr
    ⟨agreesFormula sound made.1 fun never => (free never).1,
      agreesFormulas sound made.2 fun never => (free never).2⟩

theorem agreesInt (sound : setting.Sound) : ∀ {value : IntExpr},
    value.Every (countable setting) →
    (¬setting.mayFail → value.Every SyntaxCheck.divisionFree) → setting.AgreesInt value
  | .constant value, _, _ => agrees_integer value
  | .binary op _ _, made, free =>
    agrees_operated op (divides_of fun never => (free never).1)
      (agreesInt sound made.2.1 fun never => (free never).2.1)
      (agreesInt sound made.2.2 fun never => (free never).2.2)
  | .unary op _, made, free =>
    agrees_unary op (agreesInt sound made.2 fun never => (free never).2)
  | .sum _, made, free =>
    agrees_sum (agreesInts sound made.2 fun never => (free never).2)
  | .count _, made, free =>
    agrees_count (agreesExpr sound made.2 fun never => (free never).2)
  | .sumOver _ _, made, free =>
    agrees_sumOver (agreesDecls sound made.2.1 fun never => (free never).2.1)
      (agreesInt sound made.2.2 fun never => (free never).2.2)
  | .ite _ _ _, made, free =>
    agrees_chosenInt (agreesFormula sound made.2.1 fun never => (free never).2.1)
      (agreesInt sound made.2.2.1 fun never => (free never).2.2.1)
      (agreesInt sound made.2.2.2 fun never => (free never).2.2.2)
  | .sumOf _, made, free =>
    agrees_sumOf sound (agreesExpr sound made.2 fun never => (free never).2)

theorem agreesInts (sound : setting.Sound) : ∀ {operands : List IntExpr},
    IntExpr.EveryAll (countable setting) operands →
    (¬setting.mayFail → IntExpr.EveryAll SyntaxCheck.divisionFree operands) →
    ∀ operand ∈ operands, setting.AgreesInt operand
  | [], _, _ => fun _ member => nomatch member
  | _ :: _, made, free => List.forall_mem_cons.mpr
    ⟨agreesInt sound made.1 fun never => (free never).1,
      agreesInts sound made.2 fun never => (free never).2⟩

theorem agreesDecls (sound : setting.Sound) : ∀ {declarations : List Decl},
    Decl.EveryAll (countable setting) declarations →
    (¬setting.mayFail → Decl.EveryAll SyntaxCheck.divisionFree declarations) →
    setting.AgreesDecls declarations
  | [], _, _ => trivial
  | .oneOf _ _ :: _, made, free =>
    ⟨Decl.arity_of_oneOf? made.1.1, Index.capacity_of_lt sound.positive made.2.1.root.2.1,
      agreesExpr sound made.2.1 fun never => (free never).2.1,
      agreesDecls sound made.2.2 fun never => (free never).2.2⟩

end

end Setting.Sound

/-! Compiled terms -/

namespace Compiled

variable {γ δ : Type} {bounds : Bounds} {bitwidth : Nat} {compiled : Compiled γ}

theorem of_run? {compile : Leaves → IntRange → Compile γ}
    (ran : run? bounds bitwidth compile = .ok compiled) :
    ∃ range scope, IntRange.ofBitwidth? bitwidth = .ok range ∧
      Leaves.ofBounds? bounds = .ok compiled.leaves ∧
      (compile compiled.leaves range).run.run Scope.empty
          (Circuit.empty compiled.leaves.primary bitwidth) =
        ((.ok compiled.value, scope), compiled.circuit) := by
  rcases Except.bind_eq_ok_iff.mp ran with ⟨range, ranged, ran⟩
  rcases Except.bind_eq_ok_iff.mp ran with ⟨leaves, allocated, ran⟩
  rcases Except.bind_eq_ok_iff.mp ran with ⟨start, opened, ran⟩
  rcases Circuit.of_empty? opened with ⟨-, rfl⟩
  rcases Except.bind_eq_ok_iff.mp ran with ⟨_, -, ran⟩
  rcases Except.bind_eq_ok_iff.mp ran with ⟨value, succeeded, ran⟩
  cases ran
  refine ⟨range, ((compile leaves range).run.run Scope.empty
    (Circuit.empty leaves.primary bitwidth)).1.2, ranged, allocated, ?_⟩
  rw [← succeeded]
  rfl

theorem run?_eq {compile : Leaves → IntRange → Compile γ} {range : IntRange} {leaves : Leaves}
    {start circuit : Circuit} {value : γ} {scope : Scope Matrix}
    (ranged : IntRange.ofBitwidth? bitwidth = .ok range)
    (allocated : Leaves.ofBounds? bounds = .ok leaves)
    (opened : Circuit.empty? leaves.primary bitwidth = .ok start)
    (ran : (compile leaves range).run.run Scope.empty start = ((.ok value, scope), circuit)) :
    run? bounds bitwidth compile =
      circuit.checkLabels?.map fun _ => ⟨value, circuit, leaves⟩ := by
  have run : run? bounds bitwidth compile = (do
      let range ← IntRange.ofBitwidth? bitwidth
      let leaves ← Leaves.ofBounds? bounds
      let start ← Circuit.empty? leaves.primary bitwidth
      let result := (compile leaves range).run.run Scope.empty start
      result.2.checkLabels?
      return ⟨← result.1.1, result.2, leaves⟩) := rfl
  rw [run, ranged, Except.ok_bind, allocated, Except.ok_bind, opened, Except.ok_bind, ran]
  dsimp only
  cases circuit.checkLabels? with
  | error error => rfl
  | ok checked => rfl

theorem sound_setting (made : bounds.Made) (inRange : bounds.InRange)
    (labels : (bounds.openCount : Int) ≤ Circuit.maxLabel)
    {leaves : Leaves} (allocated : Leaves.ofBounds? bounds = .ok leaves) (range : IntRange)
    {assignment : Nat → Bool} {model : Instance} (realizes : leaves.Realizes assignment model)
    (mayFail : Prop) : Setting.Sound ⟨leaves, range, model, assignment, mayFail⟩ := by
  have size : UInt32.size = 4294967296 := by decide
  have largest : Circuit.maxLabel = 2147483647 := rfl
  have laid := Leaves.laid made.sound (by omega) allocated
  have same := (Leaves.of_ofBounds? allocated).1
  refine ⟨same ▸ allocated, laid, same ▸ inRange, ?_, realizes⟩
  change leaves.primary < 2147483648
  rw [laid.primary_eq, same]
  omega

theorem means_of_agrees {setting : Setting} {known : Circuit → γ → Prop} {means : γ → δ → Prop}
    {compile : Compile γ} {evaluated : Evaluate δ} {scope : Scope Matrix}
    (agrees : setting.Agrees known means compile evaluated)
    (ran : compile.run.run Scope.empty
        (Circuit.empty setting.leaves.primary setting.range.bitwidth) =
      ((.ok compiled.value, scope), compiled.circuit)) :
    compiled.circuit.Valid ∧ compiled.circuit.primary = setting.leaves.primary ∧
      known compiled.circuit compiled.value ∧
      Evaluate.Gives Scope.empty setting.mayFail evaluated (means compiled.value) := by
  have yields := agrees [] (Circuit.empty setting.leaves.primary setting.range.bitwidth)
    (by simp [Grounding.InRange]) ⟨rfl, rfl⟩ (Circuit.valid_empty _ _)
  have same : compile.run.run ((Grounding.matrices setting [])) (Circuit.empty
      setting.leaves.primary setting.range.bitwidth) =
        ((.ok compiled.value, scope), compiled.circuit) := ran
  rw [same] at yields
  rcases yields with ⟨valid, grown, -, holds⟩
  rcases holds compiled.value rfl with ⟨known, gives⟩
  exact ⟨valid, grown.primary, known, gives⟩

end Compiled

theorem Instance.run?_of_gives {δ : Type} {bitwidth : Nat} {range : IntRange}
    {evaluate : IntRange → Evaluate δ} {mayFail : Prop} {value : δ}
    (ranged : IntRange.ofBitwidth? bitwidth = .ok range)
    (gives : Evaluate.Gives Scope.empty mayFail (evaluate range) (· = value)) :
    Instance.run? bitwidth evaluate = .ok value ∨
      mayFail ∧ ∃ left op right,
        Instance.run? bitwidth evaluate = .error (.divisionByZero left op right) := by
  have ran : Instance.run? bitwidth evaluate = ((evaluate range).run.run Scope.empty).1 := by
    rw [Instance.run?, ranged]
    rfl
  rw [ran]
  rcases gives with ⟨found, succeeded, rfl⟩ | failed
  · exact .inl (by rw [succeeded])
  · exact .inr failed

section

variable {bounds : Bounds} {bitwidth : Nat} (made : bounds.Made) (inRange : bounds.InRange)
  (labels : (bounds.openCount : Int) ≤ Circuit.maxLabel)

include made inRange labels

/-- The bit of a compiled formula has the truth value that evaluation gives the formula over
an instance that the assignment stands for. Only a division by zero can keep evaluation from
giving one. -/
theorem Formula.compiled_agrees {formula : Formula} {compiled : Compiled Bit}
    (formed : formula.Every SyntaxCheck.formed)
    (counted : formula.Every (.and (.counted bounds.univ.size) .joinable))
    (ran : formula.compiled? bounds bitwidth = .ok compiled) {assignment : Nat → Bool}
    {model : Instance} (realizes : compiled.leaves.Realizes assignment model) :
    compiled.circuit.Valid ∧ compiled.circuit.primary = compiled.leaves.primary ∧
      compiled.circuit.Knows compiled.value ∧
      (model.formula? bitwidth formula = .ok (compiled.value.eval assignment) ∨
        ¬formula.Every SyntaxCheck.divisionFree ∧ ∃ left op right,
          model.formula? bitwidth formula = .error (.divisionByZero left op right)) := by
  rcases Compiled.of_run? ran with ⟨range, scope, ranged, allocated, run⟩
  have sound := Compiled.sound_setting made inRange labels allocated range realizes
    (¬formula.Every SyntaxCheck.divisionFree)
  have same := (Leaves.of_ofBounds? allocated).1
  rw [← same] at counted
  have agrees := sound.agreesFormula (Formula.every_and formed counted) not_not.mp
  have width : range.bitwidth = bitwidth := IntRange.bitwidth_of_ofBitwidth? ranged
  subst width
  rcases Compiled.means_of_agrees agrees run with ⟨valid, primary, known, gives⟩
  exact ⟨valid, primary, known, Instance.run?_of_gives ranged gives⟩

theorem IntExpr.compiled_agrees {value : IntExpr} {compiled : Compiled Word}
    (formed : value.Every SyntaxCheck.formed)
    (counted : value.Every (.and (.counted bounds.univ.size) .joinable))
    (ran : value.compiled? bounds bitwidth = .ok compiled) {assignment : Nat → Bool}
    {model : Instance} (realizes : compiled.leaves.Realizes assignment model) :
    compiled.circuit.KnowsWord compiled.value ∧ compiled.value.width = bitwidth ∧
      (model.int? bitwidth value = .ok (compiled.value.eval assignment) ∨
        ¬value.Every SyntaxCheck.divisionFree ∧ ∃ left op right,
          model.int? bitwidth value = .error (.divisionByZero left op right)) := by
  rcases Compiled.of_run? ran with ⟨range, scope, ranged, allocated, run⟩
  have sound := Compiled.sound_setting made inRange labels allocated range realizes
    (¬value.Every SyntaxCheck.divisionFree)
  have same := (Leaves.of_ofBounds? allocated).1
  rw [← same] at counted
  have agrees := sound.agreesInt (IntExpr.every_and formed counted) not_not.mp
  have width : range.bitwidth = bitwidth := IntRange.bitwidth_of_ofBitwidth? ranged
  subst width
  rcases Compiled.means_of_agrees agrees run with ⟨-, -, known, gives⟩
  exact ⟨known.1, known.2, Instance.run?_of_gives ranged gives⟩

/-- Compilation and evaluation agree. Every assignment of the primary variables has an
instance, in which the bound relations hold their certain tuples and the open ones whose
variables are true. Evaluation over this instance gives every formula the truth value of its
bit and every integer expression the number of its word, unless a divisor is zero somewhere;
a term without division and remainder always has its value. -/
theorem evaluates_as_compiled (countable : bounds.Countable) (assignment : Nat → Bool) :
    (∀ (formula : Formula) (compiled : Compiled Bit), formula.Every SyntaxCheck.formed →
      formula.Every (.and (.counted bounds.univ.size) .joinable) →
      formula.compiled? bounds bitwidth = .ok compiled →
      ∃ model, decodeInstance? bounds compiled.leaves.layout assignment = .ok model ∧
        compiled.leaves.Realizes assignment model ∧
        (model.formula? bitwidth formula = .ok (compiled.value.eval assignment) ∨
          ∃ left op right,
            model.formula? bitwidth formula = .error (.divisionByZero left op right)) ∧
        (formula.Every SyntaxCheck.divisionFree →
          model.formula? bitwidth formula = .ok (compiled.value.eval assignment))) ∧
    ∀ (value : IntExpr) (compiled : Compiled Word), value.Every SyntaxCheck.formed →
      value.Every (.and (.counted bounds.univ.size) .joinable) →
      value.compiled? bounds bitwidth = .ok compiled →
      ∃ model, decodeInstance? bounds compiled.leaves.layout assignment = .ok model ∧
        compiled.leaves.Realizes assignment model ∧
        (model.int? bitwidth value = .ok (compiled.value.eval assignment) ∨
          ∃ left op right, model.int? bitwidth value = .error (.divisionByZero left op right)) ∧
        (value.Every SyntaxCheck.divisionFree →
          model.int? bitwidth value = .ok (compiled.value.eval assignment)) := by
  have decodes : ∀ leaves : Leaves, Leaves.ofBounds? bounds = .ok leaves →
      decodeInstance? bounds leaves.layout assignment = .ok (leaves.decoded assignment) ∧
        leaves.Realizes assignment (leaves.decoded assignment) := by
    intro leaves allocated
    have size : UInt32.size = 4294967296 := by decide
    have largest : Circuit.maxLabel = 2147483647 := rfl
    have laid := Leaves.laid made.sound (by omega) allocated
    have same := (Leaves.of_ofBounds? allocated).1
    subst same
    exact ⟨laid.decodeInstance?_eq_decoded inRange countable assignment,
      laid.realizes_decoded assignment⟩
  constructor
  · intro formula compiled formed counted ran
    rcases Compiled.of_run? ran with ⟨-, -, -, allocated, -⟩
    rcases decodes compiled.leaves allocated with ⟨decoded, realizes⟩
    refine ⟨_, decoded, realizes, ?_⟩
    rcases (formula.compiled_agrees made inRange labels formed counted ran realizes).2.2.2 with
      same | ⟨divides, failed⟩
    · exact ⟨.inl same, fun _ => same⟩
    · exact ⟨.inr failed, fun free => absurd free divides⟩
  · intro value compiled formed counted ran
    rcases Compiled.of_run? ran with ⟨-, -, -, allocated, -⟩
    rcases decodes compiled.leaves allocated with ⟨decoded, realizes⟩
    refine ⟨_, decoded, realizes, ?_⟩
    rcases (value.compiled_agrees made inRange labels formed counted ran realizes).2.2 with
      same | ⟨divides, failed⟩
    · exact ⟨.inl same, fun _ => same⟩
    · exact ⟨.inr failed, fun free => absurd free divides⟩

end

/-! A relation of pets, of which there may be up to two. -/

def pet : Relation := ⟨0, "Pet", 1⟩

def petBounds : Bounds :=
  ⟨animals, [⟨pet, .empty animals 1, ⟨animals, 1, .ofList [0, 1]⟩⟩], ∅⟩

def onePet : Formula := .multiplicity .one (.relation pet)

theorem petBounds_made : petBounds.Made := by
  have included : (TupleSet.empty animals 1).isSubset ⟨animals, 1, .ofList [0, 1]⟩ = true := by
    decide +kernel
  have bound : (Bounds.empty animals).bind? pet (.empty animals 1)
      ⟨animals, 1, .ofList [0, 1]⟩ = .ok petBounds :=
    Bounds.bind?_of_isSubset rfl rfl rfl rfl included
  exact .bind (.empty animals_named) bound

theorem petBounds_inRange : petBounds.InRange :=
  .single (TupleSet.inRange_animals 1 [0, 1] (by decide))

theorem petBounds_countable : petBounds.Countable :=
  List.forall_mem_singleton.mpr (by decide)

theorem onePet_formed : onePet.Every SyntaxCheck.formed := ⟨trivial, rfl⟩

theorem onePet_counted : onePet.Every (.and (.counted petBounds.univ.size) .joinable) := by
  have atoms : 2 ^ 1 < Index.limit := by decide
  exact ⟨⟨trivial, trivial⟩, atoms, trivial⟩

theorem evaluates_as_compiled_cat : ∃ compiled model,
    onePet.compiled? petBounds 4 = .ok compiled ∧
    decodeInstance? petBounds compiled.leaves.layout (· == 1) = .ok model ∧
    model.formula? 4 onePet = .ok true := by
  have value : (onePet.compiled? petBounds 4).toOption.map (fun compiled =>
      compiled.value.eval (· == 1)) = some true := by decide +kernel
  have labels : (petBounds.openCount : Int) ≤ Circuit.maxLabel := by decide +kernel
  rcases Except.exists_ok_of_map value with ⟨compiled, ran, isTrue⟩
  rcases (evaluates_as_compiled petBounds_made petBounds_inRange labels petBounds_countable
    (· == 1)).1 onePet compiled onePet_formed onePet_counted ran with ⟨model, decoded, -, -, exact⟩
  refine ⟨compiled, model, ran, decoded, ?_⟩
  rw [exact ⟨trivial, trivial⟩, isTrue]

/-! What compiles and cannot be evaluated -/

def Formula.Fails (formula : Formula) (bounds : Bounds) (bitwidth : Nat) (error : Error) :
    Prop :=
  ∃ compiled assignment model, formula.compiled? bounds bitwidth = .ok compiled ∧
    decodeInstance? bounds compiled.leaves.layout assignment = .ok model ∧
    model.formula? bitwidth formula = .error error

/-- A formed formula over bounds that can be made, in which labels do not run out and the tuples
of all relations and expressions can be counted. -/
structure Formula.Fits (formula : Formula) (bounds : Bounds) : Prop where
  made : bounds.Made
  labels : (bounds.openCount : Int) < Circuit.maxLabel
  countable : bounds.Countable
  formed : formula.Every SyntaxCheck.formed
  counted : formula.Every (.counted bounds.univ.size)

def noWide : Formula :=
  .multiplicity .no (.binary .join (.constant .univ) (.relation wide) 4294967295)

theorem someInt_fits : someInt.Fits strayInt where
  made := strayInt_made
  labels := by decide +kernel
  countable := List.forall_mem_nil _
  formed := ⟨trivial, trivial⟩
  counted := ⟨trivial, (by decide : 2 ^ 1 < Index.limit)⟩

theorem noWide_fits : noWide.Fits hermitBounds where
  made := hermitBounds_made
  labels := by decide +kernel
  countable _ _ := hermitage_counted _
  formed := ⟨trivial, rfl, trivial, rfl⟩
  counted := by
    have small (arity : Nat) : hermitBounds.univ.size ^ arity < Index.limit :=
      hermitage_counted arity
    exact ⟨trivial, small _, small _, small _⟩

theorem someInt_fails : ∃ last,
    someInt.Fails strayInt 4 (.invalidArgument (.indexOutOfRange last 1)) := by
  have succeeds : (someInt.compiled? strayInt 4).isOk = true := by decide +kernel
  rcases Except.isOk_iff_exists.mp succeeds with ⟨compiled, ran⟩
  rcases Compiled.of_run? ran with ⟨-, -, -, allocated, -⟩
  have same := (Leaves.of_ofBounds? allocated).1
  let model := compiled.leaves.decoded fun _ => false
  have decoded : decodeInstance? strayInt compiled.leaves.layout (fun _ => false) =
      .ok model := by
    rw [← same]
    apply Leaves.decodeInstance?_of_parts
    · rw [same]
      exact List.nodup_nil
    · rw [Leaves.layout, same]
      exact List.forall_mem_nil _
  have univ : model.univ = animals := congrArg Bounds.univ same
  have atoms : Index.capacity model.univ.size 1 = .ok model.univ.size := by
    rw [univ]
    rfl
  have bound : model.intAtom? 1 = some 3 := by
    change compiled.leaves.bounds.intAtoms[1]? = some 3
    rw [same]
    exact Std.ExtTreeMap.getElem?_insert_self
  have beyond : model.univ.size ≤ 3 := by
    rw [univ]
    decide
  rcases Instance.someInt_refused atoms bound beyond with ⟨last, refused⟩
  exact ⟨last, compiled, _, model, ran, decoded, refused⟩

theorem Instance.noWide_refused {model : Instance} {set : TupleSet}
    (univ : model.univ = hermitage) (found : model.tuples? wide = some set)
    (sameUniverse : set.univ = hermitage) (arity : set.arity = 4294967296) :
    model.formula? 4 noWide = .error (.violation .overflow) := by
  have hermits : TupleSet.all hermitage 1 = .ok ⟨hermitage, 1, .ofList [0]⟩ := rfl
  have columns : Index.columns 1 set.arity = .ok (1 + set.arity) := by
    rw [arity]
    rfl
  have refused : TupleSet.join? ⟨hermitage, 1, .ofList [0]⟩ set =
      .error (.violation .overflow) :=
    TupleSet.join?_of_zero sameUniverse columns (by rw [arity]; decide) (by rw [arity]; decide)
  have lifted : ∀ (left : TupleSet) (next : TupleSet → Evaluate TupleSet),
      (liftM (Except.ok left : Except Error TupleSet) : Evaluate TupleSet) >>= next = next left :=
    fun _ _ => rfl
  rw [formula?, run?]
  simp only [noWide, Formula.evaluate, Expr.evaluate, found, constant?, univ, hermits, lifted,
    pure_bind, SetOp.compute?, refused]
  rfl

theorem noWide_fails : noWide.Fails hermitBounds 4 (.violation .overflow) := by
  have succeeds : (noWide.compiled? hermitBounds 4).isOk = true := by decide +kernel
  rcases Except.isOk_iff_exists.mp succeeds with ⟨compiled, ran⟩
  rcases Compiled.of_run? ran with ⟨-, -, -, allocated, -⟩
  have same := (Leaves.of_ofBounds? allocated).1
  have laid := Leaves.laid hermitBounds_made.sound (by decide +kernel) allocated
  have decoded := laid.decodeInstance?_eq_decoded (by rw [same]; exact hermitBounds_inRange)
    (by rw [same]; exact noWide_fits.countable) fun _ => false
  have realizes := laid.realizes_decoded fun _ => false
  rw [same] at decoded
  have univ : compiled.leaves.bounds.univ = hermitage := congrArg Bounds.univ same
  have chosen := realizes.chosen
  rw [same] at chosen
  rcases chosen _ (List.mem_singleton_self _) with ⟨set, found, setUniv, arity, -⟩
  have refused := Instance.noWide_refused (realizes.univ.trans univ) found setUniv arity
  exact ⟨compiled, _, _, ran, decoded, refused⟩

/-- What compiles may fail in evaluation without a division by zero: the integers where one of them
is bound to what is no atom, and a join with a relation of too many columns, since matrices of
which one has no cells are joined without a look at columns. -/
theorem evaluation_refused :
    (TupleSet.stray.Joined ∧ someInt.Fits strayInt ∧ someInt.Every .joinable ∧ ∃ last,
      someInt.Fails strayInt 4 (.invalidArgument (.indexOutOfRange last 1))) ∧
    noWide.Fits hermitBounds ∧ hermitBounds.InRange ∧
      noWide.Fails hermitBounds 4 (.violation .overflow) :=
  ⟨⟨TupleSet.stray_joined.1, someInt_fits, ⟨trivial, trivial⟩, someInt_fails⟩, noWide_fits,
    hermitBounds_inRange, noWide_fails⟩

end ModelFinder
