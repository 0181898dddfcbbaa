import Mathlib
import ModelFinder.Proofs.Compile.Operators
import ModelFinder.Proofs.Compile.Folding.Judgement
/-!
Formulas over bounds that leave nothing open: if the parts of a formula settle, so does the
formula.
-/

namespace ModelFinder.Setting

open BitFamily

variable {setting : Setting}

theorem settles_truth (value : Bool) :
    setting.SettlesFormula (.literal value) ∧ setting.SettlesFormula (.constant value) := by
  constructor <;> intro grounding _ <;> rw [Formula.compile, Formula.evaluate] <;>
    exact .pure rfl

theorem settles_connected (op : Connective) {left right : Formula}
    (leftSettles : setting.SettlesFormula left) (rightSettles : setting.SettlesFormula right) :
    setting.SettlesFormula (.binary op left right) := by
  intro grounding inRange
  rw [Formula.compile, Formula.evaluate]
  refine .bind (leftSettles grounding inRange) ?_
  rintro _ a rfl
  refine .bind (rightSettles grounding inRange) ?_
  rintro _ b rfl
  exact settled_bit (closed_folded.connective op (all_const a) (all_const b))
    (op.build_computes (.const a) (.const b)) (by rw [Bit.eval, Bit.eval])

private theorem settles_formulas {operands : List Formula}
    (settles : ∀ operand ∈ operands, setting.SettlesFormula operand) :
    setting.Settles (fun bits values => bits = values.map Bit.const)
      (Formula.compileAll setting.leaves setting.range operands)
      (Formula.evaluateAll setting.model setting.range operands) := by
  induction operands with
  | nil =>
      intro grounding _
      rw [Formula.compileAll, Formula.evaluateAll]
      exact .pure rfl
  | cons operand rest hypothesis =>
      rw [List.forall_mem_cons] at settles
      intro grounding inRange
      rw [Formula.compileAll, Formula.evaluateAll]
      refine .bind (settles.1 grounding inRange) ?_
      rintro _ value rfl
      refine .bind (hypothesis settles.2 grounding inRange) ?_
      rintro _ values rfl
      exact .pure rfl

private theorem map_const_facts (values : List Bool) (assignment : Nat → Bool) :
    folded.All setting.start (values.map Bit.const) ∧
      setting.start.KnowsAll (values.map Bit.const) ∧
      (values.map Bit.const).map (Bit.eval assignment) = values := by
  refine ⟨all_list.mpr (List.forall_mem_map.mpr fun value _ => all_const value),
    List.forall_mem_map.mpr fun value _ => .const value, ?_⟩
  rw [List.map_map]
  exact (List.map_congr_left fun value _ => by simp [Bit.eval]).trans (List.map_id values)

theorem settles_listed {op : Connective} (admitted : op = .and ∨ op = .or)
    {operands : List Formula} (settles : ∀ operand ∈ operands, setting.SettlesFormula operand) :
    setting.SettlesFormula (.nary op operands) := by
  intro grounding inRange
  rw [Formula.compile, Formula.evaluate]
  refine .bind (settles_formulas settles grounding inRange) ?_
  rintro _ values rfl
  rcases map_const_facts values setting.assignment with ⟨held, known, same⟩
  have succeeds : TryBuild.Succeeds setting.start (op.buildList (values.map Bit.const)) := by
    rcases admitted with rfl | rfl
    · exact .lift _
    · exact .lift _
  rcases run_of_folded_succeeds setting.valid_start
    (closed_folded.connectiveList op held) succeeds (op.buildList_yields known) with
    ⟨bit, ran, bitHeld, -, applied⟩
  have applied := applied setting.assignment
  rw [same] at applied
  exact .tryBuilt ⟨bit, _, ran, applied, const_of_folded bitHeld _⟩

theorem settles_negated {operand : Formula} (settles : setting.SettlesFormula operand) :
    setting.SettlesFormula (.not operand) := by
  intro grounding inRange
  rw [Formula.compile, Formula.evaluate]
  refine .bind (settles grounding inRange) ?_
  rintro _ value rfl
  exact settled_bit (closed_folded.not (all_const value)) (Build.not_computes (.const value))
    (by rw [Bit.eval])

/-- Evaluation that goes on with an expression fails if it fails on every set of the
expression's arity. -/
private theorem fails_after {δ : Type} {expr : Expr} (settles : setting.SettlesExpr expr)
    {grounding : Grounding} (inRange : grounding.InRange setting) {next : TupleSet → Evaluate δ}
    (fails : ∀ set : TupleSet, set.arity = expr.arity →
      Evaluate.Fails (grounding.sets setting) (next set)) :
    Evaluate.Fails (grounding.sets setting)
      (expr.evaluate setting.model setting.range >>= next) := by
  rcases settles grounding inRange with ⟨_, set, -, evaluates, folds⟩ | ⟨-, failed⟩
  · exact .bind (.inr ⟨set, evaluates, fails set folds.denotes.arity_eq⟩)
  · exact .bind (.inl failed)

theorem settles_compared (op : SetComparison) {left right : Expr}
    (leftSettles : setting.SettlesExpr left) (rightSettles : setting.SettlesExpr right) :
    setting.SettlesFormula (.compare op left right) := by
  intro grounding inRange
  rw [Formula.compile, Formula.evaluate]
  by_cases sameArity : left.arity = right.arity
  · refine .checked (if_pos sameArity) ?_
    refine .bind (leftSettles grounding inRange) fun leftMatrix leftSet leftFolds => ?_
    refine .bind (rightSettles grounding inRange) fun rightMatrix rightSet rightFolds => ?_
    rw [← sameArity] at rightFolds
    have succeeds : TryBuild.Succeeds setting.start (op.build leftMatrix rightMatrix) := by
      have sameSize := leftFolds.known.universeSize_eq.trans rightFolds.known.universeSize_eq.symm
      have sameColumns := leftFolds.known.arity_eq.trans rightFolds.known.arity_eq.symm
      cases op with
      | equals => exact .equals sameSize sameColumns
      | subset => exact .subset sameSize sameColumns
    rcases run_of_folded_succeeds setting.valid_start
      (closed_folded.setComparison op leftFolds.folded rightFolds.folded) succeeds
      (op.build_yields leftFolds.known rightFolds.known left right) with
      ⟨bit, ran, held, -, computed⟩
    exact .tryBuilt ⟨bit, _, ran, computed _ _ _ leftFolds.denotes rightFolds.denotes,
      const_of_folded held _⟩
  · refine .refused (if_neg sameArity) ?_
    refine fails_after leftSettles inRange fun leftSet leftArity => ?_
    refine fails_after rightSettles inRange fun rightSet rightArity => ?_
    have refused : op.compute? left right leftSet rightSet = .error _ :=
      if_pos (by rwa [leftArity, rightArity])
    rw [refused]
    exact ⟨_, rfl⟩

theorem settles_multiplicity (amount : Multiplicity) {operand : Expr}
    (settles : setting.SettlesExpr operand) :
    setting.SettlesFormula (.multiplicity amount operand) := by
  intro grounding inRange
  rw [Formula.compile, Formula.evaluate]
  refine .bind (settles grounding inRange) fun matrix set folds => ?_
  exact settled_bit (closed_folded.multiplicity amount folds.folded)
    (@Multiplicity.build_computes setting.univ _ _ amount matrix folds.known)
    (by rw [folds.denotes.size_eq])

theorem settles_comparedInts (op : IntComparison) {left right : IntExpr}
    (leftSettles : setting.SettlesInt left) (rightSettles : setting.SettlesInt right) :
    setting.SettlesFormula (.compareInts op left right) := by
  intro grounding inRange
  rw [Formula.compile, Formula.evaluate]
  refine .bind (leftSettles grounding inRange) fun leftWord a leftFolds => ?_
  refine .bind (rightSettles grounding inRange) fun rightWord b rightFolds => ?_
  exact settled_bit (closed_folded.intComparison op leftFolds.folded rightFolds.folded)
    (op.build_computes leftFolds.known rightFolds.known)
    (by rw [leftFolds.value, rightFolds.value])

theorem settles_guarded {γ δ : Type} {means : γ → δ → Prop} {compiled : Compile γ}
    {evaluated : Evaluate δ} {guard : Bit → γ → Build γ}
    (settles : setting.Settles means compiled evaluated)
    (guards : ∀ scope sets result value, means result value →
      Settled scope sets setting.start means (liftM (guard (.const true) result))
        (Pure.pure value)) :
    setting.SettlesVisits means (fun memberships => do
      let result ← compiled
      let present ← (liftM (Build.all memberships) : Compile Bit)
      (liftM (guard present result) : Compile γ)) evaluated := by
  intro pending certain grounding inRange
  have held : folded.All setting.start pending :=
    all_list.mpr fun bit member => certain bit member ▸ all_const true
  rcases run_of_folded setting.valid_start (closed_folded.all held)
    (Build.all_computes fun bit member => certain bit member ▸ .const true) with
    ⟨bit, ran, bitHeld, -, eval⟩
  have certainly : pending.all (Bit.eval setting.assignment) = true :=
    List.all_eq_true.mpr fun bit member => by rw [certain bit member, Bit.eval]
  obtain rfl : bit = .const true :=
    (const_of_folded bitHeld setting.assignment).trans
      (congrArg Bit.const ((eval _).trans certainly))
  rw [← bind_pure evaluated]
  exact .bind (settles grounding inRange) fun result value holds =>
    .step ran (guards _ _ result value holds)

private theorem eq_map_of_folds {bits : List Bit} {values : List Bool}
    (all : List.Forall₂ FoldsBit bits values) : bits = values.map Bit.const := by
  induction all with
  | nil => rfl
  | cons same _ hypothesis =>
      rw [same, hypothesis]
      rfl

theorem settles_quantified (quantifier : Quantifier) {declarations : List Decl} {body : Formula}
    (declarationsSettle : setting.SettlesDecls declarations)
    (bodySettles : setting.SettlesFormula body) :
    setting.SettlesFormula (.quantified quantifier declarations body) := by
  intro grounding inRange
  rw [Formula.evaluate, Formula.compile.eq_def]
  dsimp only
  cases quantifier with
  | some =>
      have visits := @settles_guarded setting _ _ FoldsBit _ _ Build.and bodySettles
        fun scope sets bit value same => by
          obtain rfl : bit = .const value := same
          exact settled_bit (closed_folded.and (all_const true) (all_const value))
            (Build.and_computes (.const true) (.const value)) (by simp [Bit.eval])
      refine .bind (settles_ground visits declarationsSettle [] (List.forall_mem_nil _) grounding
        inRange) fun bits values all => ?_
      obtain rfl := eq_map_of_folds all
      rcases map_const_facts values setting.assignment with ⟨held, known, same⟩
      refine settled_bit (closed_folded.any held) (Build.any_computes known) ?_
      conv_rhs => rw [← same, List.any_map]
      rfl
  | all =>
      have visits := @settles_guarded setting _ _ FoldsBit _ _ Build.implies bodySettles
        fun scope sets bit value same => by
          obtain rfl : bit = .const value := same
          exact settled_bit (closed_folded.implies (all_const true) (all_const value))
            (Build.implies_computes (.const true) (.const value)) (by simp [Bit.eval])
      refine .bind (settles_ground visits declarationsSettle [] (List.forall_mem_nil _) grounding
        inRange) fun bits values all => ?_
      obtain rfl := eq_map_of_folds all
      rcases map_const_facts values setting.assignment with ⟨held, known, same⟩
      refine settled_bit (closed_folded.all held) (Build.all_computes known) ?_
      conv_rhs => rw [← same, List.all_map]
      rfl

end ModelFinder.Setting
