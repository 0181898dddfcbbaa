import Mathlib
import ModelFinder.Compile
import ModelFinder.Proofs.Circuit.Closure.Matrices
import ModelFinder.Proofs.Syntax.Formation
/-!
Compilation stays within a family of bits. If the matrices of the relations that a term
mentions are in the family, so is everything that the term compiles to, however the term is
built.
-/

namespace ModelFinder

instance : HasBits (Scope Matrix) :=
  ⟨fun scope => HasBits.bits (scope.bindings.map Prod.snd)⟩

def SyntaxCheck.relations (check : Relation → Prop) : SyntaxCheck where
  expr
    | .relation leaf => check leaf
    | _ => True
  formula _ := True
  int _ := True
  decl _ := True

theorem SyntaxCheck.total_relations {check : Relation → Prop} (holds : ∀ leaf, check leaf) :
    (SyntaxCheck.relations check).Total :=
  ⟨fun node => by cases node <;> first | exact holds _ | trivial,
    fun _ => trivial, fun _ => trivial, fun _ => trivial⟩

namespace BitFamily

/-- From a circuit on, a compilation in a scope of the family stays within the family. -/
def Within (family : BitFamily) (start : Circuit) {α : Type} [HasBits α] (action : Compile α) :
    Prop :=
  ∀ (scope : Scope Matrix) (circuit : Circuit), family.Grows start circuit →
    family.All circuit scope → family.Keeps circuit (action.run.run scope)

variable {family : BitFamily} {start : Circuit} {α β : Type} [HasBits α] [HasBits β]

theorem all_extend {scope : Scope Matrix} {declared : Variable} {matrix : Matrix}
    (scopeHeld : family.All start scope) (held : family.All start matrix) :
    family.All start (scope.extend declared matrix) :=
  all_cons.mpr ⟨held, scopeHeld⟩

theorem All.pop {scope : Scope Matrix} (held : family.All start scope) :
    family.All start scope.pop := by
  rcases scope with ⟨bindings⟩
  cases bindings with
  | nil => exact held
  | cons binding rest => exact (all_cons.mp held).2

theorem All.lookup {scope : Scope Matrix} (held : family.All start scope) {leaf : Variable}
    {matrix : Matrix} (found : scope.lookup leaf = some matrix) : family.All start matrix := by
  rcases Option.map_eq_some_iff.mp found with ⟨binding, stored, rfl⟩
  exact all_list.mp held _ (List.mem_map_of_mem (List.mem_of_find?_eq_some stored))

namespace Within

theorem mono {action : Compile α} {after : Circuit} (within : family.Within start action)
    (grown : family.Grows start after) : family.Within after action :=
  fun scope circuit grownAgain => within scope circuit (family.trans grown grownAgain)

theorem pure {value : α} (held : family.All start value) :
    family.Within start (Pure.pure value) :=
  fun _ _ grown scopeHeld =>
    Keeps.pure (all_pair.mpr ⟨all_ok.mpr (held.mono grown), scopeHeld⟩)

theorem throw {error : Error} :
    family.Within start (MonadExcept.throw error : Compile α) :=
  fun _ _ _ scopeHeld => Keeps.pure (all_pair.mpr ⟨all_error, scopeHeld⟩)

theorem throwBind {γ : Type} {error : Error} {next : γ → Compile α} :
    family.Within start ((MonadExcept.throw error : Compile γ) >>= next) :=
  fun _ _ _ scopeHeld => Keeps.pure (all_pair.mpr ⟨all_error, scopeHeld⟩)

theorem except {outcome : Except Error α} (held : family.All start outcome) :
    family.Within start (liftM outcome) :=
  fun _ _ grown scopeHeld => Keeps.pure (all_pair.mpr ⟨held.mono grown, scopeHeld⟩)

theorem getScope : family.Within start (getThe (Scope Matrix)) :=
  fun _ _ _ scopeHeld => Keeps.pure (all_pair.mpr ⟨all_ok.mpr scopeHeld, scopeHeld⟩)

theorem build {action : Build α}
    (keeps : ∀ circuit, family.Grows start circuit → family.Keeps circuit action) :
    family.Within start (liftM action) := by
  intro scope circuit grown scopeHeld
  change family.Keeps circuit (action >>= fun value => Pure.pure (Except.ok value, scope))
  exact Keeps.bind (keeps circuit grown) fun _ _ grownAgain held =>
    Keeps.pure (all_pair.mpr ⟨all_ok.mpr held, scopeHeld.mono grownAgain⟩)

theorem tryBuild {action : TryBuild α}
    (keeps : ∀ circuit, family.Grows start circuit → family.Keeps circuit action.run) :
    family.Within start (liftM action) := by
  intro scope circuit grown scopeHeld
  change family.Keeps circuit (action.run >>= fun outcome => Pure.pure (outcome, scope))
  exact Keeps.bind (keeps circuit grown) fun _ _ grownAgain held =>
    Keeps.pure (all_pair.mpr ⟨held, scopeHeld.mono grownAgain⟩)

theorem bind {action : Compile α} {next : α → Compile β} (first : family.Within start action)
    (second : ∀ value middle, family.Grows start middle → family.All middle value →
      family.Within middle (next value)) : family.Within start (action >>= next) := by
  intro scope circuit grown scopeHeld
  change family.Keeps circuit (action.run.run scope >>= fun result =>
    (ExceptT.bindCont next result.1).run result.2)
  refine Keeps.bind (first scope circuit grown scopeHeld) fun result middle grownAgain held => ?_
  rcases result with ⟨outcome, left⟩
  rw [all_pair] at held
  cases outcome with
  | error error => exact Keeps.pure (all_pair.mpr ⟨all_error, held.2⟩)
  | ok value =>
      exact second value middle (family.trans grown grownAgain) (all_ok.mp held.1) left middle
        (family.refl middle) held.2

theorem map {action : Compile α} {transform : α → β} (first : family.Within start action)
    (parts : ∀ value middle, family.Grows start middle → family.All middle value →
      family.All middle (transform value)) :
    family.Within start (do return transform (← action)) :=
  bind first fun value middle grown held => pure (parts value middle grown held)

theorem mapM {γ : Type} {elements : List γ} {action : γ → Compile α}
    (each : ∀ element ∈ elements, family.Within start (action element)) :
    family.Within start (elements.mapM action) := by
  induction elements generalizing start with
  | nil => exact pure all_nil
  | cons element rest hypothesis =>
      rw [List.forall_mem_cons] at each
      rw [List.mapM_cons]
      refine bind each.1 fun result middle grown held => ?_
      refine bind (hypothesis fun other member => (each.2 other member).mono grown)
        fun results after grownAgain heldAll => ?_
      exact pure (all_cons.mpr ⟨held.mono grownAgain, heldAll⟩)

theorem binding {declared : Variable} {matrix : Matrix} {action : Compile α}
    (held : family.All start matrix) (within : family.Within start action) :
    family.Within start (Scope.binding declared matrix action) := by
  intro scope circuit grown scopeHeld
  change family.Keeps circuit (action.run.run (scope.extend declared matrix) >>= fun result =>
    Pure.pure (result.1, result.2.pop))
  refine Keeps.bind (within _ circuit grown (all_extend scopeHeld (held.mono grown)))
    fun result after _ resultHeld => Keeps.pure ?_
  rw [all_pair] at resultHeld
  exact all_pair.mpr ⟨resultHeld.1, resultHeld.2.pop⟩

end Within

theorem All.flattenAll {rows : List (List α)} (held : family.All start rows) :
    family.All start rows.flatten := by
  refine all_list.mpr fun value member => ?_
  rcases List.mem_flatten.mp member with ⟨row, rowMember, inRow⟩
  exact (held.of_mem rowMember).of_mem inRow

/-- Visits of groundings stay within the family if the domains and each single visit do. -/
theorem within_ground {domains : List (Variable × Compile Matrix)} {pending : List Bit}
    {visit : List Bit → Compile α}
    (within : ∀ domain ∈ domains, family.Within start domain.2)
    (pendingHeld : family.All start pending)
    (visits : ∀ memberships middle, family.Grows start middle → family.All middle memberships →
      family.Within middle (visit memberships)) :
    family.Within start (ground domains pending visit) := by
  induction domains generalizing start pending with
  | nil =>
      rw [ground]
      exact .map (visits pending start (family.refl start) pendingHeld) fun _ _ _ held =>
        all_cons.mpr ⟨held, all_nil⟩
  | cons domain rest hypothesis =>
      rw [List.forall_mem_cons] at within
      rw [ground]
      refine .bind within.1 fun matrix middle grown held => ?_
      refine .map (.mapM fun entry member => .binding (all_constantMatrix _ _ _) ?_)
        fun _ _ _ rowsHeld => rowsHeld.flattenAll
      have entryHeld := (all_pair.mp (held.entries.of_mem member)).2
      exact hypothesis (fun other otherMember => (within.2 other otherMember).mono grown)
        (all_append.mpr ⟨pendingHeld.mono grown, all_cons.mpr ⟨entryHeld, all_nil⟩⟩)
        fun memberships after grownAgain => visits memberships after (family.trans grown grownAgain)

theorem all_checked {outcome : Except Error Unit} : family.All start outcome := by
  cases outcome with
  | error error => exact all_error
  | ok checked => exact all_ok.mpr all_unit

/-! Operators -/

namespace Closed

variable (closed : family.Closed) {circuit : Circuit}

include closed

theorem setOp (op : SetOp) {left right : Matrix} (leftHeld : family.All circuit left)
    (rightHeld : family.All circuit right) : family.Keeps circuit (op.build left right).run := by
  cases op with
  | join => exact closed.join leftHeld rightHeld
  | product => exact closed.product leftHeld rightHeld
  | union => exact closed.union leftHeld rightHeld
  | difference => exact closed.difference leftHeld rightHeld
  | intersection => exact closed.intersection leftHeld rightHeld

theorem setComparison (op : SetComparison) {left right : Matrix}
    (leftHeld : family.All circuit left) (rightHeld : family.All circuit right) :
    family.Keeps circuit (op.build left right).run := by
  cases op with
  | equals => exact closed.equals leftHeld rightHeld
  | subset => exact closed.subset leftHeld rightHeld

theorem multiplicity (amount : Multiplicity) {matrix : Matrix}
    (held : family.All circuit matrix) : family.Keeps circuit (amount.build matrix) := by
  cases amount with
  | some => exact closed.some held
  | one => exact closed.one held
  | lone => exact closed.lone held
  | no => exact closed.none held

theorem connective (op : Connective) {left right : Bit} (leftHeld : family.All circuit left)
    (rightHeld : family.All circuit right) : family.Keeps circuit (op.build left right) := by
  cases op with
  | and => exact closed.and leftHeld rightHeld
  | or => exact closed.or leftHeld rightHeld
  | iff => exact closed.iff leftHeld rightHeld
  | implies => exact closed.implies leftHeld rightHeld

theorem connectiveList (op : Connective) {operands : List Bit}
    (held : family.All circuit operands) : family.Keeps circuit (op.buildList operands).run := by
  cases op with
  | and => exact .lift (closed.all held)
  | or => exact .lift (closed.any held)
  | iff => exact .throw
  | implies => exact .throw

theorem intComparison (op : IntComparison) {left right : Word}
    (leftHeld : family.All circuit left) (rightHeld : family.All circuit right) :
    family.Keeps circuit (op.build left right) := by
  cases op with
  | eq => exact closed.eq leftHeld rightHeld
  | lt => exact closed.lt leftHeld rightHeld
  | lte => exact closed.lte leftHeld rightHeld
  | gt => exact closed.lt rightHeld leftHeld
  | gte => exact closed.lte rightHeld leftHeld

theorem intUnaryOp (op : IntUnaryOp) {operand : Word} (held : family.All circuit operand) :
    family.Keeps circuit (op.build operand) := by
  cases op with
  | negate => exact closed.negate held
  | abs => exact closed.abs held
  | sgn => exact closed.sgn held
  | not => exact closed.wordNot held

theorem intOp (op : IntOp) {left right : Word} (leftHeld : family.All circuit left)
    (rightHeld : family.All circuit right) : family.Keeps circuit (op.build left right) := by
  have gates : ∀ gate : Bit → Bit → Build Bit, (∀ {after first second},
      family.All after first → family.All after second → family.Keeps after (gate first second)) →
        family.Keeps circuit (Word.bitwise gate left right) :=
    fun gate keeps => bitwise leftHeld rightHeld fun _ firstHeld secondHeld =>
      keeps firstHeld secondHeld
  cases op with
  | plus => exact closed.plus leftHeld rightHeld
  | minus => exact closed.minus leftHeld rightHeld
  | multiply => exact closed.multiply leftHeld rightHeld
  | divide => exact closed.divide leftHeld rightHeld
  | modulo => exact closed.modulo leftHeld rightHeld
  | and => exact gates _ closed.and
  | or => exact gates _ closed.or
  | xor => exact gates _ closed.xor
  | shl => exact closed.shift leftHeld rightHeld
  | shr => exact closed.shift leftHeld rightHeld
  | sha => exact closed.shift leftHeld rightHeld

/-! Casts -/

theorem atomMatrix {universeSize : Nat} {conditions : List (Nat × Bit)}
    (held : family.All circuit conditions) :
    family.Keeps circuit (atomMatrix universeSize conditions) := by
  refine .map (.mapM fun group member after grown => ?_) fun _ _ _ combinedHeld =>
    (all_empty _ _).setAll combinedHeld
  have groupHeld := all_pair.mp (held.grouped.of_mem member)
  exact .map (closed.any (groupHeld.2.mono grown)) fun _ _ _ bitHeld =>
    all_pair.mpr ⟨all_nat, bitHeld⟩

theorem valueAtoms {leaves : Leaves} {range : IntRange} {word : Word}
    (held : family.All circuit word) : family.Keeps circuit (valueAtoms leaves range word) := by
  refine .bind (.mapM fun entry member after grown => ?_) fun conditions _ _ conditionsHeld =>
    closed.atomMatrix conditionsHeld
  exact .map (closed.eq (held.mono grown) (all_constant _ _)) fun _ _ _ bitHeld =>
    all_pair.mpr ⟨all_nat, bitHeld⟩

theorem bitAtoms {leaves : Leaves} {range : IntRange} {word : Word}
    (held : family.All circuit word) : family.Keeps circuit (bitAtoms leaves range word) := by
  refine closed.atomMatrix (all_append.mpr ⟨all_list.mpr fun condition member => ?_,
    all_list.mpr fun condition member => ?_⟩)
  · rcases List.mem_filterMap.mp member with ⟨position, -, found⟩
    rcases Option.map_eq_some_iff.mp found with ⟨atom, -, rfl⟩
    exact all_pair.mpr ⟨all_nat, held.bit position⟩
  · rcases List.mem_map.mp member with ⟨atom, -, rfl⟩
    exact all_pair.mpr ⟨all_nat, held.sign⟩

theorem memberInts {leaves : Leaves} {range : IntRange} {matrix : Matrix}
    (held : family.All circuit matrix) :
    family.Keeps circuit (memberInts leaves range matrix) :=
  .mapM fun _ _ _ grown =>
    closed.choice ((held.cell _).mono grown) (all_constant _ _) (all_zero _)

end Closed

/-! Terms -/

section

variable {leaves : Leaves} {range : IntRange}

private theorem within_conditional {condition : Compile Bit}
    {thenCompiled elseCompiled : Compile α} {choice : Bit → α → α → Compile α}
    (conditionWithin : family.Within start condition)
    (thenWithin : family.Within start thenCompiled) (elseWithin : family.Within start elseCompiled)
    (chooses : ∀ middle bit thenResult elseResult, family.All middle bit →
      family.All middle thenResult → family.All middle elseResult →
      family.Within middle (choice bit thenResult elseResult)) :
    family.Within start (do
      let bit ← condition
      match bit.const? with
      | some true => thenCompiled
      | some false => elseCompiled
      | none => do
        let thenResult ← thenCompiled
        let elseResult ← elseCompiled
        choice bit thenResult elseResult) := by
  refine .bind conditionWithin fun bit first grown bitHeld => ?_
  split
  · exact thenWithin.mono grown
  · exact elseWithin.mono grown
  · refine .bind (thenWithin.mono grown) fun thenResult second grown' thenHeld => ?_
    refine .bind ((elseWithin.mono grown).mono grown') fun elseResult third grown'' elseHeld => ?_
    exact chooses third bit thenResult elseResult ((bitHeld.mono grown').mono grown'')
      (thenHeld.mono grown'') elseHeld

private theorem within_operands {γ : Type} [HasBits γ] {left : Compile α}
    {right : Compile β} {next : α → β → Compile γ} (leftWithin : family.Within start left)
    (rightWithin : family.Within start right)
    (builds : ∀ leftResult rightResult middle, family.Grows start middle →
      family.All middle leftResult → family.All middle rightResult →
      family.Within middle (next leftResult rightResult)) :
    family.Within start (do next (← left) (← right)) := by
  refine .bind leftWithin fun leftResult first grown leftHeld => ?_
  refine .bind (rightWithin.mono grown) fun rightResult second grown' rightHeld => ?_
  exact builds _ _ second (family.trans grown grown') (leftHeld.mono grown') rightHeld

private theorem within_guarded (closed : family.Closed) {body : Compile α}
    {guard : Bit → α → Build α} (within : family.Within start body)
    (guards : ∀ {circuit present result}, family.All circuit present →
      family.All circuit result → family.Keeps circuit (guard present result))
    {memberships : List Bit} (held : family.All start memberships) :
    family.Within start (do
      let value ← body
      let present ← (liftM (Build.all memberships) : Compile Bit)
      (liftM (guard present value) : Compile α)) := by
  refine .bind within fun value first grown valueHeld => ?_
  refine .bind (.build fun circuit grown' => closed.all ((held.mono grown).mono grown'))
    fun present second grown' presentHeld => ?_
  exact .build fun circuit grown'' =>
    guards (presentHeld.mono grown'') ((valueHeld.mono grown').mono grown'')

mutual

theorem within_expr (closed : family.Closed) : ∀ {expr : Expr}, expr.Every (.relations fun leaf =>
    family.All start (leaves.relationMatrix? leaf)) →
      family.Within start (expr.compile leaves range)
  | .relation leaf, held => by
    rw [Expr.compile]
    exact .except held
  | .variable leaf, _ => by
    rw [Expr.compile]
    refine .bind .getScope fun scope middle _ scopeHeld => ?_
    split
    · rename_i matrix found
      exact .pure (scopeHeld.lookup found)
    · exact .throw
  | .constant leaf, _ => by
    rw [Expr.compile]
    refine .pure ?_
    cases leaf with
    | univ => exact all_constantMatrix _ _ _
    | iden => exact all_constantMatrix _ _ _
    | none => exact all_empty _ _
    | ints => exact all_constantMatrix _ _ _
  | .binary op left right arity, held => by
    rw [Expr.compile]
    refine .bind (.except all_checked) fun _ first grown _ => ?_
    exact within_operands ((within_expr closed held.2.1).mono grown)
      ((within_expr closed held.2.2).mono grown) fun _ _ _ _ leftHeld rightHeld =>
        .tryBuild fun _ grown' => closed.setOp op (leftHeld.mono grown') (rightHeld.mono grown')
  | .union operands arity, held => by
    rw [Expr.compile]
    exact within_union closed held.2 (family.refl start) (all_empty _ _)
  | .ite condition thenExpr elseExpr arity, held => by
    rw [Expr.compile]
    refine .bind (.except all_checked) fun _ first grown _ => ?_
    exact within_conditional ((within_formula closed held.2.1).mono grown)
      ((within_expr closed held.2.2.1).mono grown) ((within_expr closed held.2.2.2).mono grown)
      fun middle bit thenMatrix elseMatrix bitHeld thenHeld elseHeld =>
        .tryBuild fun circuit grownAgain => closed.matrixChoice (bitHeld.mono grownAgain)
          (thenHeld.mono grownAgain) (elseHeld.mono grownAgain)
  | .ofInt cast value, held => by
    rw [Expr.compile]
    refine .bind (within_int closed held.2) fun word middle _ wordHeld => ?_
    cases cast with
    | value => exact .build fun circuit grown => closed.valueAtoms (wordHeld.mono grown)
    | bitset => exact .build fun circuit grown => closed.bitAtoms (wordHeld.mono grown)

theorem within_union (closed : family.Closed) : ∀ {operands : List Expr} {arity : Nat}
    {matrix : Matrix} {middle : Circuit},
    Expr.EveryAll (.relations fun leaf => family.All start (leaves.relationMatrix? leaf))
      operands → family.Grows start middle → family.All middle matrix →
      family.Within middle (Expr.compileUnion leaves range arity matrix operands)
  | [], _, _, _, _, _, matrixHeld => by
    rw [Expr.compileUnion]
    exact .pure matrixHeld
  | operand :: rest, arity, matrix, middle, held, grown, matrixHeld => by
    rw [Expr.compileUnion]
    split
    · exact .throwBind
    · refine .bind ((within_expr closed held.1).mono grown)
        fun operandMatrix first grown' operandHeld => ?_
      refine .bind (.tryBuild fun circuit grown'' => closed.union
        ((matrixHeld.mono grown').mono grown'') (operandHeld.mono grown''))
          fun result second grown'' resultHeld => ?_
      exact within_union closed held.2 (family.trans grown (family.trans grown' grown'')) resultHeld

theorem within_formula (closed : family.Closed) : ∀ {formula : Formula},
    formula.Every (.relations fun leaf => family.All start (leaves.relationMatrix? leaf)) →
      family.Within start (formula.compile leaves range)
  | .literal value, _ => by
    rw [Formula.compile]
    exact .pure (all_const value)
  | .constant value, _ => by
    rw [Formula.compile]
    exact .pure (all_const value)
  | .binary op left right, held => by
    rw [Formula.compile]
    exact within_operands (within_formula closed held.2.1) (within_formula closed held.2.2)
      fun _ _ _ _ leftHeld rightHeld => .build fun _ grown =>
        closed.connective op (leftHeld.mono grown) (rightHeld.mono grown)
  | .nary op operands, held => by
    rw [Formula.compile]
    refine .bind (within_formulas closed held.2) fun bits _ _ bitsHeld => ?_
    exact .tryBuild fun _ grown => closed.connectiveList op (bitsHeld.mono grown)
  | .not operand, held => by
    rw [Formula.compile]
    refine .bind (within_formula closed held.2) fun bit _ _ bitHeld => ?_
    exact .build fun _ grown => closed.not (bitHeld.mono grown)
  | .compare op left right, held => by
    rw [Formula.compile]
    refine .bind (.except all_checked) fun _ first grown _ => ?_
    exact within_operands ((within_expr closed held.2.1).mono grown)
      ((within_expr closed held.2.2).mono grown) fun _ _ _ _ leftHeld rightHeld =>
        .tryBuild fun _ grown' =>
          closed.setComparison op (leftHeld.mono grown') (rightHeld.mono grown')
  | .multiplicity amount operand, held => by
    rw [Formula.compile]
    refine .bind (within_expr closed held.2) fun matrix _ _ matrixHeld => ?_
    exact .build fun _ grown => closed.multiplicity amount (matrixHeld.mono grown)
  | .quantified quantifier declarations body, held => by
    have bodyWithin := within_formula closed held.2.2
    rw [Formula.compile.eq_def]
    dsimp only
    cases quantifier with
    | some =>
      refine .bind (within_ground (within_decls closed held.2.1) all_nil
        fun memberships middle grown membershipsHeld => within_guarded closed
          (bodyWithin.mono grown) closed.and membershipsHeld) fun instances _ _ instancesHeld => ?_
      exact .build fun _ grown => closed.any (instancesHeld.mono grown)
    | all =>
      refine .bind (within_ground (within_decls closed held.2.1) all_nil
        fun memberships middle grown membershipsHeld => within_guarded closed
          (bodyWithin.mono grown) closed.implies membershipsHeld)
            fun instances _ _ instancesHeld => ?_
      exact .build fun _ grown => closed.all (instancesHeld.mono grown)
  | .compareInts op left right, held => by
    rw [Formula.compile]
    exact within_operands (within_int closed held.2.1) (within_int closed held.2.2)
      fun _ _ _ _ leftHeld rightHeld => .build fun _ grown =>
        closed.intComparison op (leftHeld.mono grown) (rightHeld.mono grown)

theorem within_formulas (closed : family.Closed) : ∀ {operands : List Formula},
    Formula.EveryAll (.relations fun leaf => family.All start (leaves.relationMatrix? leaf))
      operands → family.Within start (Formula.compileAll leaves range operands)
  | [], _ => by
    rw [Formula.compileAll]
    exact .pure all_nil
  | operand :: rest, held => by
    rw [Formula.compileAll]
    exact within_operands (within_formula closed held.1) (within_formulas closed held.2)
      fun _ _ _ _ firstHeld restHeld => .pure (all_cons.mpr ⟨firstHeld, restHeld⟩)

theorem within_int (closed : family.Closed) : ∀ {value : IntExpr},
    value.Every (.relations fun leaf => family.All start (leaves.relationMatrix? leaf)) →
      family.Within start (value.compile leaves range)
  | .constant value, _ => by
    rw [IntExpr.compile]
    exact .pure (all_constant _ _)
  | .binary op left right, held => by
    rw [IntExpr.compile]
    refine within_operands (within_int closed held.2.1) (within_int closed held.2.2)
      fun leftWord rightWord middle _ leftHeld rightHeld => ?_
    refine .bind (.except all_checked) fun _ after grown _ => ?_
    exact .build fun _ grown' => closed.intOp op ((leftHeld.mono grown).mono grown')
      ((rightHeld.mono grown).mono grown')
  | .unary op operand, held => by
    rw [IntExpr.compile]
    refine .bind (within_int closed held.2) fun word _ _ wordHeld => ?_
    exact .build fun _ grown => closed.intUnaryOp op (wordHeld.mono grown)
  | .sum operands, held => by
    rw [IntExpr.compile]
    refine .bind (within_ints closed held.2) fun words _ _ wordsHeld => ?_
    exact .tryBuild fun _ grown => closed.sumAll (wordsHeld.mono grown)
  | .count operand, held => by
    rw [IntExpr.compile]
    refine .bind (within_expr closed held.2) fun matrix _ _ matrixHeld => ?_
    exact .tryBuild fun _ grown => closed.popcount (matrixHeld.mono grown)
  | .sumOver declarations term, held => by
    have termWithin := within_int closed held.2.2
    rw [IntExpr.compile.eq_def]
    dsimp only
    refine .bind (within_ground (within_decls closed held.2.1) all_nil
      fun memberships middle grown membershipsHeld =>
        @within_guarded _ _ _ _ closed _
          (fun present value => Word.choice present value (Word.zero range.bitwidth))
          (termWithin.mono grown) (fun presentHeld wordHeld =>
            closed.choice presentHeld wordHeld (all_zero _)) _ membershipsHeld)
      fun words _ _ wordsHeld => ?_
    exact .tryBuild fun _ grown => closed.sumAll (wordsHeld.mono grown)
  | .ite condition thenInt elseInt, held => by
    rw [IntExpr.compile]
    exact within_conditional (within_formula closed held.2.1) (within_int closed held.2.2.1)
      (within_int closed held.2.2.2)
      fun middle bit thenWord elseWord bitHeld thenHeld elseHeld => .build fun circuit grown =>
        closed.choice (bitHeld.mono grown) (thenHeld.mono grown) (elseHeld.mono grown)
  | .sumOf operand, held => by
    rw [IntExpr.compile]
    split
    · exact .throwBind
    · refine .bind (within_expr closed held.2) fun matrix _ _ matrixHeld => ?_
      refine .bind (.build fun _ grown => closed.memberInts (matrixHeld.mono grown))
        fun words _ _ wordsHeld => ?_
      exact .tryBuild fun _ grown => closed.sumAll (wordsHeld.mono grown)

theorem within_ints (closed : family.Closed) : ∀ {operands : List IntExpr},
    IntExpr.EveryAll (.relations fun leaf => family.All start (leaves.relationMatrix? leaf))
      operands → family.Within start (IntExpr.compileAll leaves range operands)
  | [], _ => by
    rw [IntExpr.compileAll]
    exact .pure all_nil
  | operand :: rest, held => by
    rw [IntExpr.compileAll]
    exact within_operands (within_int closed held.1) (within_ints closed held.2)
      fun _ _ _ _ firstHeld restHeld => .pure (all_cons.mpr ⟨firstHeld, restHeld⟩)

theorem within_decls (closed : family.Closed) : ∀ {declarations : List Decl},
    Decl.EveryAll (.relations fun leaf => family.All start (leaves.relationMatrix? leaf))
      declarations → ∀ domain ∈ Decl.compileDomains leaves range declarations,
        family.Within start domain.2
  | [], _ => by
    rw [Decl.compileDomains]
    exact List.forall_mem_nil _
  | .oneOf declared domain :: rest, held => by
    rw [Decl.compileDomains]
    exact List.forall_mem_cons.mpr ⟨within_expr closed held.2.1, within_decls closed held.2.2⟩

end

end

end BitFamily

end ModelFinder
