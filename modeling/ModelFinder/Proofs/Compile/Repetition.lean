import Mathlib
import ModelFinder.Compile
import ModelFinder.Proofs.Circuit.Repetition
import ModelFinder.Proofs.Compile.Judgement
/-!
Compiling a term again, in the same scope and on any later circuit, gives what it gave before and
makes no gate, whether the compilation succeeds or fails.
-/

namespace ModelFinder

namespace Build.Repeats

/-! Operators -/

theorem setOp (op : SetOp) (left right : Matrix) :
    Build.Repeats (op.build left right).run := by
  cases op with
  | join => exact join left right
  | product => exact product left right
  | union => exact union left right
  | difference => exact difference left right
  | intersection => exact intersection left right

theorem setComparison (op : SetComparison) (left right : Matrix) :
    Build.Repeats (op.build left right).run := by
  cases op with
  | equals => exact equals left right
  | subset => exact subset left right

theorem multiplicity (amount : Multiplicity) (matrix : Matrix) :
    Build.Repeats (amount.build matrix) := by
  cases amount with
  | some => exact some matrix
  | one => exact one matrix
  | lone => exact lone matrix
  | no => exact none matrix

theorem connective (op : Connective) (left right : Bit) :
    Build.Repeats (op.build left right) := by
  cases op with
  | and => exact and left right
  | or => exact or left right
  | iff => exact iff left right
  | implies => exact implies left right

theorem connectiveList (op : Connective) (operands : List Bit) :
    Build.Repeats (op.buildList operands).run := by
  cases op with
  | and => exact lift (all operands)
  | or => exact lift (any operands)
  | iff => exact throw
  | implies => exact throw

theorem intComparison (op : IntComparison) (left right : Word) :
    Build.Repeats (op.build left right) := by
  cases op with
  | eq => exact eq left right
  | lt => exact lt left right
  | lte => exact lte left right
  | gt => exact lt right left
  | gte => exact lte right left

theorem intUnaryOp (op : IntUnaryOp) (operand : Word) : Build.Repeats (op.build operand) := by
  cases op with
  | negate => exact negate operand
  | abs => exact abs operand
  | sgn => exact sgn operand
  | not => exact wordNot operand

theorem intOp (op : IntOp) (left right : Word) : Build.Repeats (op.build left right) := by
  cases op with
  | plus => exact plus left right
  | minus => exact minus left right
  | multiply => exact multiply left right
  | divide => exact divide left right
  | modulo => exact modulo left right
  | and => exact bitwise and left right
  | or => exact bitwise or left right
  | xor => exact bitwise xor left right
  | shl => exact shift .left left right
  | shr => exact shift .logicalRight left right
  | sha => exact shift .arithmeticRight left right

/-! Casts -/

theorem atomMatrix (universeSize : Nat) (conditions : List (Nat × Bit)) :
    Build.Repeats (atomMatrix universeSize conditions) :=
  map (mapM fun _ => map (any _))

theorem valueAtoms (leaves : Leaves) (range : IntRange) (word : Word) :
    Build.Repeats (valueAtoms leaves range word) :=
  bind (mapM fun _ => map (eq _ _)) fun _ => atomMatrix _ _

theorem bitAtoms (leaves : Leaves) (range : IntRange) (word : Word) :
    Build.Repeats (bitAtoms leaves range word) :=
  atomMatrix _ _

theorem memberInts (leaves : Leaves) (range : IntRange) (matrix : Matrix) :
    Build.Repeats (memberInts leaves range matrix) :=
  mapM fun _ => choice _ _ _

end Build.Repeats

/-- Compiled again in the same scope, on the circuit left by the first time or on a later one, a
computation has the same result and makes no gate. -/
def Compile.Repeats {α : Type} (action : Compile α) : Prop :=
  ∀ scope : Scope Matrix, Build.Repeats (action.run.run scope)

namespace Compile.Repeats

variable {α β γ : Type}

theorem pure (value : α) : Compile.Repeats (Pure.pure value) :=
  fun scope => Build.Repeats.pure (Except.ok value, scope)

theorem throw {error : Error} : Compile.Repeats (MonadExcept.throw error : Compile α) :=
  fun scope => Build.Repeats.pure (Except.error error, scope)

theorem except (outcome : Except Error α) : Compile.Repeats (liftM outcome) :=
  fun scope => Build.Repeats.pure (outcome, scope)

theorem getScope : Compile.Repeats (getThe (Scope Matrix)) :=
  fun scope => Build.Repeats.pure (Except.ok scope, scope)

theorem build {action : Build α} (repeats : Build.Repeats action) :
    Compile.Repeats (liftM action) :=
  fun scope => repeats.bind fun value => Build.Repeats.pure (Except.ok value, scope)

theorem tryBuild {action : TryBuild α} (repeats : Build.Repeats action.run) :
    Compile.Repeats (liftM action) :=
  fun scope => repeats.bind fun outcome => Build.Repeats.pure (outcome, scope)

theorem bind {action : Compile α} {next : α → Compile β} (first : Compile.Repeats action)
    (second : ∀ value, Compile.Repeats (next value)) : Compile.Repeats (action >>= next) := by
  intro scope
  change Build.Repeats (action.run.run scope >>= fun result =>
    (ExceptT.bindCont next result.1).run result.2)
  refine (first scope).bind fun result => ?_
  rcases result with ⟨outcome, left⟩
  cases outcome with
  | error error => exact throw left
  | ok value => exact second value left

theorem map {action : Compile α} {transform : α → β} (first : Compile.Repeats action) :
    Compile.Repeats (do return transform (← action)) :=
  bind first fun value => pure (transform value)

theorem mapM {elements : List γ} {action : γ → Compile α}
    (each : ∀ element, Compile.Repeats (action element)) :
    Compile.Repeats (elements.mapM action) := by
  induction elements with
  | nil => exact pure []
  | cons element rest hypothesis =>
      rw [List.mapM_cons]
      exact bind (each element) fun result => map hypothesis

theorem binding {declared : Variable} {matrix : Matrix} {action : Compile α}
    (repeats : Compile.Repeats action) :
    Compile.Repeats (Scope.binding declared matrix action) := by
  intro scope
  change Build.Repeats (action.run.run (scope.extend declared matrix) >>= fun result =>
    Pure.pure (result.1, result.2.pop))
  exact (repeats _).bind fun result => .pure _

theorem grounded {domains : List (Variable × Compile Matrix)} {pending : List Bit}
    {visit : List Bit → Compile α}
    (repeats : ∀ domain ∈ domains, Compile.Repeats domain.2)
    (visits : ∀ memberships, Compile.Repeats (visit memberships)) :
    Compile.Repeats (ground domains pending visit) := by
  induction domains generalizing pending with
  | nil =>
      rw [ModelFinder.ground]
      exact map (visits pending)
  | cons domain rest hypothesis =>
      rw [List.forall_mem_cons] at repeats
      rw [ModelFinder.ground]
      exact bind repeats.1 fun matrix => map (mapM fun entry => binding (hypothesis repeats.2))

theorem guarded {body : Compile α} {guard : Bit → α → Build α} (repeats : Compile.Repeats body)
    (guards : ∀ present value, Build.Repeats (guard present value)) (memberships : List Bit) :
    Compile.Repeats (do
      let value ← body
      let present ← (liftM (Build.all memberships) : Compile Bit)
      (liftM (guard present value) : Compile α)) :=
  bind repeats fun _ => bind (build (.all memberships)) fun _ => build (guards _ _)

end Compile.Repeats

/-! Terms -/

section

variable {leaves : Leaves} {range : IntRange}

open Compile.Repeats

mutual

theorem Expr.compile_repeats : ∀ expr : Expr, Compile.Repeats (expr.compile leaves range)
  | .relation leaf => by
    rw [Expr.compile]
    exact except _
  | .variable leaf => by
    rw [Expr.compile]
    refine bind getScope fun scope => ?_
    split
    · exact pure _
    · exact throw
  | .constant leaf => by
    rw [Expr.compile]
    exact pure _
  | .binary op left right arity => by
    rw [Expr.compile]
    exact bind (except _) fun _ => bind left.compile_repeats fun _ =>
      bind right.compile_repeats fun _ => tryBuild (.setOp op _ _)
  | .union operands arity => by
    rw [Expr.compile]
    exact Expr.compileUnion_repeats operands arity _
  | .ite condition thenExpr elseExpr arity => by
    rw [Expr.compile]
    refine bind (except _) fun _ => bind condition.compile_repeats fun bit => ?_
    split
    · exact thenExpr.compile_repeats
    · exact elseExpr.compile_repeats
    · exact bind thenExpr.compile_repeats fun _ => bind elseExpr.compile_repeats fun _ =>
        tryBuild (.matrixChoice _ _ bit)
  | .ofInt cast value => by
    rw [Expr.compile]
    refine bind value.compile_repeats fun word => ?_
    cases cast with
    | value => exact build (.valueAtoms _ _ word)
    | bitset => exact build (.bitAtoms _ _ word)

theorem Expr.compileUnion_repeats : ∀ (operands : List Expr) (arity : Nat) (matrix : Matrix),
    Compile.Repeats (Expr.compileUnion leaves range arity matrix operands)
  | [], _, _ => by
    rw [Expr.compileUnion]
    exact pure _
  | operand :: rest, arity, matrix => by
    rw [Expr.compileUnion]
    have further := bind operand.compile_repeats fun operandMatrix =>
      bind (tryBuild (.union matrix operandMatrix)) fun result =>
        Expr.compileUnion_repeats rest arity result
    split
    · exact bind throw fun _ => further
    · exact further

theorem Formula.compile_repeats : ∀ formula : Formula,
    Compile.Repeats (formula.compile leaves range)
  | .literal value => by
    rw [Formula.compile]
    exact pure _
  | .constant value => by
    rw [Formula.compile]
    exact pure _
  | .binary op left right => by
    rw [Formula.compile]
    exact bind left.compile_repeats fun _ => bind right.compile_repeats fun _ =>
      build (.connective op _ _)
  | .nary op operands => by
    rw [Formula.compile]
    exact bind (Formula.compileAll_repeats operands) fun _ => tryBuild (.connectiveList op _)
  | .not operand => by
    rw [Formula.compile]
    exact bind operand.compile_repeats fun _ => build (.not _)
  | .compare op left right => by
    rw [Formula.compile]
    exact bind (except _) fun _ => bind left.compile_repeats fun _ =>
      bind right.compile_repeats fun _ => tryBuild (.setComparison op _ _)
  | .multiplicity amount operand => by
    rw [Formula.compile]
    exact bind operand.compile_repeats fun _ => build (.multiplicity amount _)
  | .quantified quantifier declarations body => by
    have domains := Decl.compileDomains_repeats declarations
    have bodyRepeats := body.compile_repeats
    rw [Formula.compile.eq_def]
    dsimp only
    cases quantifier with
    | some =>
        exact bind (grounded domains (guarded bodyRepeats Build.Repeats.and)) fun _ =>
          build (.any _)
    | all =>
        exact bind (grounded domains (guarded bodyRepeats Build.Repeats.implies)) fun _ =>
          build (.all _)
  | .compareInts op left right => by
    rw [Formula.compile]
    exact bind left.compile_repeats fun _ => bind right.compile_repeats fun _ =>
      build (.intComparison op _ _)

theorem Formula.compileAll_repeats : ∀ operands : List Formula,
    Compile.Repeats (Formula.compileAll leaves range operands)
  | [] => by
    rw [Formula.compileAll]
    exact pure _
  | operand :: rest => by
    rw [Formula.compileAll]
    exact bind operand.compile_repeats fun _ => map (Formula.compileAll_repeats rest)

theorem IntExpr.compile_repeats : ∀ value : IntExpr,
    Compile.Repeats (value.compile leaves range)
  | .constant value => by
    rw [IntExpr.compile]
    exact pure _
  | .binary op left right => by
    rw [IntExpr.compile]
    exact bind left.compile_repeats fun _ => bind right.compile_repeats fun _ =>
      bind (except _) fun _ => build (.intOp op _ _)
  | .unary op operand => by
    rw [IntExpr.compile]
    exact bind operand.compile_repeats fun _ => build (.intUnaryOp op _)
  | .sum operands => by
    rw [IntExpr.compile]
    exact bind (IntExpr.compileAll_repeats operands) fun _ => tryBuild (.sumAll _)
  | .count operand => by
    rw [IntExpr.compile]
    exact bind operand.compile_repeats fun _ => tryBuild (.popcount _)
  | .sumOver declarations term => by
    have domains := Decl.compileDomains_repeats declarations
    have termRepeats := term.compile_repeats
    rw [IntExpr.compile.eq_def]
    dsimp only
    exact bind (grounded domains (guarded termRepeats fun present value =>
      .choice present value (Word.zero range.bitwidth))) fun _ => tryBuild (.sumAll _)
  | .ite condition thenInt elseInt => by
    rw [IntExpr.compile]
    refine bind condition.compile_repeats fun bit => ?_
    split
    · exact thenInt.compile_repeats
    · exact elseInt.compile_repeats
    · exact bind thenInt.compile_repeats fun _ => bind elseInt.compile_repeats fun _ =>
        build (.choice bit _ _)
  | .sumOf operand => by
    rw [IntExpr.compile]
    have summed := bind operand.compile_repeats fun matrix =>
      bind (build (.memberInts leaves range matrix)) fun words => tryBuild (.sumAll words)
    split
    · exact bind throw fun _ => summed
    · exact summed

theorem IntExpr.compileAll_repeats : ∀ operands : List IntExpr,
    Compile.Repeats (IntExpr.compileAll leaves range operands)
  | [] => by
    rw [IntExpr.compileAll]
    exact pure _
  | operand :: rest => by
    rw [IntExpr.compileAll]
    exact bind operand.compile_repeats fun _ => map (IntExpr.compileAll_repeats rest)

theorem Decl.compileDomains_repeats : ∀ declarations : List Decl,
    ∀ domain ∈ Decl.compileDomains leaves range declarations, Compile.Repeats domain.2
  | [] => by
    rw [Decl.compileDomains]
    exact List.forall_mem_nil _
  | .oneOf declared domain :: rest => by
    rw [Decl.compileDomains]
    exact List.forall_mem_cons.mpr
      ⟨domain.compile_repeats, Decl.compileDomains_repeats rest⟩

end

end

end ModelFinder
