import Mathlib
import ModelFinder.Proofs.Circuit.Success
import ModelFinder.Proofs.Compile.Closure
import ModelFinder.Proofs.Compile.Branches
/-!
Compilation over bounds that leave nothing open. Then all bits are constants, so compilation and
evaluation run side by side: they visit the same terms, have results that mean the same, and
fail together. The circuit stays as it is.
-/

namespace ModelFinder

namespace BitFamily

variable {circuit : Circuit} {α : Type} [HasBits α]

theorem const_of_folded {bit : Bit} (held : folded.All circuit bit) (assignment : Nat → Bool) :
    bit = .const (bit.eval assignment) := by
  rcases all_bit.mp held with ⟨value, rfl⟩
  rw [Bit.eval]

theorem knows_of_folded {bit : Bit} (held : folded.All circuit bit) : circuit.Knows bit := by
  rcases all_bit.mp held with ⟨value, rfl⟩
  exact .const value

theorem knowsWord_of_folded {word : Word} (held : folded.All circuit word) :
    circuit.KnowsWord word :=
  fun _ member => knows_of_folded ((all_word.mp held).of_mem member)

theorem run_of_folded {action : Build α} {post : α → Circuit → Prop} (valid : circuit.Valid)
    (keeps : folded.Keeps circuit action) (yields : Build.Yields circuit action post) :
    ∃ result, action circuit = (result, circuit) ∧ folded.All circuit result ∧
      post result circuit := by
  rcases keeps trivial with ⟨-, unchanged, held⟩
  rcases yields valid with ⟨-, -, holds⟩
  have unchanged : circuit = (action circuit).2 := unchanged
  rw [← unchanged] at held holds
  exact ⟨(action circuit).1, Prod.ext rfl unchanged.symm, held, holds⟩

theorem run_of_folded_succeeds {action : TryBuild α} {post : α → Circuit → Prop}
    (valid : circuit.Valid) (keeps : folded.Keeps circuit action.run)
    (succeeds : TryBuild.Succeeds circuit action)
    (yields : TryBuild.Yields circuit action post) :
    ∃ result, action.run circuit = (.ok result, circuit) ∧ folded.All circuit result ∧
      post result circuit := by
  rcases succeeds with ⟨result, succeeded⟩
  rcases run_of_folded valid keeps yields with ⟨outcome, ran, held, holds⟩
  obtain rfl : outcome = .ok result := by rw [← succeeded, ran]
  exact ⟨result, ran, all_ok.mp held, holds result rfl⟩

end BitFamily

def Evaluate.Fails {δ : Type} (sets : Scope TupleSet) (evaluated : Evaluate δ) : Prop :=
  ∃ error, (evaluated.run.run sets).1 = .error error

theorem Evaluate.Fails.bind {γ δ : Type} {sets : Scope TupleSet} {first : Evaluate γ}
    {next : γ → Evaluate δ} (fails : Evaluate.Fails sets first ∨
      ∃ value, first.run.run sets = (.ok value, sets) ∧ Evaluate.Fails sets (next value)) :
    Evaluate.Fails sets (first >>= next) := by
  have run : (first >>= next).run.run sets = (ExceptT.bindCont next (first.run.run sets).1).run
      (first.run.run sets).2 := rfl
  rcases fails with ⟨error, failed⟩ | ⟨value, ran, failed⟩
  · rw [failed] at run
    rw [Evaluate.Fails, run]
    exact ⟨error, rfl⟩
  · rw [ran] at run
    rw [Evaluate.Fails, run]
    exact failed

/-- A compilation and an evaluation both have a result, one meaning the other, and leave the
circuit and the scopes as they were; or both fail. -/
def Settled {γ δ : Type} (scope : Scope Matrix) (sets : Scope TupleSet) (circuit : Circuit)
    (means : γ → δ → Prop) (compiled : Compile γ) (evaluated : Evaluate δ) : Prop :=
  (∃ result value, compiled.run.run scope circuit = ((.ok result, scope), circuit) ∧
    evaluated.run.run sets = (.ok value, sets) ∧ means result value) ∨
  (∃ error, (compiled.run.run scope circuit).1.1 = .error error) ∧ Evaluate.Fails sets evaluated

namespace Settled

variable {γ δ γ' δ' : Type} {scope : Scope Matrix} {sets : Scope TupleSet} {circuit : Circuit}
  {means : γ → δ → Prop} {means' : γ' → δ' → Prop}

theorem pure {result : γ} {value : δ} (holds : means result value) :
    Settled scope sets circuit means (Pure.pure result) (Pure.pure value) :=
  .inl ⟨result, value, rfl, rfl, holds⟩

theorem throw (left right : Error) :
    Settled scope sets circuit means (MonadExcept.throw left) (MonadExcept.throw right) :=
  .inr ⟨⟨left, rfl⟩, right, rfl⟩

theorem bind {compiled : Compile γ} {evaluated : Evaluate δ} {nextCompiled : γ → Compile γ'}
    {nextEvaluated : δ → Evaluate δ'}
    (first : Settled scope sets circuit means compiled evaluated)
    (second : ∀ result value, means result value →
      Settled scope sets circuit means' (nextCompiled result) (nextEvaluated value)) :
    Settled scope sets circuit means' (compiled >>= nextCompiled)
      (evaluated >>= nextEvaluated) := by
  have compiledRun : (compiled >>= nextCompiled).run.run scope circuit =
      (ExceptT.bindCont nextCompiled (compiled.run.run scope circuit).1.1).run
        (compiled.run.run scope circuit).1.2 (compiled.run.run scope circuit).2 := rfl
  have evaluatedRun : (evaluated >>= nextEvaluated).run.run sets =
      (ExceptT.bindCont nextEvaluated (evaluated.run.run sets).1).run
        (evaluated.run.run sets).2 := rfl
  rcases first with ⟨result, value, compiles, evaluates, holds⟩ | ⟨⟨left, failed⟩, right, failed'⟩
  · rw [compiles] at compiledRun
    rw [evaluates] at evaluatedRun
    rw [Settled, Evaluate.Fails, compiledRun, evaluatedRun]
    exact second result value holds
  · rw [failed] at compiledRun
    rw [failed'] at evaluatedRun
    rw [Settled, Evaluate.Fails, compiledRun, evaluatedRun]
    exact .inr ⟨⟨left, rfl⟩, right, rfl⟩

theorem checked {outcome : Except Error γ} {value : γ} {next : γ → Compile γ'}
    {evaluated : Evaluate δ'} (same : outcome = .ok value)
    (settled : Settled scope sets circuit means' (next value) evaluated) :
    Settled scope sets circuit means' (liftM outcome >>= next) evaluated := by
  subst same
  exact settled

theorem admitted {outcome : Except Error δ} {value : δ} {compiled : Compile γ'}
    {next : δ → Evaluate δ'} (same : outcome = .ok value)
    (settled : Settled scope sets circuit means' compiled (next value)) :
    Settled scope sets circuit means' compiled (liftM outcome >>= next) := by
  subst same
  exact settled

/-- A check of the compilation that fails where evaluation fails later. -/
theorem refused {outcome : Except Error γ} {error : Error} {next : γ → Compile γ'}
    {evaluated : Evaluate δ'} (same : outcome = .error error)
    (failed : Evaluate.Fails sets evaluated) :
    Settled scope sets circuit means' (liftM outcome >>= next) evaluated := by
  subst same
  exact .inr ⟨⟨error, rfl⟩, failed⟩

theorem built {action : Build γ} {outcome : Except Error δ}
    (holds : ∃ result value, action circuit = (result, circuit) ∧ outcome = .ok value ∧
      means result value) :
    Settled scope sets circuit means (liftM action) (liftM outcome) := by
  rcases holds with ⟨result, value, ran, rfl, holds⟩
  refine .inl ⟨result, value, ?_, rfl, holds⟩
  change ((Except.ok (action circuit).1, scope), (action circuit).2) = _
  rw [ran]

theorem tryBuilt {action : TryBuild γ} {outcome : Except Error δ}
    (holds : ∃ result value, action.run circuit = (.ok result, circuit) ∧ outcome = .ok value ∧
      means result value) :
    Settled scope sets circuit means (liftM action) (liftM outcome) := by
  rcases holds with ⟨result, value, ran, rfl, holds⟩
  refine .inl ⟨result, value, ?_, rfl, holds⟩
  change (((action.run circuit).1, scope), (action.run circuit).2) = _
  rw [ran]

theorem step {action : Build γ} {result : γ} {next : γ → Compile γ'} {evaluated : Evaluate δ'}
    (ran : action circuit = (result, circuit))
    (settled : Settled scope sets circuit means' (next result) evaluated) :
    Settled scope sets circuit means' (liftM action >>= next) evaluated := by
  have run : (liftM action >>= next : Compile γ').run.run scope circuit =
      (next (action circuit).1).run.run scope (action circuit).2 := rfl
  rw [ran] at run
  rw [Settled, run]
  exact settled

theorem mapM {ε : Type} {elements : List ε} {compiled : ε → Compile γ}
    {evaluated : ε → Evaluate δ} (each : ∀ element ∈ elements,
      Settled scope sets circuit means (compiled element) (evaluated element)) :
    Settled scope sets circuit (List.Forall₂ means) (elements.mapM compiled)
      (elements.mapM evaluated) := by
  induction elements with
  | nil => exact pure .nil
  | cons element rest hypothesis =>
      rw [List.forall_mem_cons] at each
      rw [List.mapM_cons, List.mapM_cons]
      exact bind each.1 fun _ _ holds => bind (hypothesis each.2) fun _ _ all =>
        pure (.cons holds all)

theorem binding {declared : Variable} {matrix : Matrix} {set : TupleSet} {compiled : Compile γ}
    {evaluated : Evaluate δ}
    (settled : Settled (scope.extend declared matrix) (sets.extend declared set) circuit means
      compiled evaluated) :
    Settled scope sets circuit means (Scope.binding declared matrix compiled)
      (Scope.binding declared set evaluated) := by
  have compiledRun : (Scope.binding declared matrix compiled).run.run scope circuit =
      (((compiled.run.run (scope.extend declared matrix) circuit).1.1,
        (compiled.run.run (scope.extend declared matrix) circuit).1.2.pop),
        (compiled.run.run (scope.extend declared matrix) circuit).2) := rfl
  have evaluatedRun : (Scope.binding declared set evaluated).run.run sets =
      ((evaluated.run.run (sets.extend declared set)).1,
        (evaluated.run.run (sets.extend declared set)).2.pop) := rfl
  rcases settled with ⟨result, value, compiles, evaluates, holds⟩ | failed
  · refine .inl ⟨result, value, ?_, ?_, holds⟩
    · rw [compiledRun, compiles, Scope.pop_extend]
    · rw [evaluatedRun, evaluates, Scope.pop_extend]
  · exact .inr failed

end Settled

namespace Setting

variable (setting : Setting)

def start : Circuit := Circuit.empty setting.leaves.primary setting.range.bitwidth

theorem ready_start : setting.Ready setting.start := ⟨rfl, rfl⟩

theorem valid_start : setting.start.Valid := Circuit.valid_empty _ _

/-- A compilation and an evaluation settle under every grounding. -/
def Settles {γ δ : Type} (means : γ → δ → Prop) (compiled : Compile γ) (evaluated : Evaluate δ) :
    Prop :=
  ∀ grounding : Grounding, grounding.InRange setting →
    Settled (grounding.matrices setting) (grounding.sets setting) setting.start means compiled
      evaluated

structure FoldsMatrix (arity : Nat) (matrix : Matrix) (set : TupleSet) : Prop where
  folded : BitFamily.folded.All setting.start matrix
  known : setting.start.KnowsMatrix setting.size arity matrix
  denotes : matrix.Denotes setting.univ arity setting.assignment set

structure FoldsWord (word : Word) (number : Int) : Prop where
  folded : BitFamily.folded.All setting.start word
  width : word.width = setting.range.bitwidth
  value : word.eval setting.assignment = number

def FoldsBit (bit : Bit) (value : Bool) : Prop := bit = .const value

def SettlesExpr (expr : Expr) : Prop :=
  setting.Settles (setting.FoldsMatrix expr.arity) (expr.compile setting.leaves setting.range)
    (expr.evaluate setting.model setting.range)

def SettlesFormula (formula : Formula) : Prop :=
  setting.Settles FoldsBit (formula.compile setting.leaves setting.range)
    (formula.evaluate setting.model setting.range)

def SettlesInt (value : IntExpr) : Prop :=
  setting.Settles setting.FoldsWord (value.compile setting.leaves setting.range)
    (value.evaluate setting.model setting.range)

def SettlesDecls : List Decl → Prop
  | [] => True
  | .oneOf declared domain :: rest =>
    declared.arity = domain.arity ∧
      Index.capacity setting.size domain.arity = .ok (setting.size ^ domain.arity) ∧
      setting.SettlesExpr domain ∧ SettlesDecls rest

variable {setting}

theorem FoldsWord.known {word : Word} {number : Int} (folds : setting.FoldsWord word number) :
    setting.start.KnowsWord word :=
  BitFamily.knowsWord_of_folded folds.folded

theorem FoldsMatrix.cell_true {arity : Nat} {matrix : Matrix} {set : TupleSet}
    (folds : setting.FoldsMatrix arity matrix set) {cell : Nat × Bit}
    (member : cell ∈ matrix.entries) : cell.2 = .const true := by
  have stored := folds.known.stored (Matrix.mem_entries.mp member)
  rcases folds.folded cell.2 (List.mem_map_of_mem member) with ⟨value, same⟩
  cases value with
  | true => exact same
  | false => exact absurd same stored.2.1

theorem FoldsMatrix.toList_eq {arity : Nat} {matrix : Matrix} {set : TupleSet}
    (folds : setting.FoldsMatrix arity matrix set) :
    set.toList = matrix.entries.map Prod.fst := by
  rw [folds.denotes.toList_eq, Matrix.members, List.filter_eq_self.mpr]
  intro cell member
  rw [folds.cell_true member, Bit.eval]

theorem settled_bit {scope : Scope Matrix} {sets : Scope TupleSet} {action : Build Bit}
    {value : (Nat → Bool) → Bool} (keeps : BitFamily.folded.Keeps setting.start action)
    (computes : Build.Computes setting.start action value) {truth : Bool}
    (same : value setting.assignment = truth) :
    Settled scope sets setting.start FoldsBit (liftM action) (Pure.pure truth) := by
  rcases BitFamily.run_of_folded setting.valid_start keeps computes with ⟨bit, ran, held, -, eval⟩
  refine @Settled.built _ _ _ _ _ _ action (.ok truth) ⟨bit, truth, ran, rfl, ?_⟩
  rw [FoldsBit, BitFamily.const_of_folded held setting.assignment, eval, same]

theorem settled_word {scope : Scope Matrix} {sets : Scope TupleSet} {action : Build Word}
    {value : (Nat → Bool) → Int} (keeps : BitFamily.folded.Keeps setting.start action)
    (computes : Build.ComputesWord setting.start action setting.range.bitwidth value) {number : Int}
    (same : value setting.assignment = number) :
    Settled scope sets setting.start setting.FoldsWord (liftM action) (Pure.pure number) := by
  rcases BitFamily.run_of_folded setting.valid_start keeps computes with
    ⟨word, ran, held, -, width, eval⟩
  exact @Settled.built _ _ _ _ _ _ action (.ok number)
    ⟨word, number, ran, rfl, held, width, (eval _).trans same⟩

section

variable {γ δ : Type} {means : γ → δ → Prop} {visit : List Bit → Compile γ} {body : Evaluate δ}

/-- The body of a grounding settles where all memberships are certain. -/
def SettlesVisits (setting : Setting) (means : γ → δ → Prop) (visit : List Bit → Compile γ)
    (body : Evaluate δ) : Prop :=
  ∀ pending : List Bit, (∀ bit ∈ pending, bit = .const true) →
    setting.Settles means (visit pending) body

theorem settles_ground (visits : setting.SettlesVisits means visit body)
    {declarations : List Decl} (settles : setting.SettlesDecls declarations) :
    setting.SettlesVisits (List.Forall₂ means)
      (fun pending =>
        ground (Decl.compileDomains setting.leaves setting.range declarations) pending visit)
      (visitGroundings (Decl.evaluateDomains setting.model setting.range declarations) body) := by
  induction declarations with
  | nil =>
      intro pending certain grounding inRange
      dsimp only
      rw [Decl.compileDomains, Decl.evaluateDomains, ground, visitGroundings]
      exact .bind (visits pending certain grounding inRange) fun _ _ holds =>
        .pure (.cons holds .nil)
  | cons declaration rest hypothesis =>
      rcases declaration with ⟨declared, domain⟩
      rcases settles with ⟨sameArity, counted, domainSettles, restSettles⟩
      intro pending certain grounding inRange
      rw [Decl.compileDomains, Decl.evaluateDomains, visitGroundings]
      dsimp only
      rw [ground.eq_2]
      refine .bind (domainSettles grounding inRange) fun matrix set folds => ?_
      rw [folds.known.universeSize_eq, folds.known.arity_eq, folds.denotes.univ_eq,
        folds.denotes.arity_eq, folds.toList_eq, ← sameArity, List.mapM_map]
      rw [← sameArity] at counted folds
      refine .bind (.mapM fun cell member => ?_) fun results values all =>
        .pure (List.rel_flatten all)
      have bounded := folds.known.lt_of_mem member
      refine .admitted
        (TupleSet.ofIndices?_of_capacity counted (List.forall_mem_singleton.mpr bounded))
        (.binding ?_)
      have certainToo : ∀ bit ∈ pending ++ [cell.2], bit = .const true :=
        List.forall_mem_append.mpr
          ⟨certain, List.forall_mem_singleton.mpr (folds.cell_true member)⟩
      exact hypothesis restSettles _ certainToo ((declared, cell.1) :: grounding)
        (List.forall_mem_cons.mpr ⟨bounded, inRange⟩)

end

end Setting

end ModelFinder
