import Mathlib
import ModelFinder.Proofs.Compile.Casts
import ModelFinder.Proofs.Compile.Closure
import ModelFinder.Proofs.Compile.Judgement
import ModelFinder.Proofs.Compile.Operators
import ModelFinder.Proofs.Scoping.Restoring
/-!
Words of integer expressions. Every integer expression, however it is built, compiles to a word of
the width of integers whose bits may be used with the circuit, if it compiles. Nothing is asked of
its parts but that the relations in them have matrices of known bits; in particular not that
arities go together or that tuples can be counted.
-/

namespace ModelFinder

def Circuit.KnowsInt (circuit : Circuit) (range : IntRange) (word : Word) : Prop :=
  circuit.KnowsWord word ∧ word.width = range.bitwidth

theorem Circuit.KnowsInt.mono {circuit after : Circuit} {range : IntRange} {word : Word}
    (known : circuit.KnowsInt range word) (grown : circuit.Extends after) :
    after.KnowsInt range word :=
  ⟨known.1.mono grown, known.2⟩

/-- What is true of a result stays true while circuits grow. -/
def Circuit.Lasting {α : Type} (post : α → Circuit → Prop) : Prop :=
  ∀ (value : α) (before after : Circuit), post value before → before.Extends after →
    post value after

theorem Circuit.Lasting.all {α : Type} {post : α → Circuit → Prop} (lasting : Lasting post) :
    Lasting fun (values : List α) circuit => ∀ value ∈ values, post value circuit :=
  fun _ _ _ each grown value member => lasting value _ _ (each value member) grown

theorem Circuit.lasting_knowsInt (range : IntRange) :
    Lasting fun word circuit => circuit.KnowsInt range word :=
  fun _ _ _ => KnowsInt.mono

theorem BitFamily.knowsAll {circuit : Circuit} {bits : List Bit} (held : known.All circuit bits) :
    circuit.KnowsAll bits :=
  fun _ member => all_bit.mp (held.of_mem member)

/-! Judgement -/

/-- What a compilation yields on every circuit that a given one has grown to, and in every scope
of matrices of known bits. -/
def Compile.YieldsFrom {α : Type} (start : Circuit) (action : Compile α)
    (post : α → Circuit → Prop) : Prop :=
  ∀ (scope : Scope Matrix) (circuit : Circuit), start.Extends circuit →
    BitFamily.known.All circuit scope → Compile.Yields scope circuit action post

namespace Compile.YieldsFrom

open BitFamily

variable {α β γ : Type} {start : Circuit} {middle : α → Circuit → Prop}
  {post : β → Circuit → Prop}

theorem mono {after : Circuit} {action : Compile β} (yields : YieldsFrom start action post)
    (grown : start.Extends after) : YieldsFrom after action post :=
  fun scope circuit grownAgain => yields scope circuit (grown.trans grownAgain)

theorem of_within [HasBits β] {action : Compile β} (within : known.Within start action)
    (restores : Scope.Restores action) :
    YieldsFrom start action fun value after => known.All after value := by
  intro scope circuit grown scopeHeld valid
  have restored : (action.run.run scope circuit).1.2 = scope :=
    congrArg (fun run : _ × Circuit => run.1.2) (congrFun (restores scope) circuit)
  rcases within scope circuit grown scopeHeld valid with ⟨afterValid, grownAgain, held⟩
  refine ⟨afterValid, grownAgain, restored, fun value succeeded => ?_⟩
  have outcomeHeld := (all_pair.mp held).1
  rw [succeeded] at outcomeHeld
  exact all_ok.mp outcomeHeld

theorem pure {value : β} (holds : ∀ circuit, start.Extends circuit → post value circuit) :
    YieldsFrom start (Pure.pure value) post :=
  fun _ circuit grown _ => Yields.pure (holds circuit grown)

theorem except {outcome : Except Error β}
    (holds : ∀ value, outcome = .ok value → ∀ circuit, start.Extends circuit →
      post value circuit) : YieldsFrom start (liftM outcome) post :=
  fun _ circuit grown _ => Yields.except fun value same => holds value same circuit grown

theorem throwBind {error : Error} {next : γ → Compile β} :
    YieldsFrom start ((MonadExcept.throw error : Compile γ) >>= next) post :=
  fun _ _ _ _ => Yields.throw

theorem build {action : Build β}
    (yields : ∀ circuit, start.Extends circuit → Build.Yields circuit action post) :
    YieldsFrom start (liftM action) post :=
  fun _ circuit grown _ => Yields.build (yields circuit grown)

theorem tryBuild {action : TryBuild β}
    (yields : ∀ circuit, start.Extends circuit → TryBuild.Yields circuit action post) :
    YieldsFrom start (liftM action) post :=
  fun _ circuit grown _ => Yields.tryBuild (yields circuit grown)

theorem bind {action : Compile α} {next : α → Compile β} (first : YieldsFrom start action middle)
    (second : ∀ value after, start.Extends after → middle value after →
      YieldsFrom after (next value) post) : YieldsFrom start (action >>= next) post := by
  intro scope circuit grown scopeHeld
  apply Yields.bind (first scope circuit grown scopeHeld)
  intro value after grownAgain holds
  exact second value after (grown.trans grownAgain) holds scope after (.refl after)
    (scopeHeld.mono grownAgain)

theorem binding {declared : Variable} {matrix : Matrix} {action : Compile β}
    (held : known.All start matrix) (yields : YieldsFrom start action post) :
    YieldsFrom start (Scope.binding declared matrix action) post :=
  fun _ circuit grown scopeHeld => Yields.binding
    (yields _ circuit grown (all_extend scopeHeld (held.mono grown)))

section

variable (lasting : Circuit.Lasting post)

include lasting

theorem mapM {elements : List γ} {action : γ → Compile β}
    (each : ∀ element ∈ elements, YieldsFrom start (action element) post) :
    YieldsFrom start (elements.mapM action) fun results after =>
      ∀ result ∈ results, post result after := by
  induction elements generalizing start with
  | nil => exact pure fun _ _ => List.forall_mem_nil _
  | cons element rest hypothesis =>
      rw [List.forall_mem_cons] at each
      rw [List.mapM_cons]
      refine bind each.1 fun result first grown holds => ?_
      refine bind (hypothesis fun other member => (each.2 other member).mono grown)
        fun results second grown' others => pure fun after later => ?_
      rw [List.forall_mem_cons]
      exact ⟨lasting _ _ _ holds (grown'.trans later), lasting.all _ _ _ others later⟩

theorem grounded {domains : List (Variable × Compile Matrix)} {pending : List Bit}
    {visit : List Bit → Compile β}
    (within : ∀ domain ∈ domains, known.Within start domain.2 ∧ Scope.Restores domain.2)
    (pendingHeld : known.All start pending)
    (visits : ∀ memberships after, start.Extends after → known.All after memberships →
      YieldsFrom after (visit memberships) post) :
    YieldsFrom start (ground domains pending visit) fun results after =>
      ∀ result ∈ results, post result after := by
  induction domains generalizing start pending with
  | nil =>
      rw [ground]
      refine bind (visits pending start (.refl start) pendingHeld) fun result after _ holds => ?_
      exact pure fun circuit grown =>
        List.forall_mem_singleton.mpr (lasting _ _ _ holds grown)
  | cons domain rest hypothesis =>
      rw [List.forall_mem_cons] at within
      rw [ground]
      refine bind (of_within within.1.1 within.1.2) fun matrix first grown matrixHeld => ?_
      refine bind (mapM lasting.all fun entry member => binding (all_constantMatrix _ _ _) ?_)
        fun rows after _ each => ?_
      · have entryHeld := (all_pair.mp (matrixHeld.entries.of_mem member)).2
        apply hypothesis
        · exact fun other otherMember =>
            ⟨(within.2 other otherMember).1.mono grown, (within.2 other otherMember).2⟩
        · exact all_append.mpr ⟨pendingHeld.mono grown, all_cons.mpr ⟨entryHeld, all_nil⟩⟩
        · exact fun memberships after grownAgain =>
            visits memberships after (grown.trans grownAgain)
      · refine pure fun circuit grownAgain result member => ?_
        rcases List.mem_flatten.mp member with ⟨row, rowMember, inRow⟩
        exact lasting _ _ _ (each row rowMember result inRow) grownAgain

end

end Compile.YieldsFrom

/-! Integer expressions -/

section

open BitFamily Compile.YieldsFrom

variable {start : Circuit} {leaves : Leaves} {range : IntRange}

theorem Word.knowsInt_constant {circuit : Circuit} (value : Int) :
    circuit.KnowsInt range (Word.constant value range.bitwidth) :=
  ⟨Word.knows_constant value range.one_le_bitwidth,
    Word.width_constant value range.one_le_bitwidth⟩

theorem Word.choice_knowsInt {circuit : Circuit} {condition : Bit} {thenWord elseWord : Word}
    (conditionKnown : circuit.Knows condition) (thenKnown : circuit.KnowsInt range thenWord)
    (elseKnown : circuit.KnowsInt range elseWord) :
    Build.Yields circuit (Word.choice condition thenWord elseWord) fun word after =>
      after.KnowsInt range word :=
  Build.Yields.weaken (Build.choice_computes conditionKnown thenKnown.1 elseKnown.1
    (thenKnown.2.trans elseKnown.2.symm)) fun _ _ _ made =>
      ⟨made.1, made.2.1.trans elseKnown.2⟩

theorem Word.guarded_knowsInt {body : Compile Word} {memberships : List Bit}
    (yields : Compile.YieldsFrom start body fun word after => after.KnowsInt range word)
    (held : known.All start memberships) :
    Compile.YieldsFrom start (do
      let value ← body
      let present ← (liftM (Build.all memberships) : Compile Bit)
      (liftM (Word.choice present value (Word.zero range.bitwidth)) : Compile Word))
      fun word after => after.KnowsInt range word := by
  refine bind yields fun word first grown known => ?_
  refine bind (build fun circuit grown' => Build.all_computes
    (knowsAll ((held.mono grown).mono grown'))) fun present second grown' made => ?_
  refine build fun circuit later => Word.choice_knowsInt (made.1.mono later)
    (known.mono (grown'.trans later)) ?_
  rw [Word.zero_eq_constant]
  exact Word.knowsInt_constant 0

theorem memberInts_knowsInt {circuit : Circuit} {matrix : Matrix}
    (known : ∀ index, circuit.Knows (matrix.cell index)) :
    Build.Yields circuit (memberInts leaves range matrix) fun words after =>
      ∀ word ∈ words, after.KnowsInt range word :=
  Build.Yields.weaken (@Build.memberInts_yields circuit leaves
    ⟨leaves.bounds.univ, [], leaves.bounds.intAtoms⟩ range rfl matrix known) fun _ _ _ => And.left

variable (width : start.width = range.bitwidth)
  (relations : ∀ leaf, known.All start (leaves.relationMatrix? leaf))

include width in
theorem Word.sumAll_knowsInt {middle : Circuit} {words : List Word} (grown : start.Extends middle)
    (known : ∀ word ∈ words, middle.KnowsInt range word) :
    Compile.YieldsFrom middle (liftM (Word.sumAll words)) fun word after =>
      after.KnowsInt range word := by
  refine tryBuild fun circuit grownAgain => ?_
  have sameWidth : circuit.width = range.bitwidth := (grown.trans grownAgain).width.trans width
  have words : circuit.KnowsWords circuit.width words := fun word member =>
    ⟨(known word member).1.mono grownAgain, (known word member).2.trans sameWidth.symm⟩
  refine TryBuild.Yields.weaken (TryBuild.sumAll_yields ?_ words) fun _ _ _ made =>
    ⟨made.1, made.2.1.trans sameWidth⟩
  rw [sameWidth]
  exact range.one_le_bitwidth

include width relations

-- Recursive calls pass the hypotheses of the section on without naming them.
set_option linter.unusedSectionVars false

mutual

theorem IntExpr.compile_knowsInt : ∀ value : IntExpr,
    Compile.YieldsFrom start (value.compile leaves range) fun word after =>
      after.KnowsInt range word
  | .constant value => by
    rw [IntExpr.compile]
    exact pure fun _ _ => Word.knowsInt_constant value
  | .binary op left right => by
    rw [IntExpr.compile]
    refine bind left.compile_knowsInt fun leftWord first grown leftKnown => ?_
    refine bind (right.compile_knowsInt.mono grown) fun rightWord second grown' rightKnown => ?_
    refine bind (except fun _ _ _ _ => trivial) fun _ third checked (_ : True) => ?_
    refine build fun circuit grown'' => ?_
    have rightLater := rightKnown.mono (checked.trans grown'')
    have leftLater := leftKnown.mono (grown'.trans (checked.trans grown''))
    have built := op.build_yields range leftLater.1 rightLater.1 leftLater.2 rightLater.2 left right
    exact Build.Yields.weaken built fun _ _ _ made => ⟨made.1, made.2.1⟩
  | .unary op operand => by
    rw [IntExpr.compile]
    refine bind operand.compile_knowsInt fun word first grown known =>
      build fun circuit grown' => ?_
    have computed := op.build_computes range (known.mono grown').1 (known.mono grown').2
    exact Build.Yields.weaken computed fun _ _ _ made => ⟨made.1, made.2.1⟩
  | .sum operands => by
    rw [IntExpr.compile]
    refine bind (IntExpr.compileAll_knowsInt operands) fun words after grown known => ?_
    exact Word.sumAll_knowsInt width grown known
  | .count operand => by
    rw [IntExpr.compile]
    have every := operand.every_of_total (SyntaxCheck.total_relations relations)
    refine bind (of_within (within_expr closed_known every) operand.compile_restores)
      fun matrix first grown held => tryBuild fun circuit grown' => ?_
    have sameWidth : circuit.width = range.bitwidth := (grown.trans grown').width.trans width
    have positive : 0 < circuit.width := range.one_le_bitwidth.trans_eq sameWidth.symm
    have counted := TryBuild.popcount_yields positive (knowsAll (held.mono grown').values)
    exact TryBuild.Yields.weaken counted fun _ _ _ made => ⟨made.1, made.2.1.trans sameWidth⟩
  | .sumOver declarations term => by
    have every := Decl.everyAll_of_total (SyntaxCheck.total_relations relations) declarations
    have termKnown := term.compile_knowsInt
    rw [IntExpr.compile.eq_def]
    dsimp only
    refine bind (grounded (Circuit.lasting_knowsInt range) (fun domain member =>
      ⟨within_decls closed_known every domain member,
        Decl.compileDomains_restores declarations domain member⟩) all_nil
      fun memberships middle grown held => ?_) fun words after grown known =>
        Word.sumAll_knowsInt width grown known
    exact Word.guarded_knowsInt (termKnown.mono grown) held
  | .ite condition thenInt elseInt => by
    rw [IntExpr.compile]
    have every := condition.every_of_total (SyntaxCheck.total_relations relations)
    refine bind (of_within (within_formula closed_known every) condition.compile_restores)
      fun bit first grown bitHeld => ?_
    split
    · exact thenInt.compile_knowsInt.mono grown
    · exact elseInt.compile_knowsInt.mono grown
    · refine bind (thenInt.compile_knowsInt.mono grown) fun thenWord second grown' thenKnown => ?_
      refine bind (elseInt.compile_knowsInt.mono (grown.trans grown'))
        fun elseWord third grown'' elseKnown => build fun circuit later => ?_
      exact Word.choice_knowsInt ((all_bit.mp bitHeld).mono (grown'.trans (grown''.trans later)))
        (thenKnown.mono (grown''.trans later)) (elseKnown.mono later)
  | .sumOf operand => by
    rw [IntExpr.compile]
    have every := operand.every_of_total (SyntaxCheck.total_relations relations)
    split
    · exact throwBind
    · refine bind (of_within (within_expr closed_known every) operand.compile_restores)
        fun matrix first grown held => ?_
      refine bind (build fun circuit grown' => memberInts_knowsInt fun index =>
        all_bit.mp ((held.mono grown').cell index)) fun words after grown' known => ?_
      exact Word.sumAll_knowsInt width (grown.trans grown') known

theorem IntExpr.compileAll_knowsInt : ∀ operands : List IntExpr,
    Compile.YieldsFrom start (IntExpr.compileAll leaves range operands) fun words after =>
      ∀ word ∈ words, after.KnowsInt range word
  | [] => by
    rw [IntExpr.compileAll]
    exact pure fun _ _ => List.forall_mem_nil _
  | value :: rest => by
    rw [IntExpr.compileAll]
    refine bind value.compile_knowsInt fun word first grown known => ?_
    refine bind ((IntExpr.compileAll_knowsInt rest).mono grown) fun words second grown' others => ?_
    refine pure fun after later => List.forall_mem_cons.mpr ⟨known.mono (grown'.trans later), ?_⟩
    exact (Circuit.lasting_knowsInt range).all _ _ _ others later

end

end

end ModelFinder
