import Mathlib
import ModelFinder.Proofs.Decoding
import ModelFinder.Proofs.Compile.Judgement
import ModelFinder.Proofs.Compile.Sets
/-!
Groundings of declared variables. Compilation visits every grounding that the matrices of the
domains allow, under conditions; evaluation visits those whose conditions hold. What a visit
leaves behind where its conditions fail is neutral, so both give the same results up to
neutral ones.
-/

namespace ModelFinder

/-- What terms are compiled and evaluated with: leaves and a range for both, and an instance
that an assignment stands for. -/
structure Setting where
  leaves : Leaves
  range : IntRange
  model : Instance
  assignment : Nat → Bool
  /-- Whether evaluation may divide by zero. -/
  mayFail : Prop

namespace Setting

def univ (setting : Setting) : Universe := setting.leaves.bounds.univ

def size (setting : Setting) : Nat := setting.univ.size

structure Sound (setting : Setting) : Prop where
  allocated : Leaves.ofBounds? setting.leaves.bounds = .ok setting.leaves
  laid : setting.leaves.Laid
  inRange : setting.leaves.bounds.InRange
  small : setting.leaves.primary < 2147483648
  realizes : setting.leaves.Realizes setting.assignment setting.model

/-- A circuit over the variables of the leaves, for integers of the range. -/
structure Ready (setting : Setting) (circuit : Circuit) : Prop where
  primary : circuit.primary = setting.leaves.primary
  width : circuit.width = setting.range.bitwidth

theorem Ready.mono {setting : Setting} {before after : Circuit} (ready : setting.Ready before)
    (grown : before.Extends after) : setting.Ready after :=
  ⟨grown.primary.trans ready.primary, grown.width.trans ready.width⟩

end Setting

abbrev Grounding := List (Variable × Nat)

namespace Grounding

def matrices (setting : Setting) (grounding : Grounding) : Scope Matrix :=
  ⟨grounding.map fun bound =>
    (bound.1, Matrix.constant setting.size bound.1.arity [bound.2])⟩

def sets (setting : Setting) (grounding : Grounding) : Scope TupleSet :=
  ⟨grounding.map fun bound => (bound.1, ⟨setting.univ, bound.1.arity, .ofList [bound.2]⟩)⟩

def InRange (setting : Setting) (grounding : Grounding) : Prop :=
  ∀ bound ∈ grounding, bound.2 < setting.size ^ bound.1.arity

variable (setting : Setting) (grounding : Grounding)

theorem matrices_cons (declared : Variable) (index : Nat) :
    matrices setting ((declared, index) :: grounding) = (matrices setting grounding).extend
      declared (Matrix.constant setting.size declared.arity [index]) :=
  rfl

theorem sets_cons (declared : Variable) (index : Nat) :
    sets setting ((declared, index) :: grounding) = (sets setting grounding).extend
      declared ⟨setting.univ, declared.arity, .ofList [index]⟩ :=
  rfl

theorem lookup_matrices (leaf : Variable) :
    (matrices setting grounding).lookup leaf =
      (grounding.find? fun bound => bound.1 == leaf).map fun bound =>
        Matrix.constant setting.size bound.1.arity [bound.2] := by
  rw [matrices, Scope.lookup, List.find?_map, Option.map_map]
  rfl

theorem lookup_sets (leaf : Variable) :
    (sets setting grounding).lookup leaf =
      (grounding.find? fun bound => bound.1 == leaf).map fun bound =>
        ⟨setting.univ, bound.1.arity, .ofList [bound.2]⟩ := by
  rw [sets, Scope.lookup, List.find?_map, Option.map_map]
  rfl

end Grounding

namespace Setting

variable (setting : Setting)

/-- A compilation and an evaluation agree: what is compiled may be used with the circuit, and
under the assignment it means what evaluation gives. -/
def Agrees {γ δ : Type} (known : Circuit → γ → Prop) (means : γ → δ → Prop)
    (compiled : Compile γ) (evaluated : Evaluate δ) : Prop :=
  ∀ (grounding : Grounding) (circuit : Circuit), grounding.InRange setting →
    setting.Ready circuit →
    Compile.Yields (grounding.matrices setting) circuit compiled fun result after =>
      known after result ∧
        Evaluate.Gives (grounding.sets setting) setting.mayFail evaluated (means result)

def AgreesExpr (expr : Expr) : Prop :=
  setting.Agrees (fun circuit matrix => circuit.KnowsMatrix setting.size expr.arity matrix)
    (fun matrix set => matrix.Denotes setting.univ expr.arity setting.assignment set)
    (expr.compile setting.leaves setting.range) (expr.evaluate setting.model setting.range)

def AgreesDecls : List Decl → Prop
  | [] => True
  | .oneOf declared domain :: rest =>
    declared.arity = domain.arity ∧
      Index.capacity setting.size domain.arity = .ok (setting.size ^ domain.arity) ∧
      setting.AgreesExpr domain ∧ AgreesDecls rest

/-- What the results of groundings stand for: where the pending conditions fail all of them are
neutral, and where they hold evaluation gives the same values up to neutral ones. -/
structure Covers {γ δ : Type} [DecidableEq δ] (grounding : Grounding) (value : γ → δ)
    (neutral : δ) (pending : List Bit) (results : List γ) (evaluated : Evaluate (List δ)) :
    Prop where
  absent : pending.all (Bit.eval setting.assignment) = false →
    ∀ result ∈ results, value result = neutral
  present : pending.all (Bit.eval setting.assignment) = true →
    Evaluate.Gives (grounding.sets setting) setting.mayFail evaluated fun values =>
      (results.map value).filter (· ≠ neutral) = values.filter (· ≠ neutral)

section

variable {setting} {γ δ : Type} [DecidableEq δ] {visit : List Bit → Compile γ}
  {body : Evaluate δ} {known : Circuit → γ → Prop} {value : γ → δ} {neutral : δ}

/-- The body of a grounding means the same compiled and evaluated, or is neutral where the
pending conditions fail. -/
def Visits (setting : Setting) (visit : List Bit → Compile γ) (body : Evaluate δ)
    (known : Circuit → γ → Prop) (value : γ → δ) (neutral : δ) : Prop :=
  ∀ (grounding : Grounding) (circuit : Circuit) (pending : List Bit),
    grounding.InRange setting → setting.Ready circuit → circuit.KnowsAll pending →
    Compile.Yields (grounding.matrices setting) circuit (visit pending) fun result after =>
      known after result ∧
      (pending.all (Bit.eval setting.assignment) = false → value result = neutral) ∧
      (pending.all (Bit.eval setting.assignment) = true →
        Evaluate.Gives (grounding.sets setting) setting.mayFail body (· = value result))

private theorem all_concat (pending : List Bit) (bit : Bit) :
    (pending ++ [bit]).all (Bit.eval setting.assignment) =
      (pending.all (Bit.eval setting.assignment) && bit.eval setting.assignment) := by
  rw [List.all_append, List.all_cons, List.all_nil, Bool.and_true]

private theorem groundCells_yields {declared : Variable}
    (counted : Index.capacity setting.size declared.arity = .ok (setting.size ^ declared.arity))
    {compileRest : List Bit → Compile (List γ)} {evaluateRest : Evaluate (List δ)}
    (stable : ∀ result before after, known before result → before.Extends after →
      known after result)
    (others : ∀ (grounding : Grounding) (circuit : Circuit) (pending : List Bit),
      grounding.InRange setting → setting.Ready circuit → circuit.KnowsAll pending →
      Compile.Yields (grounding.matrices setting) circuit (compileRest pending)
        fun results after => (∀ result ∈ results, known after result) ∧
          setting.Covers grounding value neutral pending results evaluateRest)
    {grounding : Grounding} (inRange : grounding.InRange setting) {pending : List Bit}
    {cells : List (Nat × Bit)} (circuit : Circuit) (ready : setting.Ready circuit)
    (pendingKnown : circuit.KnowsAll pending)
    (cellsKnown : ∀ cell ∈ cells, circuit.Knows cell.2 ∧ cell.1 < setting.size ^ declared.arity) :
    Compile.Yields (grounding.matrices setting) circuit
      (cells.mapM fun cell => Scope.binding declared
        (Matrix.constant setting.size declared.arity [cell.1])
        (compileRest (pending ++ [cell.2])))
      fun rows after => (∀ result ∈ rows.flatten, known after result) ∧
        setting.Covers grounding value neutral pending rows.flatten (do
          let valueRows ← ((cells.filter fun cell => cell.2.eval setting.assignment).map
            Prod.fst).mapM fun index => do
              let singleton ← TupleSet.ofIndices? setting.univ declared.arity [index]
              Scope.binding declared singleton evaluateRest
          return valueRows.flatten) := by
  induction cells generalizing circuit with
  | nil =>
      refine Compile.Yields.pure ⟨by simp, by simp, fun _ => ?_⟩
      exact Evaluate.Gives.pure rfl
  | cons cell rest hypothesis =>
      rw [List.forall_mem_cons] at cellsKnown
      rcases cellsKnown with ⟨⟨bitKnown, bounded⟩, restKnown⟩
      rw [List.mapM_cons]
      have extended : Grounding.InRange setting ((declared, cell.1) :: grounding) :=
        List.forall_mem_cons.mpr ⟨bounded, inRange⟩
      have one := others ((declared, cell.1) :: grounding) circuit (pending ++ [cell.2]) extended
        ready (Circuit.knowsAll_append.mpr ⟨pendingKnown, by simpa using bitKnown⟩)
      rw [Grounding.matrices_cons] at one
      refine Compile.Yields.bind one.binding fun row middle grown made => ?_
      rcases made with ⟨rowKnown, rowCovers⟩
      have later := hypothesis middle (ready.mono grown) (pendingKnown.mono grown)
        fun other member => ⟨(restKnown other member).1.mono grown, (restKnown other member).2⟩
      refine Compile.Yields.bind later fun rows after grownAgain held => Compile.Yields.pure ?_
      rcases held with ⟨rowsKnown, rowsCover⟩
      rw [List.flatten_cons]
      refine ⟨?_, ?_, ?_⟩
      · intro result member
        rcases List.mem_append.mp member with here | there
        · exact stable result _ _ (rowKnown result here) grownAgain
        · exact rowsKnown result there
      · intro fails result member
        rcases List.mem_append.mp member with here | there
        · exact rowCovers.absent (by rw [all_concat, fails, Bool.false_and]) result here
        · exact rowsCover.absent fails result there
      · intro holds
        rw [List.map_append, List.filter_append]
        have remaining := rowsCover.present holds
        cases chosen : cell.2.eval setting.assignment with
        | false =>
            have neutralRow : (row.map value).filter (· ≠ neutral) = [] := by
              rw [List.filter_eq_nil_iff]
              intro result member
              rcases List.mem_map.mp member with ⟨origin, originMember, rfl⟩
              have absent := rowCovers.absent
                (by rw [all_concat, chosen, Bool.and_false]) origin originMember
              simpa using absent
            rw [List.filter_cons_of_neg (by rw [chosen]; exact Bool.false_ne_true), neutralRow,
              List.nil_append]
            exact remaining
        | true =>
            have present := rowCovers.present (by rw [all_concat, chosen, holds, Bool.and_true])
            rw [Grounding.sets_cons] at present
            have singleton := TupleSet.ofIndices?_of_capacity counted
              (List.forall_mem_singleton.mpr bounded)
            have kept : ((cell :: rest).filter fun cell => cell.2.eval setting.assignment) =
                cell :: rest.filter fun cell => cell.2.eval setting.assignment :=
              List.filter_cons_of_pos chosen
            rw [kept, List.map_cons, List.mapM_cons]
            simp only [bind_assoc, pure_bind, List.flatten_cons]
            refine Evaluate.Gives.bind (Evaluate.Gives.except singleton rfl) fun set same => ?_
            subst same
            refine Evaluate.Gives.bind present.binding fun values sameValues => ?_
            have regrouped := Evaluate.Gives.bind remaining fun others sameOthers =>
              @Evaluate.Gives.pure _ _ setting.mayFail (values ++ others)
                (fun all => (row.map value).filter (· ≠ neutral) ++
                  (rows.flatten.map value).filter (· ≠ neutral) = all.filter (· ≠ neutral))
                (by rw [List.filter_append, sameValues, sameOthers])
            simp only [bind_assoc, pure_bind] at regrouped
            exact regrouped

/-- Groundings compile to results of the groundings that evaluation visits, and to neutral
ones. -/
theorem ground_yields (stable : ∀ result before after, known before result → before.Extends after →
      known after result)
    (visits : setting.Visits visit body known value neutral) {declarations : List Decl}
    (agrees : setting.AgreesDecls declarations) (grounding : Grounding) (circuit : Circuit)
    (pending : List Bit) (inRange : grounding.InRange setting) (ready : setting.Ready circuit)
    (pendingKnown : circuit.KnowsAll pending) :
    Compile.Yields (grounding.matrices setting) circuit
      (ground (Decl.compileDomains setting.leaves setting.range declarations) pending visit)
      fun results after => (∀ result ∈ results, known after result) ∧
        setting.Covers grounding value neutral pending results
          (visitGroundings (Decl.evaluateDomains setting.model setting.range declarations)
            body) := by
  induction declarations generalizing grounding circuit pending with
  | nil =>
      rw [Decl.compileDomains, Decl.evaluateDomains, ground, visitGroundings]
      refine Compile.Yields.bind (visits grounding circuit pending inRange ready pendingKnown)
        fun result after _ made => Compile.Yields.pure ⟨by simpa using made.1, ?_, ?_⟩
      · simpa using made.2.1
      · intro holds
        refine Evaluate.Gives.bind (made.2.2 holds) fun found same => Evaluate.Gives.pure ?_
        rw [same]
        rfl
  | cons declaration rest hypothesis =>
      rcases declaration with ⟨declared, domain⟩
      rcases agrees with ⟨sameArity, counted, domainAgrees, restAgrees⟩
      rw [Decl.compileDomains, Decl.evaluateDomains, ground, visitGroundings]
      refine Compile.Yields.bind (domainAgrees grounding circuit inRange ready)
        fun matrix middle grown made => ?_
      rcases made with ⟨matrixKnown, denotes⟩
      rw [matrixKnown.universeSize_eq, matrixKnown.arity_eq, ← sameArity]
      rw [← sameArity] at counted matrixKnown denotes
      have cells := groundCells_yields counted stable (hypothesis restAgrees) inRange middle
        (ready.mono grown) (pendingKnown.mono grown) fun cell member =>
          ⟨matrixKnown.knows_of_mem member, matrixKnown.lt_of_mem member⟩
      refine Compile.Yields.bind cells fun rows after _ held => Compile.Yields.pure
        ⟨held.1, held.2.absent, fun holds => ?_⟩
      refine Evaluate.Gives.bind denotes fun set setDenotes => ?_
      rw [setDenotes.univ_eq, setDenotes.arity_eq, setDenotes.toList_eq]
      exact held.2.present holds

end

end Setting

end ModelFinder
