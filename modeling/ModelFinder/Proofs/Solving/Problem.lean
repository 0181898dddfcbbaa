import Mathlib
import ModelFinder.Solve
import ModelFinder.Proofs.Cnf.Roots
import ModelFinder.Proofs.Compile.Agreement
import ModelFinder.Proofs.Compile.Closure
import ModelFinder.Proofs.Solving.Backend
/-!
What a problem asks for. A formula wants some assignments of the primary variables, and its
problem has clauses whose models are those assignments, extended to the variables of the
gates. Each assignment stands for an instance of its own.
-/

namespace ModelFinder

theorem AgreeUpTo.symm {last : Nat} {left right : Nat → Bool} (agree : AgreeUpTo last left right) :
    AgreeUpTo last right left :=
  fun number positive le => (agree number positive le).symm

theorem AgreeUpTo.trans {last : Nat} {first second third : Nat → Bool}
    (left : AgreeUpTo last first second) (right : AgreeUpTo last second third) :
    AgreeUpTo last first third :=
  fun number positive le => (left number positive le).trans (right number positive le)

namespace Problem

/-- A problem asks for the assignments of its primary variables that are wanted, and finds
them through its clauses, none of which is empty. -/
structure Poses (problem : Problem) (made : (Nat → Bool) → Instance)
    (wanted : (Nat → Bool) → Bool) : Prop where
  decoded : ∀ assignment, problem.decode? assignment = .ok (made assignment)
  distinguished : ∀ first second,
    made first = made second ↔ AgreeUpTo problem.primary first second
  determined : ∀ {first second}, AgreeUpTo problem.primary first second →
    wanted first = wanted second
  folded : ∀ {answer}, problem.trivial = some answer → ∀ assignment, wanted assignment = answer
  encoded : problem.trivial ≠ some false → ∀ assignment,
    (∃ extension, AgreeUpTo problem.primary assignment extension ∧
      problem.cnf.holds extension = true) ↔ wanted assignment = true
  nonempty : problem.cnf.Nonempty
  unfolded : problem.trivial = none → 0 < problem.primary

def ofCompiled (bounds : Bounds) (compiled : Compiled Bit) : Problem where
  bounds := bounds
  layout := compiled.leaves.layout
  cnf :=
    match compiled.value.const? with
    | some _ => ⟨compiled.leaves.primary, #[]⟩
    | none => Cnf.ofRoots compiled.leaves.primary [compiled.value]
  primary := compiled.leaves.primary
  trivial := compiled.value.const?

theorem ofFormula?_eq (formula : Formula) (bounds : Bounds) (bitwidth : Nat) :
    ofFormula? formula bounds bitwidth =
      (formula.compiled? bounds bitwidth).map (ofCompiled bounds) := by
  rw [ofFormula?]
  cases formula.compiled? bounds bitwidth <;> rfl

theorem nonempty_ofCompiled (bounds : Bounds) (compiled : Compiled Bit) :
    (ofCompiled bounds compiled).cnf.Nonempty := by
  rw [ofCompiled]
  cases folded : compiled.value.const? with
  | some answer => exact List.forall_mem_nil _
  | none =>
      apply Cnf.nonempty_ofRoots
      intro root member
      rw [List.mem_singleton.mp member]
      intro constant
      rw [constant] at folded
      cases folded

/-- The clauses of a bit that is not a constant, or none, hold for extensions of the
assignments that make the bit true. -/
theorem poses_ofCompiled {bounds : Bounds} {compiled : Compiled Bit}
    (laid : compiled.leaves.Laid) (same : compiled.leaves.bounds = bounds)
    (inRange : bounds.InRange) (countable : bounds.Countable)
    (small : compiled.leaves.primary < UInt32.size) (valid : compiled.circuit.Valid)
    (primary : compiled.circuit.primary = compiled.leaves.primary)
    (known : compiled.circuit.Knows compiled.value) :
    (ofCompiled bounds compiled).Poses compiled.leaves.decoded compiled.value.eval := by
  subst same
  have nonempty := nonempty_ofCompiled compiled.leaves.bounds compiled
  cases folded : compiled.value.const? with
  | some answer =>
      have constant : compiled.value = .const answer := Bit.eq_const_of_const? folded
      have cnf : (ofCompiled compiled.leaves.bounds compiled).cnf =
          ⟨compiled.leaves.primary, #[]⟩ := by rw [ofCompiled, folded]
      refine ⟨laid.decodeInstance?_eq_decoded inRange countable, laid.decoded_eq_iff, ?_, ?_, ?_,
        nonempty, ?_⟩
      · intro first second _
        rw [constant, Bit.eval, Bit.eval]
      · intro answer' trivial assignment
        have : compiled.value.const? = some answer' := trivial
        rw [folded] at this
        rw [constant, Bit.eval, Option.some.inj this]
      · intro possible assignment
        have holds : answer = true := by
          rw [← Bool.not_eq_false]
          rintro rfl
          exact possible folded
        rw [cnf, constant, holds, Bit.eval]
        exact iff_of_true ⟨assignment, fun _ _ _ => rfl, by simp [Cnf.holds]⟩ rfl
      · intro trivial
        have : compiled.value.const? = none := trivial
        rw [folded] at this
        cases this
  | none =>
      have cnf : (ofCompiled compiled.leaves.bounds compiled).cnf =
          Cnf.ofRoots compiled.circuit.primary [compiled.value] := by
        rw [ofCompiled, folded, primary]
      have rootsKnown : ∀ root ∈ [compiled.value], compiled.circuit.Knows root := by
        simpa using known
      have positive : 0 < compiled.value.label := by
        rcases known.label_bounds valid with ⟨value, constant⟩ | ⟨positive, -⟩
        · rw [constant] at folded
          cases folded
        · exact positive
      refine ⟨laid.decodeInstance?_eq_decoded inRange countable, laid.decoded_eq_iff, ?_, ?_, ?_,
        nonempty, ?_⟩
      · intro first second agree
        exact Encoding.eval_of_agree valid (primary ▸ agree) known
      · intro answer trivial
        have : compiled.value.const? = some answer := trivial
        rw [folded] at this
        cases this
      · intro _ assignment
        have models := Cnf.holds_ofRoots valid (primary ▸ small) rootsKnown assignment
        rw [cnf]
        rw [List.forall_mem_singleton, primary] at models
        exact primary ▸ models
      · intro _
        have := known.lastVariable_pos valid positive
        have := Bit.lastVariable_le compiled.circuit.primary
        have same : (ofCompiled compiled.leaves.bounds compiled).primary =
            compiled.circuit.primary := primary.symm
        omega

end Problem

/-! Relations of a family of bits -/

theorem Leaves.all_relationMatrix {family : BitFamily} {start : Circuit} {bounds : Bounds}
    {leaves : Leaves} (allocated : Leaves.ofBounds? bounds = .ok leaves)
    (relations : ∀ entry ∈ bounds.entries,
      family.All start (entry.matrix bounds.univ.size leaves.allocation)) (leaf : Relation) :
    family.All start (leaves.relationMatrix? leaf) := by
  rw [Leaves.relationMatrix?_of_ofBounds? allocated]
  cases found : bounds.bound? leaf with
  | none => exact BitFamily.all_error
  | some entry => exact BitFamily.all_ok.mpr (relations entry (List.mem_of_find?_eq_some found))

section

variable {bounds : Bounds} {bitwidth : Nat} {formula : Formula} {compiled : Compiled Bit}

theorem Formula.compiled_within {family : BitFamily} (closed : family.Closed)
    (ran : formula.compiled? bounds bitwidth = .ok compiled)
    (ready : family.Ready (.empty compiled.leaves.primary bitwidth))
    (relations : ∀ entry ∈ bounds.entries, family.All (.empty compiled.leaves.primary bitwidth)
      (entry.matrix bounds.univ.size compiled.leaves.allocation)) :
    family.Ready compiled.circuit ∧
      family.Grows (.empty compiled.leaves.primary bitwidth) compiled.circuit ∧
      family.All compiled.circuit compiled.value := by
  rcases Compiled.of_run? ran with ⟨range, scope, -, allocated, run⟩
  let start := Circuit.empty compiled.leaves.primary bitwidth
  have every : formula.Every (.relations fun leaf =>
      family.All start (compiled.leaves.relationMatrix? leaf)) :=
    formula.every_of_total
      (SyntaxCheck.total_relations (Leaves.all_relationMatrix allocated relations))
  have kept := @BitFamily.within_formula _ start compiled.leaves range closed _ every Scope.empty
    start (family.refl _) BitFamily.all_nil ready
  rw [run] at kept
  rcases kept with ⟨after, grown, held⟩
  exact ⟨after, grown, BitFamily.all_ok.mp (BitFamily.all_pair.mp held).1⟩

/-- Without variables a formula comes down to a constant. -/
theorem Formula.folded_of_closed (made : bounds.Made)
    (ran : formula.compiled? bounds bitwidth = .ok compiled)
    (none : compiled.leaves.primary = 0) : ∃ value, compiled.value = .const value := by
  rcases Compiled.of_run? ran with ⟨-, -, -, allocated, -⟩
  have labelled := Leaves.labelled_of_ofBounds? made.sound allocated
  have same := (Leaves.of_ofBounds? allocated).1
  have held := (formula.compiled_within BitFamily.closed_folded ran trivial ?_).2.2
  · exact BitFamily.all_bit.mp held
  · intro entry member
    have decided : entry.openTuples compiled.leaves.allocation = [] := by
      rw [List.eq_nil_iff_forall_not_mem]
      intro tuple openMember
      have := labelled.label_bounds (same ▸ member) openMember
      omega
    rw [RelationBound.matrix, decided]
    exact BitFamily.all_constantMatrix _ _ _

end

theorem Leaves.known {bounds : Bounds} (made : bounds.Made) {leaves : Leaves}
    (allocated : Leaves.ofBounds? bounds = .ok leaves) (small : leaves.primary < 2147483648)
    (bitwidth : Nat) :
    ∀ entry ∈ bounds.entries, BitFamily.known.All (.empty leaves.primary bitwidth)
      (entry.matrix bounds.univ.size leaves.allocation) := by
  intro entry member
  have same := (Leaves.of_ofBounds? allocated).1
  have cells : BitFamily.known.All (.empty leaves.primary bitwidth)
      ((entry.openTuples leaves.allocation).map fun tuple => (tuple.1, Bit.var tuple.2)) := by
    refine BitFamily.all_list.mpr fun cell cellMember => ?_
    rcases List.mem_map.mp cellMember with ⟨tuple, openMember, rfl⟩
    have labelled := (Leaves.labelled_of_ofBounds? made.sound allocated).label_bounds
      (same ▸ member) openMember
    refine BitFamily.all_pair.mpr ⟨BitFamily.all_nat, BitFamily.all_bit.mpr (.var labelled.1 ?_)⟩
    change (tuple.2 : Int) ≤ Bit.lastVariable leaves.primary
    rw [Bit.lastVariable_of_lt small]
    exact_mod_cast labelled.2
  have known := (BitFamily.all_constantMatrix bounds.univ.size entry.relation.arity
    entry.lower.toList).setAll cells
  rwa [List.foldl_map] at known

section

variable {bounds : Bounds} {bitwidth : Nat} (made : bounds.Made)
  (labels : (bounds.openCount : Int) ≤ Circuit.maxLabel)

include made labels

theorem Leaves.laid_of_labels {leaves : Leaves}
    (allocated : Leaves.ofBounds? bounds = .ok leaves) :
    leaves.Laid ∧ leaves.bounds = bounds ∧ leaves.primary < 2147483648 := by
  have size : UInt32.size = 4294967296 := by decide
  have largest : Circuit.maxLabel = 2147483647 := rfl
  have laid := Leaves.laid made.sound (by omega) allocated
  have same := (Leaves.of_ofBounds? allocated).1
  refine ⟨laid, same, ?_⟩
  rw [laid.primary_eq, same]
  omega

/-- Whatever a formula compiles to may be used with its circuit, however the formula is
built. -/
theorem Formula.knows_compiled {formula : Formula} {compiled : Compiled Bit}
    (ran : formula.compiled? bounds bitwidth = .ok compiled) :
    compiled.leaves.Laid ∧ compiled.leaves.bounds = bounds ∧
      compiled.leaves.primary < 2147483648 ∧ compiled.circuit.Valid ∧
      compiled.circuit.primary = compiled.leaves.primary ∧
      compiled.circuit.Knows compiled.value := by
  rcases Compiled.of_run? ran with ⟨-, -, -, allocated, -⟩
  rcases Leaves.laid_of_labels made labels allocated with ⟨laid, same, small⟩
  have relations := Leaves.known made allocated small bitwidth
  have valid := Circuit.valid_empty compiled.leaves.primary bitwidth
  have within := formula.compiled_within BitFamily.closed_known ran valid relations
  exact ⟨laid, same, small, within.1, within.2.1.primary, BitFamily.all_bit.mp within.2.2⟩

theorem Formula.poses (inRange : bounds.InRange) (countable : bounds.Countable) {formula : Formula}
    {compiled : Compiled Bit} (ran : formula.compiled? bounds bitwidth = .ok compiled) :
    compiled.leaves.Laid ∧ compiled.leaves.bounds = bounds ∧
      (Problem.ofCompiled bounds compiled).Poses compiled.leaves.decoded
        compiled.value.eval := by
  rcases formula.knows_compiled made labels ran with ⟨laid, same, small, valid, primary, known⟩
  have size : UInt32.size = 4294967296 := by decide
  exact ⟨laid, same,
    Problem.poses_ofCompiled laid same inRange countable (by omega) valid primary known⟩

end

end ModelFinder
