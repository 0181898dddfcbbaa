import Mathlib
import ModelFinder.Proofs.Circuit.History
import ModelFinder.Proofs.Compile.Repetition
/-!
Sharing is complete. What was asked of a circuit before is answered from the gates it has, in
whatever order it is asked again; so is the translation of a formula. The order and the number
of occurrences of the operands of a conjunction or disjunction make no difference either.
-/

namespace ModelFinder

theorem Task.repeats (task : Task) : Build.Repeats task.build.run := by
  cases task with
  | bit operation =>
      refine .tryMap (.lift ?_)
      cases operation with
      | all inputs => exact .all inputs
      | any inputs => exact .any inputs
      | not input => exact .not input
      | ite condition thenBit elseBit => exact .ite condition thenBit elseBit
      | xor left right => exact .xor left right
      | iff left right => exact .iff left right
      | implies left right => exact .implies left right
      | sum left right carryIn => exact .sum left right carryIn
      | carry left right carryIn => exact .carry left right carryIn
  | word op left right => exact .tryMap (.lift (.intOp op left right))
  | unaryWord op operand => exact .tryMap (.lift (.intUnaryOp op operand))
  | wordComparison op left right => exact .tryMap (.lift (.intComparison op left right))
  | wordChoice condition thenWord elseWord =>
      exact .tryMap (.lift (.choice condition thenWord elseWord))
  | sum words => exact .tryMap (.sumAll words)
  | matrix op left right => exact .tryMap (.setOp op left right)
  | matrixComparison op left right => exact .tryMap (.setComparison op left right)
  | matrixChoice condition thenMatrix elseMatrix =>
      exact .tryMap (.matrixChoice thenMatrix elseMatrix condition)
  | multiplicity amount operand => exact .tryMap (.lift (.multiplicity amount operand))
  | count operand => exact .tryMap (.popcount operand)

/-! Operands in any order -/

namespace Bit

theorem ordered_congr {circuit : Circuit} (valid : circuit.Valid) {first second : List Bit}
    (firstKnown : ∀ bit ∈ first, circuit.Knows bit)
    (secondKnown : ∀ bit ∈ second, circuit.Knows bit)
    (same : ∀ bit, bit ∈ first ↔ bit ∈ second) : ordered first = ordered second := by
  have distinct : ∀ bits, (ordered bits).Nodup := fun bits =>
    (pairwise_ordered bits).imp fun less equal => by
      rw [equal] at less
      exact lt_irrefl _ less
  have permuted : (ordered first).Perm (ordered second) := by
    rw [List.perm_ext_iff_of_nodup (distinct first) (distinct second)]
    intro bit
    rw [mem_ordered valid firstKnown, mem_ordered valid secondKnown, same]
  refine permuted.eq_of_pairwise (fun left right _ _ less greater => ?_)
    (pairwise_ordered first) (pairwise_ordered second)
  omega

/-- Two lists of known bits that agree but for a constant are decided by the other constant at
the same time, and without the constant they are sorted alike. -/
theorem operands_congr {circuit : Circuit} (valid : circuit.Valid) {first second : List Bit}
    (firstKnown : ∀ bit ∈ first, circuit.Knows bit)
    (secondKnown : ∀ bit ∈ second, circuit.Knows bit) (dropped : Bool)
    (same : ∀ bit, bit ≠ .const dropped → (bit ∈ first ↔ bit ∈ second)) :
    (first.any fun input => input.same (.const !dropped)) =
        (second.any fun input => input.same (.const !dropped)) ∧
      ordered (first.filter fun input => !input.same (.const dropped)) =
        ordered (second.filter fun input => !input.same (.const dropped)) := by
  have decided : ∀ {inputs : List Bit}, (∀ bit ∈ inputs, circuit.Knows bit) →
      ((inputs.any fun input => input.same (.const !dropped)) = true ↔
        Bit.const (!dropped) ∈ inputs) := by
    intro inputs known
    rw [List.any_eq_true]
    constructor
    · rintro ⟨bit, member, isConst⟩
      rwa [← ((known bit member).same_iff valid (.const !dropped)).mp isConst]
    · intro member
      exact ⟨_, member, by simp [Bit.same]⟩
  have kept : ∀ {inputs : List Bit}, (∀ bit ∈ inputs, circuit.Knows bit) → ∀ bit,
      (bit ∈ inputs.filter fun input => !input.same (.const dropped)) ↔
        bit ∈ inputs ∧ bit ≠ .const dropped := by
    intro inputs known bit
    rw [List.mem_filter]
    refine and_congr_right fun member => ?_
    rw [ne_eq, ← (known bit member).same_iff valid (.const dropped)]
    simp
  constructor
  · rw [Bool.eq_iff_iff, decided firstKnown, decided secondKnown]
    refine same _ ?_
    cases dropped <;> simp
  · refine ordered_congr valid (fun bit member => firstKnown bit (List.mem_of_mem_filter member))
      (fun bit member => secondKnown bit (List.mem_of_mem_filter member)) fun bit => ?_
    rw [kept firstKnown, kept secondKnown]
    exact and_congr_left (same bit)

end Bit

namespace Build

variable {circuit : Circuit} {first second : List Bit}

theorem all_congr (valid : circuit.Valid) (firstKnown : ∀ bit ∈ first, circuit.Knows bit)
    (secondKnown : ∀ bit ∈ second, circuit.Knows bit)
    (same : ∀ bit, bit ≠ .const true → (bit ∈ first ↔ bit ∈ second)) :
    Build.all first = Build.all second := by
  rcases Bit.operands_congr valid firstKnown secondKnown true same with ⟨decided, sorted⟩
  change first.any Bit.isFalse = second.any Bit.isFalse at decided
  change Bit.ordered (first.filter fun input => !input.isTrue) =
    Bit.ordered (second.filter fun input => !input.isTrue) at sorted
  rw [Build.all, Build.all, decided, sorted]

theorem any_congr (valid : circuit.Valid) (firstKnown : ∀ bit ∈ first, circuit.Knows bit)
    (secondKnown : ∀ bit ∈ second, circuit.Knows bit)
    (same : ∀ bit, bit ≠ .const false → (bit ∈ first ↔ bit ∈ second)) :
    Build.any first = Build.any second := by
  rcases Bit.operands_congr valid firstKnown secondKnown false same with ⟨decided, sorted⟩
  change first.any Bit.isTrue = second.any Bit.isTrue at decided
  change Bit.ordered (first.filter fun input => !input.isFalse) =
    Bit.ordered (second.filter fun input => !input.isFalse) at sorted
  rw [Build.any, Build.any, decided, sorted]

end Build

namespace Circuit.History

variable {primary width : Nat} {circuit : Circuit} {made : List Bit}
  {performed : List (Task × Except Error Value)}

/-- A circuit keeps what each of its tasks made, so a task asked again has its outcome. -/
theorem found (history : History primary width circuit made performed) :
    ∀ step ∈ performed, ∀ later, circuit.Extends later →
      step.1.build.run later = (step.2, later) := by
  induction history with
  | start opened => exact List.forall_mem_nil _
  | const value _ hypothesis => exact hypothesis
  | var _ _ hypothesis => exact hypothesis
  | @perform circuit made performed task _ inputs hypothesis =>
      rcases task.repeats circuit with ⟨grown, again⟩
      exact List.forall_mem_cons.mpr
        ⟨again, fun step member later after => hypothesis step member later (grown.trans after)⟩

theorem replay (history : History primary width circuit made performed)
    {steps : List (Task × Except Error Value)} (past : ∀ step ∈ steps, step ∈ performed) :
    ((steps.map Prod.fst).mapM fun task : Task => task.build.run) circuit =
      (steps.map Prod.snd, circuit) := by
  induction steps with
  | nil => rfl
  | cons step rest hypothesis =>
      rw [List.forall_mem_cons] at past
      have first := history.found step past.1 circuit (.refl circuit)
      have others := hypothesis past.2
      simp only [List.map_cons, List.mapM_cons, bind, StateT.bind, pure, StateT.pure]
      rw [first]
      dsimp only
      rw [others]

/-- Sharing is complete. Replaying tasks of the past, in any order and number, gives their
outcomes and leaves the circuit as it is. So does translating a formula again, at once or on any
later circuit. Conjunctions and disjunctions of bits made before depend on which bits there are
beside the neutral constant, and nothing else about their operands. -/
theorem shares (history : History primary width circuit made performed) :
    (∀ steps : List (Task × Except Error Value), steps ⊆ performed →
      ((steps.map Prod.fst).mapM fun task : Task => task.build.run) circuit =
        (steps.map Prod.snd, circuit)) ∧
      (∀ (leaves : Leaves) (range : IntRange) (formula : Formula) (scope : Scope Matrix)
        (later : Circuit),
        ((formula.compile leaves range).run.run scope circuit).2.Extends later →
          (formula.compile leaves range).run.run scope later =
            (((formula.compile leaves range).run.run scope circuit).1, later)) ∧
      ∀ first second : List Bit, first ⊆ made → second ⊆ made →
        ((∀ bit, bit ≠ .const true → (bit ∈ first ↔ bit ∈ second)) →
          Build.all second (Build.all first circuit).2 = Build.all first circuit) ∧
        ((∀ bit, bit ≠ .const false → (bit ∈ first ↔ bit ∈ second)) →
          Build.any second (Build.any first circuit).2 = Build.any first circuit) := by
  refine ⟨fun steps past => history.replay past, fun leaves range formula scope later after =>
    (formula.compile_repeats scope circuit).2 later after, ?_⟩
  intro first second firstMade secondMade
  have sound := history.sound
  have firstKnown : ∀ bit ∈ first, circuit.Knows bit :=
    fun bit member => sound.known bit (firstMade member)
  have secondKnown : ∀ bit ∈ second, circuit.Knows bit :=
    fun bit member => sound.known bit (secondMade member)
  constructor
  · intro same
    rw [← Build.all_congr sound.valid firstKnown secondKnown same]
    exact (Build.Repeats.all first circuit).2 _ (.refl _)
  · intro same
    rw [← Build.any_congr sound.valid firstKnown secondKnown same]
    exact (Build.Repeats.any first circuit).2 _ (.refl _)

theorem shares_carry : ∃ circuit outcome, ∃ carry : Task,
    History 3 4 circuit (HasBits.bits outcome ++ [.var 3, .var 2, .var 1]) [(carry, outcome)] ∧
      ([carry, carry].mapM fun task : Task => task.build.run) circuit =
        ([outcome, outcome], circuit) ∧
      Build.all [.var 3, .var 1, .var 3] (Build.all [.var 1, .var 3] circuit).2 =
        Build.all [.var 1, .var 3] circuit := by
  have same : ∀ bit, bit ∈ [Bit.var 1, .var 3] ↔ bit ∈ [Bit.var 3, .var 1, .var 3] := by
    intro bit
    simp only [List.mem_cons, List.not_mem_nil, or_false]
    tauto
  have opened : History 3 4 (empty 3 4) [] [] := .start (empty?_of_lt (by decide) 4)
  have offered : ∀ label : Nat, 0 < label → label ≤ 3 →
      (empty 3 4).var? label = .ok (.var label) :=
    fun label positive bounded => var?_of_le positive bounded (by decide)
  have named := ((opened.var (offered 1 (by decide) (by decide))).var
    (offered 2 (by decide) (by decide))).var (offered 3 (by decide) (by decide))
  obtain ⟨circuit, outcome, asked⟩ : ∃ circuit outcome,
      History 3 4 circuit (HasBits.bits outcome ++ [.var 3, .var 2, .var 1])
        [(.bit (.carry (.var 1) (.var 2) (.var 3)), outcome)] :=
    ⟨_, _, named.perform _ (by simp [Task.inputs, Operation.inputs])⟩
  have twice := asked.shares.1 (List.replicate 2 _)
    (List.replicate_subset.mpr (.inr (List.mem_singleton_self _)))
  refine ⟨circuit, outcome, _, asked, twice, ?_⟩
  exact (asked.shares.2.2 [.var 1, .var 3] [.var 3, .var 1, .var 3] (by simp) (by simp)).1
    fun bit _ => same bit

end Circuit.History

end ModelFinder
