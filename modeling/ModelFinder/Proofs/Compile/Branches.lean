import Mathlib
import ModelFinder.Proofs.Compile.Casts
import ModelFinder.Proofs.Compile.Ground
/-!
What several kinds of terms have in common: branches that a condition chooses between, and
bodies that are guarded by memberships.
-/

namespace ModelFinder.Setting

variable {setting : Setting}

def AgreesFormula (setting : Setting) (formula : Formula) : Prop :=
  setting.Agrees (fun circuit bit => circuit.Knows bit)
    (fun bit value => value = bit.eval setting.assignment)
    (formula.compile setting.leaves setting.range)
    (formula.evaluate setting.model setting.range)

def AgreesInt (setting : Setting) (value : IntExpr) : Prop :=
  setting.Agrees
    (fun circuit word => circuit.KnowsWord word ∧ word.width = setting.range.bitwidth)
    (fun word number => number = word.eval setting.assignment)
    (value.compile setting.leaves setting.range) (value.evaluate setting.model setting.range)

namespace Sound

variable (sound : setting.Sound)

include sound

theorem positive : 0 < setting.univ.size := sound.laid.sound.nonempty

theorem atomsInRange : setting.model.AtomsInRange := by
  rintro ⟨value, atom⟩ member
  have found := Instance.mem_ints.mp member
  rw [Instance.intAtom?, sound.realizes.intAtoms] at found
  rw [sound.realizes.univ]
  exact sound.inRange.atoms found

end Sound

/-- A conditional compiles one branch where its condition came down to a constant, and chooses
between both branches elsewhere. -/
theorem agrees_conditional {γ δ : Type} {known : Circuit → γ → Prop}
    {means : γ → δ → Prop} {condition : Formula} {thenCompiled elseCompiled : Compile γ}
    {thenEvaluated elseEvaluated : Evaluate δ} (choice : Bit → γ → γ → Compile γ)
    (conditionAgrees : setting.AgreesFormula condition)
    (thenAgrees : setting.Agrees known means thenCompiled thenEvaluated)
    (elseAgrees : setting.Agrees known means elseCompiled elseEvaluated)
    (stable : ∀ result before after, known before result → before.Extends after →
      known after result)
    (chooses : ∀ scope circuit bit thenResult elseResult, circuit.Knows bit →
      known circuit thenResult → known circuit elseResult →
      Compile.Yields scope circuit (choice bit thenResult elseResult) fun result after =>
        known after result ∧ ∀ value,
          (bit.eval setting.assignment = true → means thenResult value → means result value) ∧
          (bit.eval setting.assignment = false → means elseResult value → means result value)) :
    setting.Agrees known means
      (do
        let bit ← condition.compile setting.leaves setting.range
        match bit.const? with
        | some true => thenCompiled
        | some false => elseCompiled
        | none => do
          let thenResult ← thenCompiled
          let elseResult ← elseCompiled
          choice bit thenResult elseResult)
      (do
        if ← condition.evaluate setting.model setting.range then thenEvaluated
        else elseEvaluated) := by
  intro grounding circuit inRange ready
  refine Compile.Yields.bind (conditionAgrees grounding circuit inRange ready)
    fun bit first grown madeBit => ?_
  have readyFirst := ready.mono grown
  cases constant : bit.const? with
  | some value =>
      obtain rfl := Bit.eq_const_of_const? constant
      cases value with
      | true =>
          refine Compile.Yields.weaken (thenAgrees grounding first inRange readyFirst)
            fun result after _ made => ⟨made.1, Evaluate.Gives.bind madeBit.2 fun value same => ?_⟩
          rw [same, Bit.eval, if_pos rfl]
          exact made.2
      | false =>
          refine Compile.Yields.weaken (elseAgrees grounding first inRange readyFirst)
            fun result after _ made => ⟨made.1, Evaluate.Gives.bind madeBit.2 fun value same => ?_⟩
          rw [same, Bit.eval, if_neg Bool.false_ne_true]
          exact made.2
  | none =>
      refine Compile.Yields.bind (thenAgrees grounding first inRange readyFirst)
        fun thenResult second grownThen madeThen => ?_
      refine Compile.Yields.bind
        (elseAgrees grounding second inRange (readyFirst.mono grownThen))
        fun elseResult third grownElse madeElse => ?_
      have chosen := chooses (grounding.matrices setting) third bit thenResult elseResult
        ((madeBit.1.mono grownThen).mono grownElse)
        (stable thenResult second third madeThen.1 grownElse) madeElse.1
      refine Compile.Yields.weaken chosen fun result after _ made =>
        ⟨made.1, Evaluate.Gives.bind madeBit.2 fun value same => ?_⟩
      rw [same]
      cases holds : bit.eval setting.assignment with
      | true =>
          rw [if_pos rfl]
          exact Evaluate.Gives.weaken madeThen.2 fun value means =>
            (made.2 value).1 holds means
      | false =>
          rw [if_neg Bool.false_ne_true]
          exact Evaluate.Gives.weaken madeElse.2 fun value means =>
            (made.2 value).2 holds means

theorem visits_guarded {γ δ : Type} {known : Circuit → γ → Prop} {value : γ → δ}
    {neutral : δ} {compiled : Compile γ} {evaluated : Evaluate δ} (guard : Bit → γ → Build γ)
    (agrees : setting.Agrees known (fun result found => found = value result) compiled evaluated)
    (stable : ∀ result before after, known before result → before.Extends after →
      known after result)
    (guards : ∀ circuit present result, circuit.Knows present → known circuit result →
      Build.Yields circuit (guard present result) fun guarded after => known after guarded ∧
        value guarded = bif present.eval setting.assignment then value result else neutral) :
    setting.Visits
      (fun memberships => do
        let result ← compiled
        let present ← Build.all memberships
        guard present result) evaluated known value neutral := by
  intro grounding circuit pending inRange ready pendingKnown
  refine Compile.Yields.bind (agrees grounding circuit inRange ready)
    fun result first grown made => ?_
  refine Compile.Yields.bind (Compile.Yields.build (Build.all_computes (pendingKnown.mono grown)))
    fun present second grownAll madeAll => ?_
  have presentValue := madeAll.2 setting.assignment
  dsimp only at presentValue
  refine Compile.Yields.weaken (Compile.Yields.build (guards second present result madeAll.1
    (stable result first second made.1 grownAll))) fun guarded after _ held =>
      ⟨held.1, fun fails => ?_, fun holds => ?_⟩
  · rw [held.2, presentValue, fails, cond_false]
  · refine Evaluate.Gives.weaken made.2 fun found same => ?_
    rw [same, held.2, presentValue, holds, cond_true]

end ModelFinder.Setting
