import Mathlib
import ModelFinder.Proofs.Casts.Evaluation
import ModelFinder.Proofs.Circuit.Success
import ModelFinder.Proofs.Compile.Widths
import ModelFinder.Proofs.Solving.Problem
/-!
Casts to atoms and back, compiled. The gates that are added to the word of an integer expression
never refuse it, and the word that they end in has the same bits under every assignment for which
the atoms are the number's own.
-/

namespace ModelFinder

/-! Judgement -/

/-- On a circuit and in a scope, a compilation succeeds with a result of which `post` holds; it
leads to a valid later circuit and leaves the scope as it was. -/
def Compile.Makes {α : Type} (scope : Scope Matrix) (circuit : Circuit) (action : Compile α)
    (post : α → Circuit → Prop) : Prop :=
  ∃ value after, action.run.run scope circuit = ((.ok value, scope), after) ∧ after.Valid ∧
    circuit.Extends after ∧ post value after

namespace Compile.Makes

variable {α β : Type} {scope : Scope Matrix} {circuit : Circuit} {post : β → Circuit → Prop}

theorem bind {action : Compile α} {next : α → Compile β} {middle : α → Circuit → Prop}
    (first : Makes scope circuit action middle)
    (second : ∀ value after, after.Valid → circuit.Extends after → middle value after →
      Makes scope after (next value) post) : Makes scope circuit (action >>= next) post := by
  rcases first with ⟨value, after, ran, valid, grown, holds⟩
  rcases second value after valid grown holds with ⟨result, last, ranNext, lastValid, later, made⟩
  refine ⟨result, last, ?_, lastValid, grown.trans later, made⟩
  have unfolded : (action >>= next).run.run scope circuit =
      (ExceptT.bindCont next (action.run.run scope circuit).1.1).run
        (action.run.run scope circuit).1.2 (action.run.run scope circuit).2 := rfl
  rw [unfolded, ran]
  exact ranNext

theorem build {action : Build β} (valid : circuit.Valid)
    (yields : Build.Yields circuit action post) : Makes scope circuit (liftM action) post := by
  rcases yields valid with ⟨afterValid, grown, holds⟩
  exact ⟨_, _, rfl, afterValid, grown, holds⟩

theorem tryBuild {action : TryBuild β} (valid : circuit.Valid)
    (succeeds : TryBuild.Succeeds circuit action) (yields : TryBuild.Yields circuit action post) :
    Makes scope circuit (liftM action) post := by
  rcases succeeds with ⟨value, succeeded⟩
  rcases yields valid with ⟨afterValid, grown, holds⟩
  refine ⟨value, _, ?_, afterValid, grown, holds value succeeded⟩
  rw [← succeeded]
  rfl

theorem weaken {action : Compile β} {weak : β → Circuit → Prop}
    (makes : Makes scope circuit action post)
    (implies : ∀ value after, post value after → weak value after) :
    Makes scope circuit action weak := by
  rcases makes with ⟨value, after, ran, valid, grown, holds⟩
  exact ⟨value, after, ran, valid, grown, implies value after holds⟩

end Compile.Makes

namespace Compiled

variable {α β : Type} {bounds : Bounds} {bitwidth : Nat} {compile : Leaves → IntRange → Compile α}
  {compiled other : Compiled α}

/-- Over bounds, a compilation ends in a value and a circuit, and gives them unless the labels of
the circuit have run out. -/
structure EndsIn (bounds : Bounds) (bitwidth : Nat) (compile : Leaves → IntRange → Compile α)
    (compiled : Compiled α) : Prop where
  ran : ∃ range, IntRange.ofBitwidth? bitwidth = .ok range ∧
    Leaves.ofBounds? bounds = .ok compiled.leaves ∧
    (compile compiled.leaves range).run.run Scope.empty
        (Circuit.empty compiled.leaves.primary bitwidth) =
      ((.ok compiled.value, Scope.empty), compiled.circuit)
  given : run? bounds bitwidth compile = compiled.circuit.checkLabels?.map fun _ => compiled

theorem EndsIn.run?_eq (ends : compiled.EndsIn bounds bitwidth compile)
    (labelled : compiled.circuit.checkLabels? = .ok ()) :
    run? bounds bitwidth compile = .ok compiled := by
  rw [ends.given, labelled]
  rfl

theorem EndsIn.run?_eq_of_ok (ends : compiled.EndsIn bounds bitwidth compile)
    (ran : run? bounds bitwidth compile = .ok other) :
    run? bounds bitwidth compile = .ok compiled := by
  have given := ends.given.symm.trans ran
  rcases Except.map_eq_ok_iff.mp given with ⟨_, labelled, -⟩
  exact ends.run?_eq labelled

/-- A compilation that makes a result ends in it, on the leaves that another one succeeded on. -/
theorem endsIn_of_makes (compile : Leaves → IntRange → Compile α)
    {otherCompile : Leaves → IntRange → Compile β} {first : Compiled β} {range : IntRange}
    (ran : run? bounds bitwidth otherCompile = .ok first)
    (ranged : IntRange.ofBitwidth? bitwidth = .ok range) {post : α → Circuit → Prop}
    (makes : Compile.Makes Scope.empty (Circuit.empty first.leaves.primary bitwidth)
      (compile first.leaves range) post) :
    ∃ after : Compiled α, after.EndsIn bounds bitwidth compile ∧
      post after.value after.circuit := by
  rcases makes with ⟨value, circuit, made, -, -, holds⟩
  rcases Except.bind_eq_ok_iff.mp ran with ⟨_, -, ran⟩
  rcases Except.bind_eq_ok_iff.mp ran with ⟨leaves, allocated, ran⟩
  rcases Except.bind_eq_ok_iff.mp ran with ⟨start, opened, ran⟩
  rcases Except.bind_eq_ok_iff.mp ran with ⟨_, -, ran⟩
  rcases Except.bind_eq_ok_iff.mp ran with ⟨_, -, ran⟩
  cases ran
  obtain rfl := (Circuit.of_empty? opened).2
  exact ⟨⟨value, circuit, leaves⟩, ⟨⟨range, ranged, allocated, made⟩,
    run?_eq ranged allocated opened made⟩, holds⟩

end Compiled

/-! Gates of casts -/

def Bounds.integers (bounds : Bounds) : Instance := ⟨bounds.univ, [], bounds.intAtoms⟩

def IntCast.build (cast : IntCast) (leaves : Leaves) (range : IntRange) (word : Word) :
    Build Matrix :=
  match cast with
  | .value => valueAtoms leaves range word
  | .bitset => bitAtoms leaves range word

section

variable {leaves : Leaves} {range : IntRange} {number : IntExpr} {circuit : Circuit} {word : Word}

theorem Expr.compile_ofInt (cast : IntCast) :
    (Expr.ofInt cast number).compile leaves range =
      number.compile leaves range >>= fun word => liftM (cast.build leaves range word) := by
  rw [Expr.compile]
  cases cast with
  | value => rfl
  | bitset => rfl

theorem IntCast.build_yields (cast : IntCast) (known : circuit.KnowsInt range word) :
    Build.Yields circuit (cast.build leaves range word) fun matrix after =>
      (∀ index, after.Knows (matrix.cell index)) ∧ ∀ assignment,
        matrix.Denotes leaves.bounds.univ 1 assignment ⟨leaves.bounds.univ, 1,
          .ofList (leaves.bounds.integers.castAtoms range cast (word.eval assignment))⟩ := by
  cases cast with
  | value =>
      exact .weaken (@Build.valueAtoms_yields circuit leaves leaves.bounds.integers range word rfl
        rfl known.1 known.2) fun _ _ _ made => ⟨made.1, made.2.2⟩
  | bitset =>
      exact .weaken (@Build.bitAtoms_yields circuit leaves leaves.bounds.integers range word rfl
        rfl known.1 known.2) fun _ _ _ made => ⟨made.1, made.2.2⟩

variable {scope : Scope Matrix} (makes : Compile.Makes scope circuit (number.compile leaves range)
  fun value after => value = word ∧ after.KnowsInt range word)

include makes

theorem Expr.makes_ofInt (cast : IntCast) :
    Compile.Makes scope circuit ((Expr.ofInt cast number).compile leaves range)
      fun matrix after => (∀ index, after.Knows (matrix.cell index)) ∧ ∀ assignment,
        matrix.Denotes leaves.bounds.univ 1 assignment ⟨leaves.bounds.univ, 1,
          .ofList (leaves.bounds.integers.castAtoms range cast (word.eval assignment))⟩ := by
  rw [Expr.compile_ofInt]
  refine Compile.Makes.bind makes fun value after valid _ holds => ?_
  rcases holds with ⟨rfl, known⟩
  exact Compile.Makes.build valid (cast.build_yields known)

theorem IntExpr.makes_sumOf (cast : IntCast) (width : circuit.width = range.bitwidth) :
    Compile.Makes scope circuit ((IntExpr.sumOf (.ofInt cast number)).compile leaves range)
      fun sum _ => sum.width = range.bitwidth ∧ ∀ assignment,
        sum.eval assignment = range.sum (leaves.bounds.integers.memberInts range
          ⟨leaves.bounds.univ, 1,
            .ofList (leaves.bounds.integers.castAtoms range cast (word.eval assignment))⟩) := by
  have unary : ¬(Expr.ofInt cast number).arity ≠ 1 := not_not.mpr rfl
  rw [IntExpr.compile, if_neg unary]
  refine Compile.Makes.bind (Expr.makes_ofInt makes cast)
    fun matrix first valid grown atoms => ?_
  have members := @Build.memberInts_yields first leaves leaves.bounds.integers range rfl matrix
    atoms.1
  refine Compile.Makes.bind (Compile.Makes.build valid members)
    fun words second validAgain grownAgain made => ?_
  have sameWidth : second.width = range.bitwidth := (grown.trans grownAgain).width.trans width
  have positive : 0 < second.width := range.one_le_bitwidth.trans_eq sameWidth.symm
  have added := TryBuild.sumAll_yields positive (sameWidth ▸ made.1)
  refine (Compile.Makes.tryBuild validAgain (.sumAll (.inr positive)) added).weaken
    fun sum _ holds => ⟨holds.2.1.trans sameWidth, fun assignment => ?_⟩
  rw [holds.2.2, made.2 assignment _ (atoms.2 assignment), sameWidth]
  rfl

end

/-! Round trips -/

def Word.digits (word : Word) (assignment : Nat → Bool) : List Bool :=
  word.bits.map (Bit.eval assignment)

theorem Word.digits_eq {left right : Word} (width : left.width = right.width)
    {assignment : Nat → Bool} (same : left.eval assignment = right.eval assignment) :
    left.digits assignment = right.digits assignment := by
  apply Digits.signed_inj
  · rw [digits, digits, List.length_map, List.length_map]
    exact width
  · exact same

/-- Over bounds, the word of an integer expression has the digits of the sum over its atoms. This
needs atoms of their own for the number that it stands for, or for all its possible digits; a
number without an atom has none. -/
structure Compiled.Recovers (bounds : Bounds) (bitwidth : Nat) (number : IntExpr)
    (compiled : Compiled Word) : Prop where
  digits : bounds.intAtoms.OwnDigits bounds.univ bitwidth → ∃ sum : Compiled Word,
    sum.EndsIn bounds bitwidth (IntExpr.sumOf (.ofInt .bitset number)).compile ∧
      ∀ assignment, sum.value.digits assignment = compiled.value.digits assignment
  own : ∃ sum : Compiled Word,
    sum.EndsIn bounds bitwidth (IntExpr.sumOf (.ofInt .value number)).compile ∧
      ∀ assignment, bounds.intAtoms.Own bounds.univ (compiled.value.eval assignment) →
        sum.value.digits assignment = compiled.value.digits assignment
  unbound : ∃ atoms : Compiled Matrix,
    atoms.EndsIn bounds bitwidth (Expr.ofInt .value number).compile ∧
      ∀ assignment, bounds.intAtoms[compiled.value.eval assignment]? = none →
        ∀ index, (atoms.value.cell index).eval assignment = false

section

variable {bounds : Bounds} {bitwidth : Nat} {range : IntRange} {number : IntExpr}
  {compiled : Compiled Word} (made : bounds.Made)
  (labels : (compiled.leaves.primary : Int) ≤ Circuit.maxLabel)
  (ranged : IntRange.ofBitwidth? bitwidth = .ok range)
  (ran : number.compiled? bounds bitwidth = .ok compiled)

include made labels ranged ran

theorem IntExpr.makes_compiled : compiled.leaves.bounds = bounds ∧
    compiled.value.width = range.bitwidth ∧
    Compile.Makes Scope.empty (Circuit.empty compiled.leaves.primary bitwidth)
      (number.compile compiled.leaves range) fun word after =>
        word = compiled.value ∧ after.KnowsInt range compiled.value := by
  rcases Compiled.of_run? ran with ⟨sameRange, scope, sameRanged, allocated, run⟩
  cases ranged.symm.trans sameRanged
  have same := (Leaves.of_ofBounds? allocated).1
  have width := IntRange.bitwidth_of_ofBitwidth? ranged
  have small : compiled.leaves.primary < 2147483648 := by
    rw [Circuit.maxLabel] at labels
    omega
  have relations := Leaves.all_relationMatrix allocated
    (Leaves.known made allocated small bitwidth)
  have valid := Circuit.valid_empty compiled.leaves.primary bitwidth
  have yields := @IntExpr.compile_knowsInt _ _ range width.symm relations number Scope.empty _
    (.refl _) BitFamily.all_nil valid
  rw [run] at yields
  rcases yields with ⟨afterValid, grown, unchanged, holds⟩
  obtain rfl : scope = Scope.empty := unchanged
  have known := holds compiled.value rfl
  exact ⟨same, known.2, compiled.value, compiled.circuit, run, afterValid, grown, rfl, known⟩

theorem Compiled.exists_sum (cast : IntCast) : ∃ sum : Compiled Word,
    sum.EndsIn bounds bitwidth (IntExpr.sumOf (.ofInt cast number)).compile ∧
      ∀ assignment, (∀ addend ∈ cast.addends range (compiled.value.eval assignment),
        bounds.intAtoms.Own bounds.univ addend) →
          sum.value.digits assignment = compiled.value.digits assignment := by
  rcases number.makes_compiled made labels ranged ran with ⟨rfl, width, makes⟩
  have start : (Circuit.empty compiled.leaves.primary bitwidth).width = range.bitwidth :=
    (IntRange.bitwidth_of_ofBitwidth? ranged).symm
  rcases Compiled.endsIn_of_makes (IntExpr.sumOf (.ofInt cast number)).compile ran ranged
    (IntExpr.makes_sumOf makes cast start) with ⟨sum, ends, sumWidth, value⟩
  refine ⟨sum, ends, fun assignment own => ?_⟩
  apply Word.digits_eq (sumWidth.trans width.symm)
  rw [value]
  exact Instance.sum_castAtoms own (range.contains_eval width assignment)

theorem Compiled.exists_atoms : ∃ atoms : Compiled Matrix,
    atoms.EndsIn bounds bitwidth (Expr.ofInt .value number).compile ∧
      ∀ assignment, bounds.intAtoms[compiled.value.eval assignment]? = none →
        ∀ index, (atoms.value.cell index).eval assignment = false := by
  rcases number.makes_compiled made labels ranged ran with ⟨rfl, -, makes⟩
  rcases Compiled.endsIn_of_makes (Expr.ofInt .value number).compile ran ranged
    (Expr.makes_ofInt makes .value) with ⟨atoms, ends, -, denotes⟩
  refine ⟨atoms, ends, fun assignment unbound index => ?_⟩
  have free : compiled.leaves.bounds.integers.intAtom? (compiled.value.eval assignment) = none :=
    unbound
  have members := (denotes assignment).members index
  rw [Instance.castAtoms_of_unbound free] at members
  exact members.symm.trans (TupleSet.containsIndex_empty _ _ _)

omit ranged in
theorem Compiled.recovers : compiled.Recovers bounds bitwidth number := by
  rcases Compiled.of_run? ran with ⟨range, -, ranged, -, -⟩
  have width := IntRange.bitwidth_of_ofBitwidth? ranged
  constructor
  · intro own
    rcases compiled.exists_sum made labels ranged ran .bitset with ⟨sum, ends, same⟩
    exact ⟨sum, ends, fun assignment => same assignment ((width ▸ own).addends _)⟩
  · rcases compiled.exists_sum made labels ranged ran .value with ⟨sum, ends, same⟩
    exact ⟨sum, ends, fun assignment own =>
      same assignment (List.forall_mem_singleton.mpr own)⟩
  · exact compiled.exists_atoms made labels ranged ran

end

/-- Casting to atoms and back is the identity, for the values of an integer expression and for
the bits that it compiles to. -/
theorem casts_round_trip (number : IntExpr) (bitwidth : Nat) :
    (∀ (model : Instance) (value : Int), model.Made → model.univ.size < Index.limit →
      model.int? bitwidth number = .ok value → model.Recovers bitwidth number value) ∧
    ∀ (bounds : Bounds) (compiled : Compiled Word), bounds.Made →
      number.compiled? bounds bitwidth = .ok compiled →
      (compiled.leaves.primary : Int) ≤ Circuit.maxLabel →
        compiled.Recovers bounds bitwidth number := by
  constructor
  · intro model value made countable evaluated
    exact Instance.recovers made countable evaluated
  · intro bounds compiled made ran labels
    exact Compiled.recovers made labels ran

/-! Weights that are put on a scale: atoms for 1, 2, 4 and -8, and up to two weights. -/

def weights : Universe := ⟨0, ["one", "two", "four", "minus eight"]⟩

def onScale : Relation := ⟨0, "OnScale", 1⟩

def weightAtoms : IntAtoms :=
  ((((∅ : IntAtoms).insert 1 0).insert 2 1).insert 4 2).insert (-8) 3

def smallWeights : TupleSet := ⟨weights, 1, .ofList [0, 1]⟩

def scaleBounds : Bounds := ⟨weights, [⟨onScale, .empty weights 1, smallWeights⟩], weightAtoms⟩

def fullScale : Instance := ⟨weights, [(onScale, smallWeights)], weightAtoms⟩

def weighed : IntExpr := .sumOf (.relation onScale)

theorem weights_named :
    Universe.ofAtoms? 0 ["one", "two", "four", "minus eight"] = .ok weights := rfl

theorem scaleBounds_made : scaleBounds.Made := by
  have included : (TupleSet.empty weights 1).isSubset smallWeights = true := by decide +kernel
  have bound : (⟨weights, [], weightAtoms⟩ : Bounds).bind? onScale (.empty weights 1)
      smallWeights = .ok scaleBounds :=
    Bounds.bind?_of_isSubset rfl rfl rfl rfl included
  exact .bind (((((Bounds.Made.empty weights_named).bindAtom 1 0).bindAtom 2 1).bindAtom
    4 2).bindAtom (-8) 3) bound

theorem fullScale_made : fullScale.Made := by
  have added : (⟨weights, [], weightAtoms⟩ : Instance).add? onScale smallWeights =
      .ok fullScale := rfl
  exact .add (((((Instance.Made.empty weights_named).addAtom 1 0).addAtom 2 1).addAtom
    4 2).addAtom (-8) 3) added

/-- The weights of 1 and 2 weigh 3. This number is the sum over the atoms of its digits, and no
atom stands for it; whatever is on the scale, the words of both are the same. -/
theorem casts_round_trip_weights :
    fullScale.int? 4 (.sumOf (.ofInt .bitset weighed)) = .ok 3 ∧
    (∃ set, fullScale.expr? 4 (.ofInt .value weighed) = .ok set ∧ set.isEmpty = true) ∧
    ∃ compiled sum : Compiled Word, weighed.compiled? scaleBounds 4 = .ok compiled ∧
      (IntExpr.sumOf (.ofInt .bitset weighed)).compiled? scaleBounds 4 = .ok sum ∧
      (∀ assignment, sum.value.digits assignment = compiled.value.digits assignment) ∧
      ∃ atoms, Compiled.run? scaleBounds 4 (Expr.ofInt .value weighed).compile = .ok atoms ∧
        ∀ assignment, compiled.value.eval assignment = 3 →
          ∀ index, (atoms.value.cell index).eval assignment = false := by
  have own : weightAtoms.OwnDigits weights 4 := by decide +kernel
  have value : (fullScale.int? 4 weighed).toOption = some 3 := by decide +kernel
  have evaluated := Except.toOption_eq_some_iff.mp value
  have countable : weights.size < Index.limit := by decide
  have recovered := (casts_round_trip weighed 4).1 fullScale 3 fullScale_made countable evaluated
  refine ⟨recovered.digits own, recovered.unbound (by decide +kernel), ?_⟩
  have compiles : (weighed.compiled? scaleBounds 4).toOption.map (fun compiled =>
      compiled.leaves.primary) = some 2 := by decide +kernel
  have sums : ((IntExpr.sumOf (.ofInt .bitset weighed)).compiled? scaleBounds 4).isOk = true := by
    decide +kernel
  have casts : (Compiled.run? scaleBounds 4 (Expr.ofInt .value weighed).compile).isOk = true := by
    decide +kernel
  rcases Except.exists_ok_of_map compiles with ⟨compiled, ran, two⟩
  rcases Except.isOk_iff_exists.mp sums with ⟨_, sumRan⟩
  rcases Except.isOk_iff_exists.mp casts with ⟨_, castRan⟩
  have words := (casts_round_trip weighed 4).2 scaleBounds compiled scaleBounds_made ran
    (by rw [two]; decide)
  rcases words.digits own with ⟨sum, sumEnds, same⟩
  rcases words.unbound with ⟨atoms, castEnds, empty⟩
  have free : weightAtoms[(3 : Int)]? = none := by decide +kernel
  exact ⟨compiled, sum, ran, sumEnds.run?_eq_of_ok sumRan, same, atoms,
    castEnds.run?_eq_of_ok castRan, fun assignment three => empty assignment (three ▸ free)⟩

end ModelFinder
