import Mathlib
import ModelFinder.Evaluate
import ModelFinder.Circuit.Word.Shift
import ModelFinder.Proofs.Circuit.Word.Basic
/-!
Shifts. Moving digits step by step is moving them once by the sum of the steps, so the
stages of a barrel shifter move by the number that its selectors stand for.
-/

namespace ModelFinder

namespace Digits

def move (kind : ShiftKind) (fill : Bool) (distance : Nat) (digits : List Bool) : List Bool :=
  match kind with
  | .left => (List.replicate distance fill ++ digits).take digits.length
  | .logicalRight | .arithmeticRight => (digits ++ List.replicate distance fill).drop distance

section

variable {kind : ShiftKind} {fill : Bool}

@[simp] theorem length_move (distance : Nat) (digits : List Bool) :
    (move kind fill distance digits).length = digits.length := by
  cases kind <;> simp [move]

@[simp] theorem move_zero (digits : List Bool) : move kind fill 0 digits = digits := by
  cases kind <;> simp [move]

theorem move_move (first second : Nat) (digits : List Bool) :
    move kind fill first (move kind fill second digits) =
      move kind fill (first + second) digits := by
  apply List.ext_getElem?
  intro position
  cases kind with
  | left =>
      simp only [move, List.getElem?_take, List.getElem?_append, List.length_take,
        List.getElem?_replicate, List.length_append, List.length_replicate]
      grind
  | logicalRight | arithmeticRight =>
      simp only [move, List.getElem?_drop, List.getElem?_append, List.length_drop,
        List.getElem?_replicate, List.length_append, List.length_replicate]
      grind

theorem move_of_length_le {distance : Nat} {digits : List Bool}
    (beyond : digits.length ≤ distance) :
    move kind fill distance digits = List.replicate digits.length fill := by
  cases kind with
  | left => simp [move, List.take_append, beyond]
  | logicalRight | arithmeticRight =>
      rw [move, List.drop_append, List.drop_of_length_le beyond, List.drop_replicate,
        List.nil_append]
      congr 1
      omega

end

/-! What moved digits stand for -/

theorem signed_move_left {digits : List Bool} (nonempty : digits ≠ []) (distance : Nat) :
    signed (move .left false distance digits) =
      Int.bmod (unsigned digits * weight distance) (weight digits.length) := by
  have moved : move .left false distance digits ≠ [] := by
    apply List.length_pos_iff.mp
    rw [length_move]
    exact List.length_pos_iff.mpr nonempty
  rw [signed_eq_bmod moved, length_move, move, unsigned_take, unsigned_append,
    unsigned_replicate_false, List.length_replicate, zero_add, Nat.mul_comm, Int.natCast_emod,
    Int.emod_bmod, Nat.cast_mul]

theorem signed_move_logicalRight {digits : List Bool} (nonempty : digits ≠ []) (distance : Nat) :
    signed (move .logicalRight false distance digits) =
      Int.bmod ((unsigned digits : Int) / weight distance) (weight digits.length) := by
  have moved : move .logicalRight false distance digits ≠ [] := by
    apply List.length_pos_iff.mp
    rw [length_move]
    exact List.length_pos_iff.mpr nonempty
  rw [signed_eq_bmod moved, length_move, move, unsigned_drop, unsigned_append,
    unsigned_replicate_false, mul_zero, add_zero, Int.natCast_ediv]

theorem signed_move_arithmeticRight {digits : List Bool} (nonempty : digits ≠ [])
    (distance : Nat) :
    signed (move .arithmeticRight (digits.getLast nonempty) distance digits) =
      signed digits / weight distance := by
  have positive := List.length_pos_iff.mpr nonempty
  rw [move, signed_drop (by rw [List.length_append, List.length_replicate]; omega),
    signed_extend]

end Digits

namespace Word

theorem map_move (kind : ShiftKind) (fill : Bit) (distance : Nat) (bits : List Bit)
    (digit : Bit → Bool) :
    (move kind fill distance bits).map digit =
      Digits.move kind (digit fill) distance (bits.map digit) := by
  cases kind with
  | left =>
      simp only [move, Digits.move, List.map_append, List.map_replicate, List.map_take,
        List.take_append, List.take_replicate, List.length_map, List.length_replicate]
      rw [Nat.min_comm]
  | logicalRight | arithmeticRight =>
      simp only [move, Digits.move, List.map_append, List.map_replicate, List.map_drop,
        List.drop_append, List.drop_replicate, List.length_map]
      congr 2
      simp only [Nat.min_def]
      split <;> omega

theorem length_move (kind : ShiftKind) (fill : Bit) (distance : Nat) (bits : List Bit) :
    (move kind fill distance bits).length = bits.length := by
  have length := congrArg List.length (map_move kind fill distance bits Bit.isTrue)
  simpa using length

theorem unsigned_dropLast (word : Word) (assignment : Nat → Bool)
    (nonneg : 0 ≤ word.eval assignment) :
    (Digits.unsigned (word.bits.dropLast.map (Bit.eval assignment)) : Int) =
      word.eval assignment := by
  have sign := word.eval_sign assignment
  rw [decide_eq_false (not_lt.mpr nonneg)] at sign
  rcases word with ⟨bits, nonempty⟩
  rcases List.eq_nil_or_concat bits with rfl | ⟨below, last, rfl⟩
  · exact absurd rfl nonempty
  simp only [Word.sign, List.concat_eq_append, List.getLast_append_singleton] at sign
  simp only [eval_mk, List.concat_eq_append, List.dropLast_concat, List.map_append, List.map_cons,
    List.map_nil, Digits.signed_append_sign, sign]
  simp

end Word

namespace Circuit

variable {circuit : Circuit} {fill : Bit} {bits : List Bit}

theorem KnowsAll.move (known : circuit.KnowsAll bits) (fillKnown : circuit.Knows fill)
    (kind : ShiftKind) (distance : Nat) :
    circuit.KnowsAll (Word.move kind fill distance bits) := by
  have entering := knowsAll_replicate fillKnown (Nat.min distance bits.length)
  cases kind with
  | left => exact knowsAll_append.mpr ⟨entering, known.take _⟩
  | logicalRight | arithmeticRight => exact knowsAll_append.mpr ⟨known.drop _, entering⟩

end Circuit

namespace Build

variable {circuit : Circuit}

/-- A stage moves by its weight. Beyond stage 62 nothing but the fill is left of a word that is
not longer than stage 62 moves. -/
theorem map_move_stage {kind : ShiftKind} {fill : Bit} {current : List Bit} {stage : Nat}
    (near : current.length ≤ Digits.weight 62 ∨ stage ≤ 62) (assignment : Nat → Bool) :
    (Word.move kind fill (Digits.weight (Nat.min stage 62)) current).map (Bit.eval assignment) =
      Digits.move kind (fill.eval assignment) (Digits.weight stage)
        (current.map (Bit.eval assignment)) := by
  have minimum : Nat.min stage 62 = min stage 62 := rfl
  rw [Word.map_move, minimum]
  by_cases first : stage ≤ 62
  · rw [Nat.min_eq_left first]
  · have short := near.resolve_right first
    have larger := Digits.weight_mono (not_le.mp first).le
    rw [Nat.min_eq_right (not_le.mp first).le,
      Digits.move_of_length_le (by rw [List.length_map]; exact short),
      Digits.move_of_length_le (by rw [List.length_map]; omega)]

theorem stage_yields {kind : ShiftKind} {fill selector : Bit} (fillKnown : circuit.Knows fill)
    (selectorKnown : circuit.Knows selector) {current : List Bit}
    (known : circuit.KnowsAll current) {stage : Nat}
    (near : current.length ≤ Digits.weight 62 ∨ stage ≤ 62) :
    Yields circuit
      (((Word.move kind fill (Digits.weight (Nat.min stage 62)) current).zip current).mapM
        fun pair => Build.ite selector pair.1 pair.2)
      fun next after => after.KnowsAll next ∧ next.length = current.length ∧
        ∀ assignment, next.map (Bit.eval assignment) =
          Digits.move kind (fill.eval assignment)
            (Digits.weight stage * (selector.eval assignment).toNat)
            (current.map (Bit.eval assignment)) := by
  have movedKnown := known.move fillKnown kind (Digits.weight (Nat.min stage 62))
  have lengths := Word.length_move kind fill (Digits.weight (Nat.min stage 62)) current
  refine Yields.weaken (mapM_computes fun pair member after grown =>
    ite_computes (selectorKnown.mono grown)
      ((movedKnown _ (List.of_mem_zip member).1).mono grown)
      ((known _ (List.of_mem_zip member).2).mono grown)) fun next after _ made => ?_
  rcases made with ⟨nextKnown, nextValue⟩
  have digits : ∀ assignment, next.map (Bit.eval assignment) =
      Digits.move kind (fill.eval assignment)
        (Digits.weight stage * (selector.eval assignment).toNat)
        (current.map (Bit.eval assignment)) := by
    intro assignment
    have chosen := map_zip_choose lengths (Bit.eval assignment) (!selector.eval assignment)
    simp only [Bool.cond_not] at chosen
    refine (nextValue assignment).trans (chosen.trans ?_)
    rw [map_move_stage near]
    cases selector.eval assignment with
    | false => simp
    | true => simp
  refine ⟨nextKnown, ?_, digits⟩
  have length := congrArg List.length (digits fun _ => false)
  simpa using length

/-- The selectors from a stage on move by their number, times the weight of the stage. -/
theorem barrel_computes {kind : ShiftKind} {fill : Bit} (fillKnown : circuit.Knows fill)
    {selectors : List Bit} (selectorsKnown : circuit.KnowsAll selectors) {current : List Bit}
    (known : circuit.KnowsAll current) {stage : Nat}
    (near : current.length ≤ Digits.weight 62 ∨ stage + selectors.length ≤ 63) :
    ComputesBits circuit (Word.barrel kind fill current stage selectors) fun assignment =>
      Digits.move kind (fill.eval assignment)
        (Digits.weight stage * Digits.unsigned (selectors.map (Bit.eval assignment)))
        (current.map (Bit.eval assignment)) := by
  induction selectors generalizing circuit current stage with
  | nil => exact Yields.pure ⟨known, fun assignment => by simp⟩
  | cons selector rest hypothesis =>
      rw [Circuit.knowsAll_cons] at selectorsKnown
      rcases selectorsKnown with ⟨selectorKnown, restKnown⟩
      rw [List.length_cons] at near
      have nearRest : current.length ≤ Digits.weight 62 ∨ stage + 1 + rest.length ≤ 63 :=
        near.imp_right (by omega)
      -- The distance of the first selector and that of the others add up.
      have distance : ∀ assignment, Digits.weight (stage + 1) *
            Digits.unsigned (rest.map (Bit.eval assignment)) +
          Digits.weight stage * (selector.eval assignment).toNat =
        Digits.weight stage * Digits.unsigned ((selector :: rest).map (Bit.eval assignment)) := by
        intro assignment
        rw [List.map_cons, Digits.unsigned_cons, Digits.weight_succ]
        ring
      refine Yields.of_valid fun valid => ?_
      rw [Word.barrel]
      by_cases never : selector.isFalse
      · rw [if_pos never]
        obtain rfl := (selectorKnown.isFalse_iff valid).mp never
        refine Yields.weaken (hypothesis fillKnown restKnown known nearRest)
          fun moved after _ made => ⟨made.1, fun assignment => ?_⟩
        rw [made.2]
        dsimp only
        rw [← distance]
        simp [Bit.eval]
      · rw [if_neg never]
        refine Yields.bind (stage_yields fillKnown selectorKnown known (near.imp_right (by omega)))
          fun next after grown made => ?_
        rcases made with ⟨nextKnown, length, nextDigits⟩
        rw [← length] at nearRest
        refine Yields.weaken (hypothesis (fillKnown.mono grown) (restKnown.mono grown) nextKnown
          nearRest) fun moved last _ made => ⟨made.1, fun assignment => ?_⟩
        rw [made.2]
        dsimp only
        rw [nextDigits, Digits.move_move, distance]

/-- A negative amount leaves only the fill. The amount has at most 63 digits below its sign, or
the word is not longer than the stage of the last of these moves. -/
theorem shift_yields {kind : ShiftKind} {word amount : Word} (wordKnown : circuit.KnowsWord word)
    (amountKnown : circuit.KnowsWord amount)
    (near : word.width ≤ Digits.weight 62 ∨ amount.width ≤ 64) :
    Yields circuit (Word.shift kind word amount) fun result after =>
      after.KnowsWord result ∧ result.width = word.width ∧ ∀ assignment,
        let fill := decide (kind = .arithmeticRight ∧ word.eval assignment < 0)
        result.bits.map (Bit.eval assignment) =
          if amount.eval assignment < 0 then List.replicate word.width fill
          else Digits.move kind fill (amount.eval assignment).toNat
            (word.bits.map (Bit.eval assignment)) := by
  have fillKnown : circuit.Knows (if kind = .arithmeticRight then word.sign else .const false) := by
    split
    · exact wordKnown.sign
    · exact .const false
  have fillValue : ∀ assignment,
      (if kind = .arithmeticRight then word.sign else .const false).eval assignment =
        decide (kind = .arithmeticRight ∧ word.eval assignment < 0) := by
    intro assignment
    split
    · rename_i arithmetic
      simp [arithmetic, Word.eval_sign]
    · rename_i other
      simp [other, Bit.eval]
  have selectorsKnown : circuit.KnowsAll amount.bits.dropLast :=
    fun bit member => amountKnown bit (List.mem_of_mem_dropLast member)
  have nearStages : word.bits.length ≤ Digits.weight 62 ∨
      0 + amount.bits.dropLast.length ≤ 63 := by
    refine near.imp_right fun short => ?_
    rw [Word.width] at short
    rw [List.length_dropLast]
    omega
  rw [Word.shift]
  refine Yields.bind (barrel_computes fillKnown selectorsKnown wordKnown nearStages)
    fun moved first grown made => ?_
  rcases made with ⟨movedKnown, movedValue⟩
  have movedLength : moved.length = word.width := by
    have digits := congrArg List.length (movedValue fun _ => false)
    simpa [Word.width] using digits
  have bits := mapM_computes fun bit member after grownAfter =>
    ite_computes ((amountKnown.sign.mono grown).mono grownAfter)
      ((fillKnown.mono grown).mono grownAfter) ((movedKnown bit member).mono grownAfter)
  refine Yields.weaken (ofBits_yields word.width_pos (by simp [movedLength]) bits)
    fun result after _ made => ⟨made.1, made.2.1, fun assignment => ?_⟩
  dsimp only
  rw [made.2.2]
  simp only [fillValue, Word.eval_sign]
  by_cases negative : amount.eval assignment < 0
  · rw [if_pos negative, decide_eq_true negative]
    simp [movedLength]
  · have distance := amount.unsigned_dropLast assignment (not_lt.mp negative)
    rw [if_neg negative, decide_eq_false negative, ← distance, Int.toNat_natCast, ← fillValue]
    have digits := movedValue assignment
    dsimp only at digits
    rw [Digits.weight_zero, one_mul] at digits
    exact digits

end Build

/-! Shifts of integers -/

namespace ShiftKind

def op : ShiftKind → IntOp
  | .left => .shl
  | .logicalRight => .shr
  | .arithmeticRight => .sha

/-- What a shift makes of an integer of some bits: a negative amount and one that is not less
than the width leave only the fill. -/
def apply (kind : ShiftKind) (width : Nat) (value amount : Int) : Int :=
  if amount < 0 ∨ width ≤ amount then if kind = .arithmeticRight ∧ value < 0 then -1 else 0
  else
    match kind with
    | .left => Int.bmod (value * Digits.weight amount.toNat) (Digits.weight width)
    | .logicalRight =>
      Int.bmod (value % Digits.weight width / Digits.weight amount.toNat) (Digits.weight width)
    | .arithmeticRight => value / Digits.weight amount.toNat

/-- Four bits of which the highest is lost, and the two kinds of fill. -/
example : apply .left 4 5 1 = -6 ∧ apply .logicalRight 4 (-6) 1 = 5 ∧
    apply .arithmeticRight 4 (-6) 1 = -3 ∧ apply .arithmeticRight 4 (-6) 9 = -1 := by decide

end ShiftKind

theorem Digits.signed_shift (kind : ShiftKind) {digits : List Bool} (nonempty : digits ≠ [])
    (amount : Int) :
    let fill := decide (kind = .arithmeticRight ∧ signed digits < 0)
    signed (if amount < 0 then List.replicate digits.length fill
      else move kind fill amount.toNat digits) =
        kind.apply digits.length (signed digits) amount := by
  intro fill
  have positive := List.length_pos_iff.mpr nonempty
  unfold ShiftKind.apply
  by_cases beyond : amount < 0 ∨ digits.length ≤ amount
  · rw [if_pos beyond]
    have gone : (if amount < 0 then List.replicate digits.length fill
        else move kind fill amount.toNat digits) = List.replicate digits.length fill := by
      split
      · rfl
      · exact move_of_length_le (by omega)
    rw [gone, signed_replicate positive]
    simp [fill]
  · rw [if_neg beyond, if_neg (fun negative => beyond (.inl negative))]
    have below := unsigned_lt digits
    cases kind with
    | left =>
        rw [signed_eq_bmod nonempty, Int.bmod_mul_bmod]
        exact signed_move_left nonempty amount.toNat
    | logicalRight =>
        rw [signed_eq_bmod nonempty, Int.bmod_emod, Int.emod_eq_of_lt (by omega) (by omega)]
        exact signed_move_logicalRight nonempty amount.toNat
    | arithmeticRight =>
        have sign : fill = digits.getLast nonempty := by
          rw [Bool.eq_iff_iff, decide_eq_true_iff, and_iff_right rfl]
          exact signed_neg_iff nonempty
        rw [sign]
        exact signed_move_arithmeticRight nonempty amount.toNat

theorem IntRange.shift_eq_apply (range : IntRange) (kind : ShiftKind) {value : Int}
    (lower : -(Digits.weight (range.bitwidth - 1) : Int) ≤ value)
    (upper : value < Digits.weight (range.bitwidth - 1)) (amount : Int) :
    range.shift kind.op value amount = kind.apply range.bitwidth value amount := by
  have arithmetic : kind.op = .sha ↔ kind = .arithmeticRight := by cases kind <;> decide
  unfold IntRange.shift ShiftKind.apply
  simp only [arithmetic]
  by_cases beyond : amount < 0 ∨ range.bitwidth ≤ amount
  · rw [if_pos beyond, if_pos beyond]
  · rw [if_neg beyond, if_neg beyond]
    cases kind with
    | left => exact Int.emod_mul_bmod _ _
    | logicalRight => rfl
    | arithmeticRight =>
        have positive : (0 : Int) < Digits.weight amount.toNat := by
          exact_mod_cast Digits.weight_pos amount.toNat
        have wider : (Digits.weight (range.bitwidth - 1) : Int) ≤
            Digits.weight (range.bitwidth - 1) * Digits.weight amount.toNat :=
          le_mul_of_one_le_right (Int.natCast_nonneg _) positive
        refine Digits.bmod_of_bounds range.one_le_bitwidth ?_ ?_
        · refine Int.le_ediv_of_mul_le positive ?_
          rw [neg_mul]
          omega
        · exact Int.ediv_lt_of_lt_mul positive (upper.trans_le wider)

namespace Build

variable {circuit : Circuit}

theorem shift_computes_apply (kind : ShiftKind) {word amount : Word}
    (wordKnown : circuit.KnowsWord word) (amountKnown : circuit.KnowsWord amount)
    (near : word.width ≤ Digits.weight 62 ∨ amount.width ≤ 64) :
    ComputesWord circuit (Word.shift kind word amount) word.width fun assignment =>
      kind.apply word.width (word.eval assignment) (amount.eval assignment) := by
  refine Yields.weaken (shift_yields wordKnown amountKnown near) fun result after _ made =>
    ⟨made.1, made.2.1, fun assignment => ?_⟩
  have shifted := Digits.signed_shift kind (word.map_eval_ne_nil assignment)
    (amount.eval assignment)
  rw [List.length_map] at shifted
  exact (congrArg Digits.signed (made.2.2 assignment)).trans shifted

theorem shift_computes (range : IntRange) (kind : ShiftKind)
    {word amount : Word} (wordKnown : circuit.KnowsWord word)
    (amountKnown : circuit.KnowsWord amount) (width : word.width = range.bitwidth) :
    ComputesWord circuit (Word.shift kind word amount) range.bitwidth fun assignment =>
      range.shift kind.op (word.eval assignment) (amount.eval assignment) := by
  have short : word.width ≤ Digits.weight 62 := by
    rw [width]
    exact range.bitwidth_le.trans (by decide)
  have computed := shift_computes_apply kind wordKnown amountKnown (.inl short)
  rw [width] at computed
  refine computesWord_congr computed fun assignment => ?_
  have bounds := word.eval_bounds assignment
  rw [width] at bounds
  exact (range.shift_eq_apply kind bounds.1 bounds.2 (amount.eval assignment)).symm

end Build

end ModelFinder
