import Mathlib
import ModelFinder.Circuit.Word.Arithmetic
import ModelFinder.Circuit.Word.Comparison
import ModelFinder.Circuit.Word.Shift
import ModelFinder.Proofs.Circuit.Closure.Basic
/-!
Operations on words stay within a family of bits: every bit of a result is made of the bits of
the operands and of constants, gate by gate.
-/

namespace ModelFinder

instance : HasBits Word := ⟨Word.bits⟩

namespace BitFamily

variable {family : BitFamily} {circuit : Circuit} {word left right : Word}

theorem all_word : family.All circuit word ↔ family.All circuit word.bits := by
  simp [All, HasBits.bits]

theorem All.ofBits {bits : List Bit} (held : family.All circuit bits) :
    family.All circuit (Word.ofBits bits) := by
  rw [all_word, Word.ofBits]
  split
  · exact held
  · exact all_cons.mpr ⟨all_const false, all_nil⟩

theorem All.sign (held : family.All circuit word) : family.All circuit word.sign :=
  (all_word.mp held).of_mem (List.getLast_mem word.bits_ne_nil)

theorem All.bit (held : family.All circuit word) (position : Nat) :
    family.All circuit (word.bit position) := by
  rw [Word.bit]
  cases found : word.bits[position]? with
  | some bit => exact (all_word.mp held).of_mem (List.mem_of_getElem? found)
  | none => exact held.sign

theorem All.extendedBits (held : family.All circuit word) (width : Nat) :
    family.All circuit (word.extendedBits width) :=
  all_append.mpr ⟨(all_word.mp held).of_sublist (List.take_sublist _ _),
    all_replicate held.sign _⟩

theorem All.pairs (leftHeld : family.All circuit left) (rightHeld : family.All circuit right) :
    family.All circuit (left.pairs right) :=
  (leftHeld.extendedBits _).zip (rightHeld.extendedBits _)

theorem all_constantBits (value : Int) (width : Nat) :
    family.All circuit (Word.constantBits value width) := by
  refine all_list.mpr fun bit member => ?_
  rcases List.mem_map.mp member with ⟨position, -, rfl⟩
  exact all_const _

theorem all_constant (value : Int) (width : Nat) :
    family.All circuit (Word.constant value width) :=
  (all_constantBits value width).ofBits

theorem all_zero (width : Nat) : family.All circuit (Word.zero width) :=
  (all_replicate (all_const false) width).ofBits

theorem all_oneLike : family.All circuit word.oneLike :=
  all_word.mpr (all_cons.mpr ⟨all_const true, all_replicate (all_const false) _⟩)

theorem all_ofBits? {bits : List Bit} (held : family.All circuit bits) :
    family.All circuit (Word.ofBits? bits) := by
  rw [Word.ofBits?]
  split
  · exact all_ok.mpr (all_word.mpr held)
  · exact all_error

theorem all_ofBit? {bit : Bit} (held : family.All circuit bit) (width : Nat) :
    family.All circuit (Word.ofBit? bit width) := by
  cases width with
  | zero => exact all_error
  | succ rest =>
      exact all_ok.mpr (all_word.mpr (all_cons.mpr ⟨held, all_replicate (all_const false) rest⟩))

namespace Closed

variable (closed : family.Closed)

include closed

/-! Arithmetic -/

theorem ripple {carry : Bit} {pairs : List (Bit × Bit)} (carryHeld : family.All circuit carry)
    (held : family.All circuit pairs) : family.Keeps circuit (Word.ripple carry pairs) := by
  induction pairs generalizing circuit carry with
  | nil => exact .pure (all_pair.mpr ⟨all_nil, carryHeld⟩)
  | cons pair rest hypothesis =>
      rw [all_cons, all_pair] at held
      rcases held with ⟨⟨leftHeld, rightHeld⟩, restHeld⟩
      refine .bind (closed.sum leftHeld rightHeld carryHeld) fun sum first grown sumHeld => ?_
      refine .bind (closed.carry (leftHeld.mono grown) (rightHeld.mono grown)
        (carryHeld.mono grown)) fun next second grown' nextHeld => ?_
      refine .bind (hypothesis nextHeld ((restHeld.mono grown).mono grown'))
        fun result third grown'' resultHeld => ?_
      rw [all_pair] at resultHeld
      exact .pure (all_pair.mpr ⟨all_cons.mpr ⟨(sumHeld.mono grown').mono grown'',
        resultHeld.1⟩, resultHeld.2⟩)

theorem addWithCarry {carry : Bit} (leftHeld : family.All circuit left)
    (rightHeld : family.All circuit right) (carryHeld : family.All circuit carry) :
    family.Keeps circuit (left.addWithCarry right carry) := by
  refine .bind (closed.ripple carryHeld (leftHeld.pairs rightHeld))
    fun result after _ held => .pure ?_
  rw [all_pair] at held
  exact all_pair.mpr ⟨held.1.ofBits, held.2⟩

theorem plus (leftHeld : family.All circuit left) (rightHeld : family.All circuit right) :
    family.Keeps circuit (left.plus right) :=
  .map (closed.addWithCarry leftHeld rightHeld (all_const false))
    fun _ _ _ held => (all_pair.mp held).1

theorem wordNot (held : family.All circuit word) : family.Keeps circuit word.not :=
  .map (.mapM fun _ member _ grown => closed.not (((all_word.mp held).of_mem member).mono grown))
    fun _ _ _ held => held.ofBits

theorem minus (leftHeld : family.All circuit left) (rightHeld : family.All circuit right) :
    family.Keeps circuit (left.minus right) :=
  .bind (closed.wordNot rightHeld) fun _ _ grown held =>
    .map (closed.addWithCarry (leftHeld.mono grown) held (all_const true))
      fun _ _ _ held => (all_pair.mp held).1

omit closed in
theorem bitwise {gate : Bit → Bit → Build Bit} (leftHeld : family.All circuit left)
    (rightHeld : family.All circuit right)
    (gates : ∀ {after first second}, family.Grows circuit after → family.All after first →
      family.All after second → family.Keeps after (gate first second)) :
    family.Keeps circuit (Word.bitwise gate left right) := by
  refine .map (.mapM fun pair member after grown => ?_) fun _ _ _ held => held.ofBits
  have held := all_pair.mp (((leftHeld.pairs rightHeld).of_mem member).mono grown)
  exact gates grown held.1 held.2

theorem choice {condition : Bit} (conditionHeld : family.All circuit condition)
    (leftHeld : family.All circuit left) (rightHeld : family.All circuit right) :
    family.Keeps circuit (Word.choice condition left right) := by
  rw [Word.choice]
  split
  · rename_i value _
    cases value with
    | true => exact .pure leftHeld
    | false => exact .pure rightHeld
  · exact bitwise leftHeld rightHeld fun grown firstHeld secondHeld =>
      closed.ite (conditionHeld.mono grown) firstHeld secondHeld

theorem negate (held : family.All circuit word) : family.Keeps circuit word.negate :=
  .bind (closed.wordNot held) fun _ _ _ complementHeld => closed.plus complementHeld all_oneLike

theorem negateIf {condition : Bit} (conditionHeld : family.All circuit condition)
    (held : family.All circuit word) : family.Keeps circuit (word.negateIf condition) :=
  .bind (closed.negate held) fun _ _ grown negatedHeld =>
    closed.choice (conditionHeld.mono grown) negatedHeld (held.mono grown)

theorem abs (held : family.All circuit word) : family.Keeps circuit word.abs :=
  closed.negateIf held.sign held

theorem sgn (held : family.All circuit word) : family.Keeps circuit word.sgn := by
  refine .bind (.mapM fun _ member _ grown =>
    closed.not (((all_word.mp held).of_mem member).mono grown)) fun bits first grown bitsHeld => ?_
  refine .bind (closed.all bitsHeld) fun isZero second grown' zeroHeld => ?_
  exact .map (closed.not zeroHeld) fun lowest after grown'' lowestHeld =>
    all_word.mpr (all_cons.mpr ⟨lowestHeld,
      all_replicate (((held.sign.mono grown).mono grown').mono grown'') _⟩)

theorem addShifted {multiplicand product : Word} {shift : Nat} {selectors : List Bit}
    (multiplicandHeld : family.All circuit multiplicand)
    (productHeld : family.All circuit product) (held : family.All circuit selectors) :
    family.Keeps circuit (Word.addShifted multiplicand product shift selectors) := by
  induction selectors generalizing circuit product shift with
  | nil => exact .pure productHeld
  | cons selector rest hypothesis =>
      rw [all_cons] at held
      rw [Word.addShifted]
      split
      · exact hypothesis multiplicandHeld productHeld held.2
      · refine .bind (.mapM fun bit member after grown => ?_) fun kept first grown keptHeld => ?_
        · have bitHeld := (all_word.mp multiplicandHeld).of_mem (List.mem_of_mem_take member)
          exact closed.and (bitHeld.mono grown) (held.1.mono grown)
        · have shifted : family.All first (Word.ofBits
              (List.replicate shift (.const false) ++ kept)) :=
            (all_append.mpr ⟨all_replicate (all_const false) shift, keptHeld⟩).ofBits
          refine .bind (closed.plus (productHeld.mono grown) shifted)
            fun sum second grown' sumHeld => ?_
          exact hypothesis ((multiplicandHeld.mono grown).mono grown') sumHeld
            ((held.2.mono grown).mono grown')

theorem multiply (leftHeld : family.All circuit left) (rightHeld : family.All circuit right) :
    family.Keeps circuit (left.multiply right) :=
  closed.addShifted leftHeld (all_zero _) (rightHeld.extendedBits _)

theorem restoringDivision {complement : Word} {remainder dividend : List Bit}
    (complementHeld : family.All circuit complement)
    (remainderHeld : family.All circuit remainder) (held : family.All circuit dividend) :
    family.Keeps circuit (Word.restoringDivision complement remainder dividend) := by
  induction dividend generalizing circuit remainder with
  | nil => exact .pure (all_pair.mpr ⟨all_nil, remainderHeld⟩)
  | cons incoming rest hypothesis =>
      rw [all_cons] at held
      have shiftedHeld : family.All circuit (Word.ofBits (incoming :: remainder.dropLast)) :=
        (all_cons.mpr ⟨held.1, remainderHeld.of_sublist (List.dropLast_sublist _)⟩).ofBits
      refine .bind (closed.addWithCarry shiftedHeld complementHeld (all_const true))
        fun result first grown resultHeld => ?_
      rw [all_pair] at resultHeld
      refine .bind (.mapM fun pair member after grown' => ?_)
        fun next second grown' nextHeld => ?_
      · have pairHeld := all_pair.mp ((((all_word.mp shiftedHeld).mono grown).zip
          (resultHeld.1.extendedBits _)).of_mem member)
        exact closed.ite (resultHeld.2.mono grown') (pairHeld.2.mono grown')
          (pairHeld.1.mono grown')
      · refine .bind (hypothesis ((complementHeld.mono grown).mono grown') nextHeld
          ((held.2.mono grown).mono grown')) fun last third grown'' lastHeld => .pure ?_
        rw [all_pair] at lastHeld
        exact all_pair.mpr ⟨all_cons.mpr ⟨(resultHeld.2.mono grown').mono grown'', lastHeld.1⟩,
          lastHeld.2⟩

theorem divideWithRemainder (leftHeld : family.All circuit left)
    (rightHeld : family.All circuit right) :
    family.Keeps circuit (left.divideWithRemainder right) := by
  refine .bind (closed.abs leftHeld) fun dividend first grown dividendHeld => ?_
  refine .bind (closed.abs (rightHeld.mono grown)) fun divisor second grown' divisorHeld => ?_
  refine .bind (closed.wordNot divisorHeld) fun complement third grown'' complementHeld => ?_
  have grownThird := family.trans (family.trans grown grown') grown''
  have digits : family.All third dividend.bits.reverse :=
    all_list.mpr fun bit member => ((all_word.mp dividendHeld).of_mem
      (List.mem_reverse.mp member)).mono (family.trans grown' grown'')
  refine .bind (closed.restoringDivision complementHeld (all_replicate (all_const false) _) digits)
    fun result fourth grownFourth resultHeld => ?_
  rw [all_pair] at resultHeld
  have leftFourth := leftHeld.mono (family.trans grownThird grownFourth)
  refine .bind (closed.xor leftFourth.sign
    (rightHeld.mono (family.trans grownThird grownFourth)).sign)
    fun differ fifth grownFifth differHeld => ?_
  have quotientHeld : family.All fifth (Word.ofBits result.1.reverse) :=
    All.ofBits (all_list.mpr fun bit member =>
      (resultHeld.1.of_mem (List.mem_reverse.mp member)).mono grownFifth)
  refine .bind (closed.negateIf differHeld quotientHeld)
    fun quotient sixth grownSixth signedHeld => ?_
  refine .bind (closed.negateIf ((leftFourth.mono grownFifth).mono grownSixth).sign
    ((resultHeld.2.mono grownFifth).mono grownSixth).ofBits)
    fun remainder last grownLast remainderHeld => ?_
  exact .pure (all_pair.mpr ⟨signedHeld.mono grownLast, remainderHeld⟩)

theorem divide (leftHeld : family.All circuit left) (rightHeld : family.All circuit right) :
    family.Keeps circuit (left.divide right) :=
  .map (closed.divideWithRemainder leftHeld rightHeld) fun _ _ _ held => (all_pair.mp held).1

theorem modulo (leftHeld : family.All circuit left) (rightHeld : family.All circuit right) :
    family.Keeps circuit (left.modulo right) :=
  .map (closed.divideWithRemainder leftHeld rightHeld) fun _ _ _ held => (all_pair.mp held).2

theorem addNeighbours {words : List Word} (held : family.All circuit words) :
    family.Keeps circuit (Word.addNeighbours words) := by
  fun_induction Word.addNeighbours words generalizing circuit with
  | case1 left right rest hypothesis =>
      rw [all_cons, all_cons] at held
      refine .bind (closed.plus held.1 held.2.1) fun sum first grown sumHeld => ?_
      refine .bind (hypothesis (held.2.2.mono grown)) fun sums after grown' sumsHeld => ?_
      exact .pure (all_cons.mpr ⟨sumHeld.mono grown', sumsHeld⟩)
  | case2 words => exact .pure held

theorem addRounds {rounds : Nat} {words : List Word} (held : family.All circuit words) :
    family.Keeps circuit (Word.addRounds rounds words) := by
  fun_induction Word.addRounds rounds words generalizing circuit with
  | case1 rounds left right rest hypothesis =>
      exact .bind (closed.addNeighbours held) fun sums _ _ sumsHeld => hypothesis sums sumsHeld
  | case2 => exact .pure held

theorem sumAll {words : List Word} (held : family.All circuit words) :
    family.Keeps circuit (Word.sumAll words).run := by
  refine .tryBind (.lift (closed.addRounds held)) fun sums after _ sumsHeld => ?_
  cases sums with
  | nil => exact .tryGet (.except (all_ofBits? (all_replicate (all_const false) _)))
  | cons sum rest => exact .tryPure (all_cons.mp sumsHeld).1

/-! Shifts -/

omit closed in
theorem move {kind : ShiftKind} {fill : Bit} {distance : Nat} {bits : List Bit}
    (fillHeld : family.All circuit fill) (held : family.All circuit bits) :
    family.All circuit (Word.move kind fill distance bits) := by
  have entering : family.All circuit (List.replicate (Nat.min distance bits.length) fill) :=
    all_replicate fillHeld _
  cases kind with
  | left => exact all_append.mpr ⟨entering, held.of_sublist (List.take_sublist _ _)⟩
  | logicalRight => exact all_append.mpr ⟨held.of_sublist (List.drop_sublist _ _), entering⟩
  | arithmeticRight => exact all_append.mpr ⟨held.of_sublist (List.drop_sublist _ _), entering⟩

theorem barrel {kind : ShiftKind} {fill : Bit} {current selectors : List Bit} {stage : Nat}
    (fillHeld : family.All circuit fill) (currentHeld : family.All circuit current)
    (held : family.All circuit selectors) :
    family.Keeps circuit (Word.barrel kind fill current stage selectors) := by
  induction selectors generalizing circuit current stage with
  | nil => exact .pure currentHeld
  | cons selector rest hypothesis =>
      rw [all_cons] at held
      rw [Word.barrel]
      split
      · exact hypothesis fillHeld currentHeld held.2
      · refine .bind (.mapM fun pair member after grown => ?_)
          fun next first grown nextHeld => ?_
        · have pairHeld := all_pair.mp
            (((move fillHeld currentHeld).zip currentHeld).of_mem member)
          exact closed.ite (held.1.mono grown) (pairHeld.1.mono grown) (pairHeld.2.mono grown)
        · exact hypothesis (fillHeld.mono grown) nextHeld (held.2.mono grown)

theorem shift {kind : ShiftKind} {amount : Word} (held : family.All circuit word)
    (amountHeld : family.All circuit amount) :
    family.Keeps circuit (Word.shift kind word amount) := by
  have fillHeld : family.All circuit
      (if kind = .arithmeticRight then word.sign else .const false) := by
    split
    · exact held.sign
    · exact all_const false
  have selectors := (all_word.mp amountHeld).of_sublist (List.dropLast_sublist amount.bits)
  refine .bind (closed.barrel fillHeld (all_word.mp held) selectors)
    fun moved first grown movedHeld => ?_
  refine .map (.mapM fun bit member after grown' => ?_) fun _ _ _ held => held.ofBits
  exact closed.ite ((amountHeld.sign.mono grown).mono grown') ((fillHeld.mono grown).mono grown')
    ((movedHeld.of_mem member).mono grown')

/-! Comparison -/

theorem agreements {pairs : List (Bit × Bit)} (held : family.All circuit pairs) :
    family.Keeps circuit (Word.agreements pairs) := by
  induction pairs generalizing circuit with
  | nil => exact .pure (all_some.mpr all_nil)
  | cons pair rest hypothesis =>
      rw [all_cons, all_pair] at held
      refine .bind (closed.iff held.1.1 held.1.2) fun agree first grown agreeHeld => ?_
      split
      · exact .pure all_none
      · refine .map (hypothesis (held.2.mono grown)) fun found after grown' foundHeld => ?_
        cases found with
        | none => exact all_none
        | some bits =>
            exact all_some.mpr (all_cons.mpr ⟨agreeHeld.mono grown', all_some.mp foundHeld⟩)

theorem eq (leftHeld : family.All circuit left) (rightHeld : family.All circuit right) :
    family.Keeps circuit (left.eq right) := by
  refine .bind (closed.agreements (leftHeld.pairs rightHeld)) fun found after _ held => ?_
  cases found with
  | none => exact .pure (all_const false)
  | some bits => exact closed.all (all_some.mp held)

theorem descents {agreeAbove : Bit} {pairs : List (Bit × Bit)}
    (agreeHeld : family.All circuit agreeAbove) (held : family.All circuit pairs) :
    family.Keeps circuit (Word.descents agreeAbove pairs) := by
  induction pairs generalizing circuit agreeAbove with
  | nil => exact .pure all_nil
  | cons pair rest hypothesis =>
      rw [all_cons, all_pair] at held
      rcases held with ⟨⟨leftHeld, rightHeld⟩, restHeld⟩
      refine .bind (closed.implies leftHeld rightHeld) fun below first grown belowHeld => ?_
      refine .bind (closed.implies (agreeHeld.mono grown) belowHeld)
        fun condition second grown' conditionHeld => ?_
      have grownSecond := family.trans grown grown'
      refine .bind (closed.iff (leftHeld.mono grownSecond) (rightHeld.mono grownSecond))
        fun same third grown'' sameHeld => ?_
      have grownThird := family.trans grownSecond grown''
      refine .bind (closed.and (agreeHeld.mono grownThird) sameHeld)
        fun agree fourth grownAgain nextHeld => ?_
      refine .map (hypothesis nextHeld ((restHeld.mono grownThird).mono grownAgain))
        fun conditions last grownLast conditionsHeld => ?_
      exact all_cons.mpr ⟨((conditionHeld.mono grown'').mono grownAgain).mono grownLast,
        conditionsHeld⟩

theorem lte (leftHeld : family.All circuit left) (rightHeld : family.All circuit right) :
    family.Keeps circuit (left.lte right) := by
  have pairsHeld : family.All circuit (left.pairs right).reverse :=
    all_list.mpr fun pair member =>
      (leftHeld.pairs rightHeld).of_mem (List.mem_reverse.mp member)
  rw [Word.lte]
  cases reversed : (left.pairs right).reverse with
  | nil => exact .pure (all_const true)
  | cons signs below =>
      rw [reversed, all_cons, all_pair] at pairsHeld
      rcases pairsHeld with ⟨⟨leftSign, rightSign⟩, belowHeld⟩
      refine .bind (closed.implies rightSign leftSign) fun implied first grown impliedHeld => ?_
      refine .bind (closed.iff (leftSign.mono grown) (rightSign.mono grown))
        fun agree second grown' agreeHeld => ?_
      refine .bind (closed.descents agreeHeld ((belowHeld.mono grown).mono grown'))
        fun conditions third grown'' conditionsHeld => ?_
      exact closed.all (all_cons.mpr ⟨(impliedHeld.mono grown').mono grown'', conditionsHeld⟩)

theorem lt (leftHeld : family.All circuit left) (rightHeld : family.All circuit right) :
    family.Keeps circuit (left.lt right) := by
  refine .bind (closed.lte leftHeld rightHeld) fun atMost first grown atMostHeld => ?_
  refine .bind (closed.eq (leftHeld.mono grown) (rightHeld.mono grown))
    fun equal second grown' equalHeld => ?_
  refine .bind (closed.not equalHeld) fun different third grown'' differentHeld => ?_
  exact closed.and ((atMostHeld.mono grown').mono grown'') differentHeld

end Closed

end BitFamily

end ModelFinder
