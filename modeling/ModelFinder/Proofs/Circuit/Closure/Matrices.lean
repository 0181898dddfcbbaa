import Mathlib
import ModelFinder.Proofs.Circuit.Closure.Words
import ModelFinder.Proofs.Circuit.Matrix.Join
/-!
Operations on matrices stay within a family of bits, whatever the dimensions of the matrices
are: every stored cell of a result is made of stored cells of the operands.
-/

namespace ModelFinder

instance : HasBits Matrix := ⟨Matrix.values⟩

namespace BitFamily

variable {family : BitFamily} {circuit : Circuit} {matrix left right : Matrix}

theorem all_matrix : family.All circuit matrix ↔
    ∀ (index : Nat) (bit : Bit), matrix.cells[index]? = some bit → family.All circuit bit := by
  constructor
  · intro held index bit found
    exact all_bit.mpr (held bit (List.mem_map_of_mem (Matrix.mem_entries.mpr found)))
  · intro held bit member
    rcases List.mem_map.mp member with ⟨entry, entryMember, rfl⟩
    exact all_bit.mp (held entry.1 entry.2 (Matrix.mem_entries.mp entryMember))

theorem All.cell (held : family.All circuit matrix) (index : Nat) :
    family.All circuit (matrix.cell index) := by
  rw [Matrix.cell]
  cases found : matrix.cells[index]? with
  | some bit => exact all_matrix.mp held index bit found
  | none => exact all_const false

theorem All.values (held : family.All circuit matrix) : family.All circuit matrix.values :=
  all_list.mpr fun bit member => all_bit.mpr (held bit member)

theorem All.entries (held : family.All circuit matrix) : family.All circuit matrix.entries :=
  all_list.mpr fun _ member => all_pair.mpr
    ⟨all_nat, all_bit.mpr (held _ (List.mem_map_of_mem member))⟩

theorem all_empty (universeSize arity : Nat) :
    family.All circuit (Matrix.empty universeSize arity) := by
  refine all_matrix.mpr fun index bit found => ?_
  simp [Matrix.empty] at found

theorem all_constantMatrix (universeSize arity : Nat) (indices : List Nat) :
    family.All circuit (Matrix.constant universeSize arity indices) := by
  refine all_matrix.mpr fun index bit found => ?_
  rw [Matrix.getElem?_constant] at found
  split at found
  · cases found
    exact all_const true
  · cases found

theorem All.set {value : Bit} (held : family.All circuit matrix)
    (valueHeld : family.All circuit value) (index : Nat) :
    family.All circuit (matrix.set index value) := by
  rw [all_matrix] at held ⊢
  intro other bit found
  rw [Matrix.getElem?_set] at found
  split at found
  · split at found
    · cases found
    · cases found
      exact valueHeld
  · exact held other bit found

theorem All.setAll {entries : List (Nat × Bit)} (held : family.All circuit matrix)
    (entriesHeld : family.All circuit entries) : family.All circuit
      (entries.foldl (fun matrix entry => matrix.set entry.1 entry.2) matrix) := by
  induction entries generalizing matrix with
  | nil => exact held
  | cons entry rest hypothesis =>
      rw [all_cons, all_pair] at entriesHeld
      exact hypothesis (held.set entriesHeld.1.2 entry.1) entriesHeld.2

theorem All.grouped {entries : List (Nat × Bit)} (held : family.All circuit entries) :
    family.All circuit (Matrix.grouped entries) := by
  refine all_list.mpr fun group member => all_pair.mpr ⟨all_nat, all_list.mpr fun bit inside => ?_⟩
  rw [Matrix.of_mem_grouped member] at inside
  rcases List.mem_map.mp inside with ⟨entry, entryMember, rfl⟩
  exact (all_pair.mp (held.of_mem (List.mem_of_mem_filter entryMember))).2

theorem all_index {outcome : Except Error Nat} : family.All circuit outcome := by
  cases outcome with
  | error error => exact all_error
  | ok index => exact all_ok.mpr all_nat

theorem all_matching {rows : Std.ExtTreeMap Nat (List (Nat × Bit))} {base rowLength first : Nat}
    (held : ∀ start, family.All circuit (rows.getD start [])) :
    family.All circuit (Index.matching? rows base rowLength first) := by
  rw [Index.matching?]
  cases Index.word (Index.rowStart rowLength (first % base)) with
  | error error => exact all_error
  | ok start =>
      change family.All circuit (Index.word (start + rowLength) >>= fun _ => _)
      cases Index.word (start + rowLength) with
      | error error => exact all_error
      | ok stop => exact all_ok.mpr (held _)

theorem All.flatten {rows : List (List (Nat × Bit))} (held : family.All circuit rows) :
    family.All circuit rows.flatten := by
  refine all_list.mpr fun entry member => ?_
  rcases List.mem_flatten.mp member with ⟨row, rowMember, inRow⟩
  exact (held.of_mem rowMember).of_mem inRow

namespace Closed

variable (closed : family.Closed)

omit closed in
theorem setEach {compute : Matrix → Nat → Bit → Build Bit} {entries : List (Nat × Bit)}
    (held : family.All circuit matrix) (entriesHeld : family.All circuit entries)
    (computes : ∀ {after result index value}, family.Grows circuit after →
      family.All after result → family.All after value →
      family.Keeps after (compute result index value)) :
    family.Keeps circuit (matrix.setEach compute entries) := by
  induction entries generalizing circuit matrix with
  | nil => exact .pure held
  | cons entry rest hypothesis =>
      rw [all_cons, all_pair] at entriesHeld
      refine .bind (computes (family.refl circuit) held entriesHeld.1.2)
        fun value after grown valueHeld => ?_
      exact hypothesis ((held.mono grown).set valueHeld entry.1) (entriesHeld.2.mono grown)
        fun grownAgain => computes (family.trans grown grownAgain)

omit closed in
theorem compatible {α : Type} [HasBits α] {next : TryBuild α}
    (keeps : family.Keeps circuit next.run) :
    family.Keeps circuit (do left.compatible? right; next : TryBuild α).run := by
  rw [Matrix.compatible?]
  split
  · exact keeps
  · exact .throw

include closed

theorem union (leftHeld : family.All circuit left) (rightHeld : family.All circuit right) :
    family.Keeps circuit (left.union? right).run :=
  compatible (.lift (setEach leftHeld rightHeld.entries fun _ resultHeld valueHeld =>
    closed.or (resultHeld.cell _) valueHeld))

theorem intersection (leftHeld : family.All circuit left)
    (rightHeld : family.All circuit right) :
    family.Keeps circuit (left.intersection? right).run :=
  compatible (.lift (setEach (all_empty _ _) (leftHeld.entries.filter _)
    fun grown _ valueHeld => closed.and valueHeld ((rightHeld.cell _).mono grown)))

theorem difference (leftHeld : family.All circuit left) (rightHeld : family.All circuit right) :
    family.Keeps circuit (left.difference? right).run :=
  compatible (.lift (setEach (all_empty _ _) leftHeld.entries fun grown _ valueHeld =>
    .bind (closed.not ((rightHeld.cell _).mono grown)) fun _ _ grownAgain negatedHeld =>
      closed.and (valueHeld.mono grownAgain) negatedHeld))

theorem matrixChoice {condition : Bit} (conditionHeld : family.All circuit condition)
    (leftHeld : family.All circuit left) (rightHeld : family.All circuit right) :
    family.Keeps circuit (Matrix.choice? condition left right).run := by
  refine compatible ?_
  split
  · rename_i value _
    cases value with
    | true => exact .tryPure leftHeld
    | false => exact .tryPure rightHeld
  · refine .tryBind (.lift (setEach (all_empty _ _) leftHeld.entries
      fun grown _ valueHeld => closed.ite (conditionHeld.mono grown) valueHeld
        ((rightHeld.cell _).mono grown))) fun result first grown resultHeld => ?_
    exact .lift (setEach resultHeld ((rightHeld.entries.filter _).mono grown)
      fun grownAgain _ valueHeld => closed.ite ((conditionHeld.mono grown).mono grownAgain)
        (all_const false) valueHeld)

theorem subset (leftHeld : family.All circuit left) (rightHeld : family.All circuit right) :
    family.Keeps circuit (left.subset? right).run := by
  refine compatible (.tryBind (.tryMapM fun entry member after grown => .lift ?_)
    fun implications _ _ held => .lift (closed.all held))
  have entryHeld := all_pair.mp (leftHeld.entries.of_mem member)
  exact closed.implies (entryHeld.2.mono grown) ((rightHeld.cell _).mono grown)

theorem equals (leftHeld : family.All circuit left) (rightHeld : family.All circuit right) :
    family.Keeps circuit (left.equals? right).run := by
  refine .tryBind (closed.subset leftHeld rightHeld) fun included first grown includedHeld => ?_
  refine .tryBind (closed.subset (rightHeld.mono grown) (leftHeld.mono grown))
    fun including second grown' includingHeld => ?_
  exact .lift (closed.and (includedHeld.mono grown') includingHeld)

/-! Joins and products -/

theorem joinRow {base rowLength first : Nat} {value : Bit} {continuing : List (Nat × Bit)}
    (valueHeld : family.All circuit value) (held : family.All circuit continuing) :
    family.Keeps circuit (Matrix.joinRow? base rowLength first value continuing).run := by
  induction continuing generalizing circuit with
  | nil => exact .tryPure all_nil
  | cons entry rest hypothesis =>
      rw [all_cons, all_pair] at held
      refine .tryBind (.lift (closed.and valueHeld held.1.2)) fun both after grown bothHeld => ?_
      have later := hypothesis (valueHeld.mono grown) (held.2.mono grown)
      split
      · exact later
      · refine .tryBind (.except all_index) fun index second grown' _ => ?_
        have later' := hypothesis ((valueHeld.mono grown).mono grown')
          ((held.2.mono grown).mono grown')
        refine .tryBind later' fun row last grown'' rowHeld => .tryPure ?_
        exact all_cons.mpr ⟨all_pair.mpr ⟨all_nat, (bothHeld.mono grown').mono grown''⟩, rowHeld⟩

theorem joinRows {base rowLength : Nat} {rows : Std.ExtTreeMap Nat (List (Nat × Bit))}
    {entries : List (Nat × Bit)} (rowsHeld : ∀ first, family.All circuit (rows.getD first []))
    (held : family.All circuit entries) :
    family.Keeps circuit (Matrix.joinRows? base rowLength rows entries).run := by
  induction entries generalizing circuit with
  | nil => exact .tryPure all_nil
  | cons entry rest hypothesis =>
      rw [all_cons, all_pair] at held
      rw [Matrix.joinRows?]
      split
      · exact .throw
      · refine .tryBind (.except (all_matching rowsHeld))
          fun matching first grown matchingHeld => ?_
        refine .tryBind (closed.joinRow (held.1.2.mono grown) matchingHeld)
          fun row second grown' rowHeld => ?_
        have grownSecond := family.trans grown grown'
        refine .tryBind (hypothesis (fun first => (rowsHeld first).mono grownSecond)
          (held.2.mono grownSecond)) fun others last grown'' othersHeld => .tryPure ?_
        exact all_append.mpr ⟨rowHeld.mono grown'', othersHeld⟩

theorem join (leftHeld : family.All circuit left) (rightHeld : family.All circuit right) :
    family.Keeps circuit (left.join? right).run := by
  refine .tryBind (.except all_index) fun columns first grown _ => ?_
  have resultHeld : ∀ after, family.All after (Matrix.empty left.universeSize columns) :=
    fun _ => all_empty _ _
  dsimp only
  split
  · exact .tryPure (resultHeld _)
  · refine .tryBind (.except all_index) fun rowLength second grown' _ => ?_
    have grownSecond := family.trans grown grown'
    have rowsHeld : ∀ start, family.All second
        ((Index.rows Prod.fst rowLength right.entries).getD start []) := by
      intro start
      rw [Index.rows, Grouping.getD_groups]
      exact (rightHeld.entries.filter _).mono grownSecond
    refine .tryBind (closed.joinRows rowsHeld (leftHeld.entries.mono grownSecond))
      fun products third _ productsHeld => ?_
    refine .tryBind (.tryMapM fun group member after grownAgain => ?_)
      fun combined last _ combinedHeld => .tryPure ((resultHeld last).setAll combinedHeld)
    have groupHeld := all_pair.mp (productsHeld.grouped.of_mem member)
    exact .tryBind (.lift (closed.any (groupHeld.2.mono grownAgain))) fun bit _ _ bitHeld =>
      .tryPure (all_pair.mpr ⟨all_nat, bitHeld⟩)

theorem productRow {capacity first : Nat} {value : Bit} {continuing : List (Nat × Bit)}
    (valueHeld : family.All circuit value) (held : family.All circuit continuing) :
    family.Keeps circuit (Matrix.productRow? capacity first value continuing).run := by
  induction continuing generalizing circuit with
  | nil => exact .tryPure all_nil
  | cons entry rest hypothesis =>
      rw [all_cons, all_pair] at held
      refine .tryBind (.except all_index) fun index after grown _ => ?_
      refine .tryBind (.lift (closed.and (valueHeld.mono grown) (held.1.2.mono grown)))
        fun both second grown' bothHeld => ?_
      refine .tryBind (hypothesis ((valueHeld.mono grown).mono grown')
        ((held.2.mono grown).mono grown')) fun row last grown'' rowHeld => .tryPure ?_
      exact all_cons.mpr ⟨all_pair.mpr ⟨all_nat, bothHeld.mono grown''⟩, rowHeld⟩

theorem product (leftHeld : family.All circuit left) (rightHeld : family.All circuit right) :
    family.Keeps circuit (left.product? right).run := by
  refine .tryBind (.except all_index) fun columns first grown _ => ?_
  refine .tryBind (.except all_index) fun capacity second grown' _ => ?_
  have grownSecond := family.trans grown grown'
  refine .tryBind (.tryMapM fun entry member after grownAgain => ?_)
    fun rows last _ rowsHeld => .tryPure ((all_empty _ _).setAll rowsHeld.flatten)
  have grownAfter := family.trans grownSecond grownAgain
  have entryHeld := all_pair.mp (leftHeld.entries.of_mem member)
  exact closed.productRow (entryHeld.2.mono grownAfter) (rightHeld.entries.mono grownAfter)

/-! Counting -/

theorem some (held : family.All circuit matrix) : family.Keeps circuit matrix.some :=
  closed.any held.values

theorem none (held : family.All circuit matrix) : family.Keeps circuit matrix.none :=
  .bind (closed.some held) fun _ _ _ someHeld => closed.not someHeld

theorem exclusions {seen : Bit} {values : List Bit} (seenHeld : family.All circuit seen)
    (held : family.All circuit values) :
    family.Keeps circuit (Matrix.exclusions seen values) := by
  induction values generalizing circuit seen with
  | nil => exact .pure all_nil
  | cons value rest hypothesis =>
      rw [all_cons] at held
      refine .bind (closed.not seenHeld) fun unseen first grown unseenHeld => ?_
      refine .bind (closed.implies (held.1.mono grown) unseenHeld)
        fun exclusion second grown' exclusionHeld => ?_
      have grownSecond := family.trans grown grown'
      refine .bind (closed.or (seenHeld.mono grownSecond) (held.1.mono grownSecond))
        fun next third grown'' nextHeld => ?_
      refine .map (hypothesis nextHeld ((held.2.mono grownSecond).mono grown''))
        fun exclusions last grownLast exclusionsHeld => ?_
      exact all_cons.mpr ⟨(exclusionHeld.mono grown'').mono grownLast, exclusionsHeld⟩

theorem lone (held : family.All circuit matrix) : family.Keeps circuit matrix.lone :=
  .bind (closed.exclusions (all_const false) held.values) fun _ _ _ exclusionsHeld =>
    closed.all exclusionsHeld

theorem one (held : family.All circuit matrix) : family.Keeps circuit matrix.one :=
  .bind (closed.lone held) fun _ _ grown loneHeld =>
    .bind (closed.some (held.mono grown)) fun _ _ grown' someHeld =>
      closed.and (loneHeld.mono grown') someHeld

theorem popcount (held : family.All circuit matrix) :
    family.Keeps circuit matrix.popcount.run := by
  refine .tryGet (.tryBind (.tryMapM fun bit member after grown => .except ?_)
    fun words _ _ wordsHeld => closed.sumAll wordsHeld)
  exact all_ofBit? ((held.values.of_mem member).mono grown) _

end Closed

end BitFamily

end ModelFinder
