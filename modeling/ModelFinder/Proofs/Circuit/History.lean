import Mathlib
import ModelFinder.Proofs.Circuit.Operations
import ModelFinder.Proofs.Compile.Closure
/-!
Everything that can be asked of a circuit, and circuits after any number of requests. A task is
an operation on bits, on words or on matrices; it may be performed on whatever is made of
constants, variables and results of earlier tasks. A task may fail, and a circuit keeps the
gates that a failing task has made.
-/

namespace ModelFinder

inductive Task where
  | bit (operation : Operation)
  | word (op : IntOp) (left right : Word)
  | unaryWord (op : IntUnaryOp) (operand : Word)
  | wordComparison (op : IntComparison) (left right : Word)
  | wordChoice (condition : Bit) (thenWord elseWord : Word)
  | sum (words : List Word)
  | matrix (op : SetOp) (left right : Matrix)
  | matrixComparison (op : SetComparison) (left right : Matrix)
  | matrixChoice (condition : Bit) (thenMatrix elseMatrix : Matrix)
  | multiplicity (amount : Multiplicity) (operand : Matrix)
  | count (operand : Matrix)

inductive Value where
  | bit (result : Bit)
  | word (result : Word)
  | matrix (result : Matrix)

instance : HasBits Value where
  bits
    | .bit result => HasBits.bits result
    | .word result => HasBits.bits result
    | .matrix result => HasBits.bits result

namespace Task

def inputs : Task → List Bit
  | .bit operation => operation.inputs
  | .word _ left right | .wordComparison _ left right => HasBits.bits (left, right)
  | .unaryWord _ operand => HasBits.bits operand
  | .wordChoice condition thenWord elseWord => HasBits.bits (condition, thenWord, elseWord)
  | .sum words => HasBits.bits words
  | .matrix _ left right | .matrixComparison _ left right => HasBits.bits (left, right)
  | .matrixChoice condition thenMatrix elseMatrix =>
    HasBits.bits (condition, thenMatrix, elseMatrix)
  | .multiplicity _ operand | .count operand => HasBits.bits operand

def build : Task → TryBuild Value
  | .bit operation => do return .bit (← operation.build)
  | .word op left right => do return .word (← op.build left right)
  | .unaryWord op operand => do return .word (← op.build operand)
  | .wordComparison op left right => do return .bit (← op.build left right)
  | .wordChoice condition thenWord elseWord => do
    return .word (← Word.choice condition thenWord elseWord)
  | .sum words => do return .word (← Word.sumAll words)
  | .matrix op left right => do return .matrix (← op.build left right)
  | .matrixComparison op left right => do return .bit (← op.build left right)
  | .matrixChoice condition thenMatrix elseMatrix => do
    return .matrix (← Matrix.choice? condition thenMatrix elseMatrix)
  | .multiplicity amount operand => do return .bit (← amount.build operand)
  | .count operand => do return .word (← operand.popcount)

end Task

namespace BitFamily

variable {family : BitFamily} {circuit : Circuit} {α : Type} [HasBits α]

/-- An operation on bits of a family stays within it. -/
theorem Closed.operation (closed : family.Closed) {operation : Operation}
    (held : family.All circuit operation.inputs) : family.Keeps circuit operation.build := by
  cases operation with
  | all inputs => exact closed.all held
  | any inputs => exact closed.any held
  | not input => exact closed.not (held.of_mem (by simp [Operation.inputs]))
  | ite condition thenBit elseBit =>
      rw [Operation.inputs, all_cons, all_cons, all_cons] at held
      exact closed.ite held.1 held.2.1 held.2.2.1
  | xor left right =>
      rw [Operation.inputs, all_cons, all_cons] at held
      exact closed.xor held.1 held.2.1
  | iff left right =>
      rw [Operation.inputs, all_cons, all_cons] at held
      exact closed.iff held.1 held.2.1
  | implies left right =>
      rw [Operation.inputs, all_cons, all_cons] at held
      exact closed.implies held.1 held.2.1
  | sum left right carryIn =>
      rw [Operation.inputs, all_cons, all_cons, all_cons] at held
      exact closed.sum held.1 held.2.1 held.2.2.1
  | carry left right carryIn =>
      rw [Operation.inputs, all_cons, all_cons, all_cons] at held
      exact closed.carry held.1 held.2.1 held.2.2.1

/-- What a list of bits says about the bits of the thing that it comes from. -/
theorem all_bits {value : α} :
    family.All circuit (HasBits.bits value) ↔ family.All circuit value := by
  rw [all_list]
  exact forall₂_congr fun _ _ => all_bit

theorem Keeps.result {action : TryBuild α} {wrap : α → Value}
    (keeps : family.Keeps circuit action.run)
    (same : ∀ value, HasBits.bits (wrap value) = HasBits.bits value) :
    family.Keeps circuit (do return wrap (← action) : TryBuild Value).run := by
  refine .tryBind keeps fun value after _ held => .tryPure ?_
  rw [← all_bits, same, all_bits]
  exact held

theorem Closed.task (closed : family.Closed) {task : Task}
    (held : family.All circuit task.inputs) : family.Keeps circuit task.build.run := by
  cases task with
  | bit operation => exact .result (.lift (closed.operation held)) fun _ => rfl
  | word op left right =>
      have parts := all_pair.mp (all_bits.mp held)
      exact .result (.lift (closed.intOp op parts.1 parts.2)) fun _ => rfl
  | unaryWord op operand =>
      exact .result (.lift (closed.intUnaryOp op (all_bits.mp held))) fun _ => rfl
  | wordComparison op left right =>
      have parts := all_pair.mp (all_bits.mp held)
      exact .result (.lift (closed.intComparison op parts.1 parts.2)) fun _ => rfl
  | wordChoice condition thenWord elseWord =>
      have parts := all_pair.mp (all_bits.mp held)
      have branches := all_pair.mp parts.2
      exact .result (.lift (closed.choice parts.1 branches.1 branches.2)) fun _ => rfl
  | sum words => exact .result (closed.sumAll (all_bits.mp held)) fun _ => rfl
  | matrix op left right =>
      have parts := all_pair.mp (all_bits.mp held)
      exact .result (closed.setOp op parts.1 parts.2) fun _ => rfl
  | matrixComparison op left right =>
      have parts := all_pair.mp (all_bits.mp held)
      exact .result (closed.setComparison op parts.1 parts.2) fun _ => rfl
  | matrixChoice condition thenMatrix elseMatrix =>
      have parts := all_pair.mp (all_bits.mp held)
      have branches := all_pair.mp parts.2
      exact .result (closed.matrixChoice parts.1 branches.1 branches.2) fun _ => rfl
  | multiplicity amount operand =>
      exact .result (.lift (closed.multiplicity amount (all_bits.mp held))) fun _ => rfl
  | count operand => exact .result (closed.popcount (all_bits.mp held)) fun _ => rfl

end BitFamily

namespace Circuit

/-- A circuit after some tasks, together with the bits that were made with it and with every
task and its outcome, the last one first. Tasks are made of bits made before. -/
inductive History (primary width : Nat) :
    Circuit → List Bit → List (Task × Except Error Value) → Prop
  | start {circuit : Circuit} : empty? primary width = .ok circuit →
      History primary width circuit [] []
  | const {circuit : Circuit} {made : List Bit} {performed : List (Task × Except Error Value)}
      (value : Bool) : History primary width circuit made performed →
      History primary width circuit (.const value :: made) performed
  | var {circuit : Circuit} {made : List Bit} {performed : List (Task × Except Error Value)}
      {label : Int} {bit : Bit} : History primary width circuit made performed →
      circuit.var? label = .ok bit → History primary width circuit (bit :: made) performed
  | perform {circuit : Circuit} {made : List Bit} {performed : List (Task × Except Error Value)}
      (task : Task) : History primary width circuit made performed →
      (∀ input ∈ task.inputs, input ∈ made) →
      History primary width (task.build.run circuit).2
        (HasBits.bits (task.build.run circuit).1 ++ made)
        ((task, (task.build.run circuit).1) :: performed)

theorem keeps_task {circuit : Circuit} {task : Task}
    (inputs : ∀ input ∈ task.inputs, circuit.Knows input) :
    BitFamily.known.Keeps circuit task.build.run :=
  BitFamily.closed_known.task (BitFamily.all_list.mpr fun input member =>
    BitFamily.all_bit.mpr (inputs input member))

section

variable {primary width : Nat} {circuit : Circuit} {made : List Bit}
  {performed : List (Task × Except Error Value)}

/-- Whatever was asked of a circuit, it is valid and knows the bits that were made with it. -/
theorem History.sound (history : History primary width circuit made performed) :
    Sound primary circuit made := by
  induction history with
  | start opened =>
      obtain ⟨-, rfl⟩ := of_empty? opened
      exact ⟨valid_empty primary width, rfl, by simp⟩
  | const value _ sound => exact sound.cons (.const value)
  | var _ found sound => exact sound.cons (knows_of_var found)
  | perform task _ inputs sound =>
      rcases keeps_task (fun input member => sound.known input (inputs input member))
        sound.valid with ⟨valid, grown, resultKnown⟩
      refine ⟨valid, grown.primary.trans sound.primary, fun bit member => ?_⟩
      rcases List.mem_append.mp member with new | old
      · exact resultKnown bit new
      · exact (sound.known bit old).mono grown

theorem History.knowsAll (history : History primary width circuit made performed)
    {bits : List Bit} (bitsMade : bits ⊆ made) : circuit.KnowsAll bits :=
  fun bit member => history.sound.known bit (bitsMade member)

theorem History.width_eq (history : History primary width circuit made performed) :
    circuit.width = width := by
  induction history with
  | start opened =>
      obtain ⟨-, rfl⟩ := of_empty? opened
      rfl
  | const _ _ same => exact same
  | var _ _ same => exact same
  | perform task earlier inputs same =>
      have sound := earlier.sound
      have kept := keeps_task (fun input member => sound.known input (inputs input member))
        sound.valid
      exact kept.2.1.width.trans same

theorem History.operation (history : History primary width circuit made performed)
    (operation : Operation) (inputs : ∀ input ∈ operation.inputs, input ∈ made) :
    History primary width (operation.build circuit).2 ((operation.build circuit).1 :: made)
      ((.bit operation, .ok (.bit (operation.build circuit).1)) :: performed) :=
  history.perform (.bit operation) inputs

/-- Simplification preserves meaning. On a circuit with any history, an operation on bits made
before gives the operation's truth function, under every assignment of the variables. Afterwards
the circuit still holds every bit made earlier, and any bit that it knows by the label of an
earlier one has the values which that one had. -/
theorem History.perform_meaning (history : History primary width circuit made performed)
    (operation : Operation) (inputs : ∀ input ∈ operation.inputs, input ∈ made)
    (assignment : Nat → Bool) :
    (operation.build circuit).1.eval assignment = operation.value assignment ∧
      ∀ earlier ∈ made, (operation.build circuit).2.Knows earlier ∧
        ∀ bit, (operation.build circuit).2.Knows bit → bit.label = earlier.label →
          bit.eval assignment = earlier.eval assignment := by
  have sound := history.sound
  rcases operation.build_computes (fun input member => sound.known input (inputs input member))
    sound.valid with ⟨valid, grown, -, value⟩
  refine ⟨value assignment, fun earlier member => ?_⟩
  have known := (sound.known earlier member).mono grown
  exact ⟨known, fun bit bitKnown same => by rw [bitKnown.eq_of_label valid known same]⟩

/-- A conjunction of a bit and its negation is false, whatever the assignment. -/
theorem History.perform_meaning_clash : ∃ circuit negated performed,
    History 1 4 circuit [negated, .var 1] performed ∧ ∀ assignment : Nat → Bool,
      ((Operation.all [negated, .var 1, negated]).build circuit).1.eval assignment = false := by
  have opened : History 1 4 (empty 1 4) [] [] := .start (empty?_of_lt (by decide) 4)
  have found : (empty 1 4).var? (1 : Nat) = .ok (.var 1) :=
    var?_of_le (by decide) (by decide) (by decide)
  have negation : ∀ input ∈ (Operation.not (.var 1)).inputs, input ∈ [Bit.var 1] := by
    simp [Operation.inputs]
  have history := (opened.var found).operation (.not (.var 1)) negation
  refine ⟨_, _, _, history, fun assignment => ?_⟩
  have negated := ((opened.var found).perform_meaning (.not (.var 1)) negation assignment).1
  rw [(history.perform_meaning (.all [_, .var 1, _]) (by simp [Operation.inputs])
    assignment).1]
  simp [Operation.value, negated]

/-- An operation that interns a gate which a circuit does not hold makes this gate. -/
theorem History.gate (history : History primary width circuit made performed)
    (operation : Operation) (inputs : ∀ input ∈ operation.inputs, input ∈ made)
    {kind : GateKind} {operands : List Bit} {make : Int → Bit}
    (interned : operation.build = Build.intern kind operands make)
    (new : circuit.gates[kind.key operands]? = none) :
    ∃ performed, History primary width
      (circuit.addGate (kind.key operands) (make circuit.nextLabel))
      (make circuit.nextLabel :: made) performed := by
  have performed := history.operation operation inputs
  rw [interned, Build.intern_run, new] at performed
  exact ⟨_, performed⟩

theorem History.two_variables : History 2 1 (empty 2 1) [.var 2, .var 1] [] := by
  have opened : History 2 1 (empty 2 1) [] [] := .start (empty?_of_lt (by decide) 1)
  have first : (empty 2 1).var? (1 : Nat) = .ok (.var 1) :=
    var?_of_le (by decide) (by decide) (by decide)
  have second : (empty 2 1).var? (2 : Nat) = .ok (.var 2) :=
    var?_of_le (by decide) (by decide) (by decide)
  exact (opened.var first).var second

theorem History.not_both (history : History primary width circuit made performed)
    (given : [.var 1, .var 2] ⊆ made)
    (noConjunction : circuit.gates[GateKind.and.key [.var 1, .var 2]]? = none)
    (noNegation : ∀ operand, circuit.gates[GateKind.not.key [operand]]? = none) :
    ∃ circuit' made' performed', History primary width circuit' made' performed' ∧
      Bit.not (circuit.nextLabel + 1) (.and circuit.nextLabel [.var 1, .var 2]) ∈ made' ∧
      made ⊆ made' ∧ circuit'.nextLabel = circuit.nextLabel + 2 := by
  have conjunction : (Operation.all [.var 1, .var 2]).build =
      Build.intern .and [.var 1, .var 2] (.and · [.var 1, .var 2]) := by rfl
  obtain ⟨_, both⟩ := history.gate (.all [.var 1, .var 2]) (fun _ member => given member)
    conjunction noConjunction
  have grown := nextLabel_addGate noConjunction (.and circuit.nextLabel [.var 1, .var 2])
  have negation : (Operation.not (.and circuit.nextLabel [.var 1, .var 2])).build =
      Build.intern .not [.and circuit.nextLabel [.var 1, .var 2]]
        (.not · (.and circuit.nextLabel [.var 1, .var 2])) := by rfl
  have new : (circuit.addGate (GateKind.and.key [.var 1, .var 2])
      (.and circuit.nextLabel [.var 1, .var 2])).gates[GateKind.not.key
        [.and circuit.nextLabel [.var 1, .var 2]]]? = none := by
    rw [addGate, Std.ExtTreeMap.getElem?_insert, noNegation]
    simp [GateKind.key, GateKind.code]
  obtain ⟨_, negated⟩ := both.gate (.not (.and circuit.nextLabel [.var 1, .var 2]))
    (by simp [Operation.inputs]) negation new
  rw [grown] at negated
  refine ⟨_, _, _, negated, by simp, fun bit member => by simp [member], ?_⟩
  rw [nextLabel_addGate new, grown, add_assoc]
  rfl

end

end Circuit

end ModelFinder
