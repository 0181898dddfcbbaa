import Mathlib
import ModelFinder.Proofs.Cnf.Listing
/-!
How the clauses of some roots are laid out: which variables there are besides the primary ones,
which clauses, and how many of both. Every literal is one of these variables or its negation, and no
clause has two literals over one variable.
-/

namespace ModelFinder

namespace GateKind

variable {kind : GateKind} {output : Literal} {inputs : List Literal} {clause : Clause}

theorem sublist_of_mem_clauses (member : clause ∈ kind.clauses output inputs) :
    (clause.map Int.natAbs).Sublist ((inputs ++ [output]).map Int.natAbs) := by
  have single : ∀ {input : Literal} {literals : List Literal}, input ∈ inputs →
      literals.map Int.natAbs = [input, output].map Int.natAbs →
        (literals.map Int.natAbs).Sublist ((inputs ++ [output]).map Int.natAbs) := by
    intro input literals inputMember same
    rw [same]
    exact ((List.singleton_sublist.mpr inputMember).append_right [output]).map _
  unfold clauses at member
  split at member
  · rcases List.mem_cons.mp member with rfl | binary
    · simp [Function.comp_def]
    · obtain ⟨input, inputMember, rfl⟩ := List.mem_map.mp binary
      exact single inputMember (by simp)
  · rcases List.mem_cons.mp member with rfl | binary
    · simp
    · obtain ⟨input, inputMember, rfl⟩ := List.mem_map.mp binary
      exact single inputMember (by simp)
  · simp only [Encode.negationClauses, List.mem_cons, List.not_mem_nil, or_false] at member
    rcases member with rfl | rfl <;> simp
  · simp only [Encode.choiceClauses, List.mem_cons, List.not_mem_nil, or_false] at member
    rcases member with rfl | rfl | rfl | rfl <;> simp
  · cases member

end GateKind

theorem Bit.Reduced.nodup {bit : Bit} (reduced : bit.Reduced) :
    (bit.operands.map Bit.label).Nodup := by
  cases bit with
  | const value => exact List.nodup_nil
  | var label => exact List.nodup_nil
  | and label operands => exact List.pairwise_map.mpr (reduced.2.1.imp fun below => below.ne)
  | or label operands => exact List.pairwise_map.mpr (reduced.2.1.imp fun below => below.ne)
  | not label operand => exact List.nodup_singleton _
  | ite label condition thenBit elseBit =>
      simpa [Bit.operands, Bit.Reduced, and_assoc] using reduced

/-- The layout of clauses over `primary` variables that say that some roots hold. -/
structure Cnf.Layout (primary : Nat) (roots gates : List Bit) (name : Bit → Literal) (cnf : Cnf) :
    Prop where
  /-- The gates that have variables are the roots that are no conjunctions, the operands of the
  roots that are, and whatever these use. -/
  mem_gates : ∀ gate, gate ∈ gates ↔ gate ∈ Bit.gatesUsedBy (roots.flatMap Bit.asserted)
  nodup : gates.Nodup
  name_var : ∀ label, name (.var label) = label
  /-- Every gate has one variable of its own, after the primary ones and without a gap. -/
  name_gates : gates.map name =
    (List.range gates.length).map fun position : Nat => (primary : Int) + 1 + position
  older : ∀ gate ∈ gates, ∀ operand ∈ gate.operands, name operand < name gate
  clauses : cnf.clauses.toList.Perm
    (gates.flatMap (Bit.definition name) ++ roots.flatMap (Bit.assertion name))
  variableCount : cnf.variableCount = primary + gates.length
  clauseCount : cnf.clauseCount =
    (gates.map Bit.definitionSize).sum + (roots.map Bit.assertionSize).sum
  bounded : ∀ clause ∈ cnf.clauses, ∀ literal ∈ clause,
    literal ≠ 0 ∧ literal.natAbs ≤ cnf.variableCount
  distinct : ∀ clause ∈ cnf.clauses, (clause.map Int.natAbs).Nodup

private theorem toNat_emod {primary count size : Nat} (small : primary < size)
    (fits : 0 < count → Int.bmod primary size = primary ∧ primary + count < size) :
    ((Int.bmod primary size + 1 + count - 1) % size).toNat = primary + count := by
  rcases Nat.eq_zero_or_pos count with rfl | positive
  · rw [Nat.cast_zero, add_zero, add_sub_cancel_right, Int.bmod_emod, ← Int.natCast_mod,
      Int.toNat_natCast, Nat.mod_eq_of_lt small, add_zero]
  · obtain ⟨same, bounded⟩ := fits positive
    have sum : Int.bmod primary size + 1 + count - 1 = ((primary + count : Nat) : Int) := by
      rw [same]
      push_cast
      ring
    rw [sum, ← Int.natCast_mod, Int.toNat_natCast, Nat.mod_eq_of_lt bounded]

namespace Encoding

variable {circuit : Circuit} {encoding : Encoding} {gates : List Bit} {units : List Clause}
  {bit : Bit}

/-- Where there is a variable or a gate, the last variable's label is the number of variables. -/
theorem Named.lastVariable_eq (named : Named circuit gates bit) (valid : circuit.Valid)
    (counted : circuit.primary < UInt32.size) :
    Bit.lastVariable circuit.primary = circuit.primary :=
  Bit.lastVariable_eq_of_pos counted (named.known.lastVariable_pos valid named.label_pos)

namespace Lists

theorem name_cases (lists : encoding.Lists circuit gates units) (valid : circuit.Valid)
    (counted : circuit.primary < UInt32.size) (named : Named circuit gates bit) :
    (encoding.name bit = bit.label ∧ 0 < bit.label ∧ bit.label ≤ circuit.primary) ∨
      ∃ position : Nat, gates[position]? = some bit ∧
        encoding.name bit = (circuit.primary : Int) + 1 + position := by
  have last := named.lastVariable_eq valid counted
  cases isKind : bit.kind? with
  | none =>
      have bounded := named.label_le_of_leaf isKind
      rw [last] at bounded
      exact .inl ⟨name_leaf isKind, named.label_pos, bounded⟩
  | some kind =>
      obtain ⟨position, found⟩ := List.getElem?_of_mem (named.listed (by rw [isKind]; rfl))
      exact .inr ⟨position, found, by rw [lists.name_of_getElem? found, last]⟩

theorem name_bounds (lists : encoding.Lists circuit gates units) (valid : circuit.Valid)
    (counted : circuit.primary < UInt32.size) (named : Named circuit gates bit) :
    0 < encoding.name bit ∧ encoding.name bit ≤ circuit.primary + gates.length := by
  rcases lists.name_cases valid counted named with
    ⟨same, positive, bounded⟩ | ⟨position, found, same⟩
  · lia
  · have := (List.getElem?_eq_some_iff.mp found).1
    lia

theorem name_inj (lists : encoding.Lists circuit gates units) (valid : circuit.Valid)
    (counted : circuit.primary < UInt32.size) {left right : Bit}
    (leftNamed : Named circuit gates left) (rightNamed : Named circuit gates right)
    (same : encoding.name left = encoding.name right) : left = right := by
  rcases lists.name_cases valid counted leftNamed with
    ⟨leftName, -, below⟩ | ⟨position, found, leftName⟩ <;>
  rcases lists.name_cases valid counted rightNamed with
    ⟨rightName, -, below'⟩ | ⟨position', found', rightName⟩
  · exact leftNamed.known.eq_of_label valid rightNamed.known (by lia)
  · lia
  · lia
  · obtain rfl : position = position' := by lia
    exact Option.some.inj (found.symm.trans found')

theorem map_name (lists : encoding.Lists circuit gates units) (valid : circuit.Valid)
    (counted : circuit.primary < UInt32.size) : gates.map encoding.name =
      (List.range gates.length).map fun position : Nat =>
        (circuit.primary : Int) + 1 + position := by
  refine List.ext_getElem (by simp) fun position bounded _ => ?_
  rw [List.length_map] at bounded
  have found : gates[position]? = some gates[position] := List.getElem?_eq_getElem bounded
  have named := lists.named_of_mem valid (List.mem_of_getElem? found)
  have last := named.lastVariable_eq valid counted
  rw [List.getElem_map, List.getElem_map, List.getElem_range, lists.name_of_getElem? found, last]

theorem nodup (lists : encoding.Lists circuit gates units) (valid : circuit.Valid)
    (counted : circuit.primary < UInt32.size) : gates.Nodup := by
  apply List.Nodup.of_map encoding.name
  rw [lists.map_name valid counted]
  exact List.nodup_range.map fun position position' same => by lia

theorem length_le (lists : encoding.Lists circuit gates units) (valid : circuit.Valid)
    (counted : circuit.primary < UInt32.size) : gates.length ≤ circuit.gateCount := by
  rw [← Circuit.length_gateList]
  refine (List.subperm_of_subset (lists.nodup valid counted) fun gate member => ?_).length_le
  obtain ⟨known, isGate⟩ := lists.known gate member
  cases known with
  | const value => cases isGate
  | var positive bounded => cases isGate
  | gate isKind stored => exact Circuit.mem_gateList.mpr ⟨_, stored⟩

theorem last_eq (lists : encoding.Lists circuit gates units) (valid : circuit.Valid)
    (counted : circuit.primary < UInt32.size) (labelled : circuit.checkLabels? = .ok ()) :
    (((encoding.next : Int) - 1) % UInt32.size).toNat = circuit.primary + gates.length := by
  rw [lists.next_eq]
  refine toNat_emod counted fun positive => ?_
  have named := lists.named_of_mem valid (List.getElem_mem positive)
  have last := named.lastVariable_eq valid counted
  refine ⟨last, ?_⟩
  have length := lists.length_le valid counted
  rw [Circuit.checkLabels?] at labelled
  split at labelled
  · rename_i bounded
    rw [Circuit.nextLabel, last, Circuit.maxLabel] at bounded
    have size : UInt32.size = 4294967296 := by decide
    omega
  · cases labelled

end Lists

theorem nodup_operands (valid : circuit.Valid) (known : circuit.Knows bit)
    (isGate : bit.kind?.isSome = true) : (bit.operands ++ [bit]).Nodup := by
  have below := known.operands valid
  have reduced : bit.Reduced := by
    cases known with
    | const value => cases isGate
    | var positive bounded => cases isGate
    | gate isKind stored => exact (valid.placed stored).reduced
  refine List.nodup_append.mpr ⟨.of_map Bit.label reduced.nodup, List.nodup_singleton _, ?_⟩
  intro operand member other isBit same
  rw [List.mem_singleton.mp isBit] at same
  exact (below operand member).2.2.ne (congrArg Bit.label same)

theorem Follows.exists_bits {roots : List Bit} (valid : circuit.Valid)
    (follows : encoding.Follows circuit (roots.flatMap Bit.asserted) [] gates
      (roots.flatMap (Bit.assertion encoding.name)))
    {clause : Clause} (member : clause ∈ encoding.cnf.clauses) :
    ∃ bits : List Bit, bits.Nodup ∧ (∀ bit ∈ bits, Named circuit gates bit) ∧
      (clause.map Int.natAbs).Sublist (bits.map fun bit => (encoding.name bit).natAbs) := by
  have lists := follows.lists
  rw [← Array.mem_toList_iff, lists.clauses.mem_iff, List.mem_append, List.mem_flatMap,
    List.mem_flatMap] at member
  rcases member with ⟨gate, gateMember, defining⟩ | ⟨root, rootMember, asserting⟩
  · obtain ⟨known, isGate⟩ := lists.known gate gateMember
    obtain ⟨kind, isKind⟩ := Option.isSome_iff_exists.mp isGate
    refine ⟨gate.operands ++ [gate], nodup_operands valid known isGate, ?_, ?_⟩
    · rw [List.forall_mem_append, List.forall_mem_singleton]
      exact ⟨fun operand operandMember => (lists.operands gate gateMember operand operandMember).1,
        lists.named_of_mem valid gateMember⟩
    · rw [Bit.definition, isKind] at defining
      have sublist := GateKind.sublist_of_mem_clauses defining
      rw [List.map_append, List.map_map] at sublist
      rw [List.map_append]
      exact sublist
  · by_cases impossible : root = .const false
    · rw [impossible] at asserting
      rw [List.mem_singleton.mp asserting]
      exact ⟨[], List.nodup_nil, List.forall_mem_nil _, List.nil_sublist _⟩
    · rw [Bit.assertion_of_ne impossible] at asserting
      obtain ⟨bit, bitMember, rfl⟩ := List.mem_map.mp asserting
      refine ⟨[bit], List.nodup_singleton bit, ?_, .refl _⟩
      rw [List.forall_mem_singleton]
      exact follows.named bit (List.mem_flatMap.mpr ⟨root, rootMember, bitMember⟩)

theorem Follows.layout {roots : List Bit} (valid : circuit.Valid)
    (counted : circuit.primary < UInt32.size)
    (follows : encoding.Follows circuit (roots.flatMap Bit.asserted) [] gates
      (roots.flatMap (Bit.assertion encoding.name))) :
    Cnf.Layout circuit.primary roots gates encoding.name
      ⟨circuit.primary + gates.length, encoding.cnf.clauses⟩ where
  mem_gates gate := by
    constructor
    · intro member
      exact ⟨(follows.used gate member).resolve_left List.not_mem_nil,
        (follows.lists.known gate member).2⟩
    · rintro ⟨used, isGate⟩
      have named : Bit.usedBy (roots.flatMap Bit.asserted) ⊆ {bit | Named circuit gates bit} := by
        refine Bit.usedBy_subset follows.named fun bit named operand member => ?_
        have listed := named.listed (Bit.kind?_isSome_of_operand member)
        exact (follows.lists.operands bit listed operand member).1
      exact (named used).listed isGate
  nodup := follows.lists.nodup valid counted
  name_var label := rfl
  name_gates := follows.lists.map_name valid counted
  older gate member operand operandMember :=
    (follows.lists.operands gate member operand operandMember).2
  clauses := follows.lists.clauses
  variableCount := rfl
  clauseCount := by
    have sizes := follows.lists.clauses.length_eq
    simpa [Cnf.clauseCount, List.length_flatMap, Bit.length_definition, Bit.length_assertion]
      using sizes
  bounded clause member literal literalMember := by
    obtain ⟨bits, -, named, sublist⟩ := follows.exists_bits valid member
    obtain ⟨bit, bitMember, same⟩ :=
      List.mem_map.mp (sublist.mem (List.mem_map_of_mem literalMember))
    have := follows.lists.name_bounds valid counted (named bit bitMember)
    constructor
    · lia
    · lia
  distinct clause member := by
    obtain ⟨bits, distinct, named, sublist⟩ := follows.exists_bits valid member
    refine sublist.nodup (List.Nodup.map_on ?_ distinct)
    intro left leftMember right rightMember same
    have leftBounds := follows.lists.name_bounds valid counted (named left leftMember)
    have rightBounds := follows.lists.name_bounds valid counted (named right rightMember)
    exact follows.lists.name_inj valid counted (named left leftMember) (named right rightMember)
      (by lia)

end Encoding

namespace Cnf

variable {primary width : Nat} {circuit : Circuit} {made roots : List Bit}
  {performed : List (Task × Except Error Value)}

/-- As long as labels have not run out, the clauses of some roots are laid out like this, in
whatever way the roots share the gates below them. -/
theorem layout_ofRoots (history : Circuit.History primary width circuit made performed)
    (counted : primary < UInt32.size) (labelled : circuit.checkLabels? = .ok ())
    (chosen : roots ⊆ made) :
    ∃ gates name, Layout primary roots gates name (ofRoots primary roots) := by
  obtain ⟨valid, rfl, known⟩ := history.sound
  have rootsKnown := fun root member => known root (chosen member)
  obtain ⟨gates, follows⟩ := Encode.assertRoots_lists valid rootsKnown (.start circuit)
  have exactly := Encode.assertRoots_exact valid rootsKnown (Encoding.exact_start circuit)
  rw [ofRoots, StateT.run]
  generalize (roots.forM Encode.assertRoot _).2 = encoding at follows exactly ⊢
  have last := follows.lists.last_eq valid counted labelled
  have bounded := exactly.bounded (circuit.primary + gates.length) (by omega) (by
    rw [follows.lists.next_eq]
    have := Bit.lastVariable_le circuit.primary
    push_cast
    lia)
  have count : Nat.max encoding.cnf.variableCount
      (((encoding.next : Int) - 1) % UInt32.size).toNat = circuit.primary + gates.length := by
    rw [last]
    exact Nat.max_eq_right bounded
  rw [count]
  exact ⟨gates, _, follows.layout valid counted⟩

theorem layout_ofRoots_not_both : ∃ gates name,
    Layout 2 [.not 4 (.and 3 [.var 1, .var 2]), .var 1] gates name
      (ofRoots 2 [.not 4 (.and 3 [.var 1, .var 2]), .var 1]) := by
  have last : Bit.lastVariable 2 = 2 := Bit.lastVariable_of_lt (by decide)
  have next : (Circuit.empty 2 1).nextLabel = 3 := by
    simp [Circuit.nextLabel, Circuit.gateCount, Circuit.empty, last]
  obtain ⟨circuit, _, _, history, member, kept, grown⟩ :=
    Circuit.History.two_variables.not_both (by simp) (by simp [Circuit.empty])
      (by simp [Circuit.empty])
  rw [next] at member grown
  have labelled : circuit.checkLabels? = .ok () := by
    rw [Circuit.checkLabels?, if_pos (by rw [grown]; decide)]
  exact layout_ofRoots history (by decide) labelled
    (List.cons_subset.mpr ⟨member, List.cons_subset.mpr ⟨kept (by simp), by simp⟩⟩)

end Cnf

end ModelFinder
