import Mathlib
import ModelFinder.Proofs.Circuit.History
import ModelFinder.Proofs.Cnf.Gates
import ModelFinder.Proofs.Cnf.Roots
/-!
The clauses of some roots depend on the shape of the circuit below them, and not on its labels.

Two encodings are run side by side, of roots of one shape in two circuits. A step of one goes with
the same step of the other: both have made the same clauses and handed out the same variables, and a
gate has a variable on the left if its counterpart has that variable on the right.
-/

namespace ModelFinder

/-- Bits of one circuit are built like bits of another one: the gates that they use correspond to
each other, one to one, and counterparts are of one kind and have counterparts as operands, in the
same order. Constants and variables are their own counterparts. -/
structure Bit.SameShape (counterpart : Bit → Bit) (left right : List Bit) : Prop where
  bijective : Set.BijOn counterpart (gatesUsedBy left) (gatesUsedBy right)
  kind_eq : ∀ gate ∈ gatesUsedBy left, (counterpart gate).kind? = gate.kind?
  operands_eq : ∀ gate ∈ gatesUsedBy left,
    (counterpart gate).operands = gate.operands.map counterpart
  leaf_eq : ∀ leaf ∈ usedBy left, leaf.kind? = none → counterpart leaf = leaf
  roots_eq : right = left.map counterpart

/-- Two encodings with the same clauses and variables. Gates of a set have the variables that their
counterparts have. -/
structure Encoding.Paired (counterpart : Bit → Bit) (gates : Set Bit) (left right : Encoding) :
    Prop where
  cnf_eq : left.cnf = right.cnf
  next_eq : left.next = right.next
  truth_eq : left.truth = right.truth
  variable_eq : ∀ gate ∈ gates,
    left.gateVariables[gate.label]? = right.gateVariables[(counterpart gate).label]?

namespace Encode

/-- Two computations do the same to paired encodings. -/
def Parallel {α : Type} (counterpart : Bit → Bit) (gates : Set Bit) (first second : Encode α) :
    Prop :=
  ∀ left right : Encoding, left.Paired counterpart gates right →
    (first left).1 = (second right).1 ∧ (first left).2.Paired counterpart gates (second right).2

def Separates (counterpart : Bit → Bit) (gates : Set Bit) : Prop :=
  ∀ gate ∈ gates, ∀ other ∈ gates,
    gate.label = other.label ↔ (counterpart gate).label = (counterpart other).label

namespace Parallel

variable {α β : Type} {counterpart : Bit → Bit} {gates : Set Bit}

theorem pure (value : α) :
    Parallel counterpart gates (Pure.pure value : Encode α) (Pure.pure value) :=
  fun _ _ paired => ⟨rfl, paired⟩

theorem bind {first second : Encode α} {next next' : α → Encode β}
    (parallel : Parallel counterpart gates first second)
    (after : ∀ value, Parallel counterpart gates (next value) (next' value)) :
    Parallel counterpart gates (first >>= next) (second >>= next') := by
  intro left right paired
  obtain ⟨same, pairedAfter⟩ := parallel left right paired
  change (next (first left).1 (first left).2).1 = (next' (second right).1 (second right).2).1 ∧
    (next (first left).1 (first left).2).2.Paired counterpart gates
      (next' (second right).1 (second right).2).2
  rw [← same]
  exact after _ _ _ pairedAfter

theorem emit (clause : Clause) :
    Parallel counterpart gates (Encode.emit clause) (Encode.emit clause) :=
  fun _ _ paired => ⟨rfl, congrArg (Cnf.add · clause) paired.cnf_eq, paired.next_eq,
    paired.truth_eq, paired.variable_eq⟩

theorem defined (clauses : Literal → List Clause) :
    Parallel counterpart gates (Encode.defined clauses) (Encode.defined clauses) := by
  intro left right paired
  rw [defined_run, defined_run, paired.cnf_eq, paired.next_eq]
  exact ⟨rfl, rfl, rfl, paired.truth_eq, paired.variable_eq⟩

theorem truth : Parallel counterpart gates Encode.truth Encode.truth := by
  intro left right paired
  rw [truth_run, truth_run, ← paired.truth_eq]
  cases left.truth with
  | some output => exact ⟨rfl, paired⟩
  | none =>
      dsimp only
      rw [paired.cnf_eq, paired.next_eq]
      exact ⟨rfl, rfl, rfl, rfl, paired.variable_eq⟩

theorem named (separates : Separates counterpart gates) {gate : Bit} (member : gate ∈ gates)
    {define define' : Encode Literal} (defines : Parallel counterpart gates define define') :
    Parallel counterpart gates (Encode.named gate.label define)
      (Encode.named (counterpart gate).label define') := by
  intro left right paired
  rw [named_run, named_run, ← paired.variable_eq gate member]
  cases left.gateVariables[gate.label]? with
  | some output => exact ⟨rfl, paired⟩
  | none =>
      obtain ⟨same, after⟩ := defines left right paired
      refine ⟨same, after.cnf_eq, after.next_eq, after.truth_eq, fun other otherMember => ?_⟩
      dsimp only
      rw [same, Std.ExtTreeMap.getElem?_insert, Std.ExtTreeMap.getElem?_insert,
        after.variable_eq other otherMember]
      simp only [Std.LawfulEqCmp.compare_eq_iff_eq, separates gate member other otherMember]

end Parallel

/-! Bits and their counterparts -/

section

variable {counterpart : Bit → Bit} {left right : List Bit}

theorem literals_parallel {gates : Set Bit} {bits : List Bit}
    (each : ∀ bit ∈ bits, Parallel counterpart gates (literal bit) (literal (counterpart bit))) :
    Parallel counterpart gates (literals bits) (literals (bits.map counterpart)) := by
  induction bits with
  | nil => exact .pure []
  | cons bit rest hypothesis =>
      rw [List.forall_mem_cons] at each
      exact each.1.bind fun _ => (hypothesis each.2).bind fun _ => .pure _

theorem assertAll_parallel {gates : Set Bit} {bits : List Bit}
    (each : ∀ bit ∈ bits, Parallel counterpart gates (literal bit) (literal (counterpart bit))) :
    Parallel counterpart gates (assertAll bits) (assertAll (bits.map counterpart)) := by
  induction bits with
  | nil => exact .pure ()
  | cons bit rest hypothesis =>
      rw [List.forall_mem_cons] at each
      exact each.1.bind fun output => (Parallel.emit [output]).bind fun _ => hypothesis each.2

theorem literal_parallel (shape : Bit.SameShape counterpart left right)
    (separates : Separates counterpart (Bit.gatesUsedBy left)) {circuit : Circuit}
    (valid : circuit.Valid) {bit : Bit} (known : circuit.Knows bit)
    (member : bit ∈ Bit.usedBy left) :
    Parallel counterpart (Bit.gatesUsedBy left) (literal bit) (literal (counterpart bit)) := by
  revert member
  refine Circuit.Knows.induction valid ?_ ?_ ?_ known
  · intro value member
    rw [shape.leaf_eq _ member rfl, literal]
    exact Parallel.truth.bind fun output => .pure _
  · intro label _ _ member
    rw [shape.leaf_eq _ member rfl, literal]
    exact .pure _
  · intro kind gate isKind _ hypothesis member
    have gateMember : gate ∈ Bit.gatesUsedBy left := ⟨member, by rw [isKind]; rfl⟩
    have sameKind : (counterpart gate).kind? = some kind :=
      (shape.kind_eq gate gateMember).trans isKind
    rw [literal_gate isKind, literal_gate sameKind, shape.operands_eq gate gateMember]
    refine Parallel.named separates gateMember (Parallel.bind (literals_parallel ?_) fun _ => ?_)
    · exact fun operand operandMember =>
        hypothesis operand operandMember (Bit.mem_usedBy_of_operand member operandMember)
    · exact Parallel.defined _

theorem asserted_counterpart (shape : Bit.SameShape counterpart left right) {root : Bit}
    (member : root ∈ Bit.usedBy left) :
    (counterpart root).asserted = root.asserted.map counterpart := by
  cases isKind : root.kind? with
  | none =>
      have fixed := shape.leaf_eq root member isKind
      rw [fixed]
      cases root with
      | const value => rfl
      | var label => exact congrArg (fun bit => [bit]) fixed.symm
      | _ => cases isKind
  | some kind =>
      have gateMember : root ∈ Bit.gatesUsedBy left := ⟨member, by rw [isKind]; rfl⟩
      have sameKind := (shape.kind_eq root gateMember).trans isKind
      rw [Bit.asserted_of_kind? isKind, Bit.asserted_of_kind? sameKind,
        shape.operands_eq root gateMember]
      split <;> rfl

theorem assertRoot_parallel (shape : Bit.SameShape counterpart left right)
    (separates : Separates counterpart (Bit.gatesUsedBy left)) {circuit : Circuit}
    (valid : circuit.Valid) {root : Bit} (known : circuit.Knows root) (member : root ∈ left) :
    Parallel counterpart (Bit.gatesUsedBy left) (assertRoot root)
      (assertRoot (counterpart root)) := by
  have used := Bit.mem_usedBy_of_mem member
  have asserted : Parallel counterpart (Bit.gatesUsedBy left) (assertAll root.asserted)
      (assertAll (counterpart root).asserted) := by
    rw [asserted_counterpart shape used]
    refine assertAll_parallel fun bit bitMember => ?_
    have uses := Bit.uses_of_asserted bitMember
    exact literal_parallel shape separates valid (known.uses valid uses) ⟨root, member, uses⟩
  by_cases impossible : root = .const false
  · rw [shape.leaf_eq root used (by rw [impossible]; rfl), impossible]
    exact .emit []
  · have possible : counterpart root ≠ .const false := by
      intro isFalse
      cases isKind : root.kind? with
      | none => exact impossible ((shape.leaf_eq root used isKind).symm.trans isFalse)
      | some kind =>
          have sameKind := shape.kind_eq root ⟨used, by rw [isKind]; rfl⟩
          rw [isFalse, isKind] at sameKind
          cases sameKind
    rw [assertRoot_eq impossible, assertRoot_eq possible]
    exact asserted

theorem assertRoots_parallel {gates : Set Bit} {roots : List Bit}
    (each : ∀ root ∈ roots,
      Parallel counterpart gates (assertRoot root) (assertRoot (counterpart root))) :
    Parallel counterpart gates (roots.forM assertRoot)
      ((roots.map counterpart).forM assertRoot) := by
  induction roots with
  | nil => exact .pure ()
  | cons root rest hypothesis =>
      rw [List.forall_mem_cons] at each
      exact each.1.bind fun _ => hypothesis each.2

end

end Encode

namespace Cnf

variable {primary width width' : Nat} {circuit circuit' : Circuit} {made made' : List Bit}
  {performed performed' : List (Task × Except Error Value)}

theorem separates_of_sameShape {counterpart : Bit → Bit} {left right : List Bit}
    (shape : Bit.SameShape counterpart left right) (valid : circuit.Valid)
    (valid' : circuit'.Valid) (known : ∀ root ∈ left, circuit.Knows root)
    (known' : ∀ root ∈ right, circuit'.Knows root) :
    Encode.Separates counterpart (Bit.gatesUsedBy left) := by
  have knows : ∀ bit ∈ Bit.usedBy left, circuit.Knows bit := by
    rintro bit ⟨root, member, uses⟩
    exact (known root member).uses valid uses
  have knows' : ∀ bit ∈ Bit.usedBy right, circuit'.Knows bit := by
    rintro bit ⟨root, member, uses⟩
    exact (known' root member).uses valid' uses
  intro gate member other otherMember
  constructor
  · intro same
    rw [(knows gate member.1).eq_of_label valid (knows other otherMember.1) same]
  · intro same
    have equal := (knows' _ (shape.bijective.mapsTo member).1).eq_of_label valid'
      (knows' _ (shape.bijective.mapsTo otherMember).1) same
    rw [shape.bijective.injOn member otherMember equal]

def notBothRoots (label : Int) : List Bit :=
  [.not (label + 1) (.and label [.var 1, .var 2]), .var 1]

theorem usedBy_notBothRoots (label : Int) : Bit.usedBy (notBothRoots label) =
    {.not (label + 1) (.and label [.var 1, .var 2]), .and label [.var 1, .var 2], .var 1,
      .var 2} := by
  apply Set.Subset.antisymm
  · apply Bit.usedBy_subset
    · simp [notBothRoots]
    · simp [Bit.operands]
  · have top : Bit.not (label + 1) (.and label [.var 1, .var 2]) ∈
        Bit.usedBy (notBothRoots label) := Bit.mem_usedBy_of_mem (List.mem_cons_self ..)
    have below := Bit.mem_usedBy_of_operand top (List.mem_singleton_self _)
    simp only [Set.insert_subset_iff, Set.singleton_subset_iff]
    exact ⟨top, below, Bit.mem_usedBy_of_operand below (by simp [Bit.operands]),
      Bit.mem_usedBy_of_operand below (by simp [Bit.operands])⟩

theorem gatesUsedBy_notBothRoots (label : Int) : Bit.gatesUsedBy (notBothRoots label) =
    {.not (label + 1) (.and label [.var 1, .var 2]), .and label [.var 1, .var 2]} := by
  rw [Bit.gatesUsedBy, usedBy_notBothRoots]
  ext bit
  constructor
  · rintro ⟨rfl | rfl | rfl | rfl, isGate⟩
    · simp
    · simp
    · cases isGate
    · cases isGate
  · rintro (rfl | rfl)
    · exact ⟨by simp, rfl⟩
    · exact ⟨by simp, rfl⟩

def relabelled (label : Int) : Bit → Bit
  | .not _ _ => .not (label + 1) (.and label [.var 1, .var 2])
  | .and _ _ => .and label [.var 1, .var 2]
  | bit => bit

theorem sameShape_notBothRoots (label label' : Int) :
    Bit.SameShape (relabelled label') (notBothRoots label) (notBothRoots label') where
  bijective := by
    rw [gatesUsedBy_notBothRoots, gatesUsedBy_notBothRoots]
    refine ⟨?_, ?_, ?_⟩
    · simp [Set.MapsTo, relabelled]
    · simp [Set.InjOn, relabelled]
    · simp [Set.SurjOn, Set.image_insert_eq, relabelled]
  kind_eq := by
    rw [gatesUsedBy_notBothRoots]
    simp [relabelled, Bit.kind?]
  operands_eq := by
    rw [gatesUsedBy_notBothRoots]
    simp [relabelled, Bit.operands]
  leaf_eq := by
    rw [usedBy_notBothRoots]
    simp [relabelled, Bit.kind?]
  roots_eq := rfl

/-- Clauses depend on shape only. Two circuits over as many variables may have labelled their gates
in any order, and may have gates that the roots do not use. If the roots are of the same shape, the
clauses are the same, one by one and literal by literal. -/
theorem ofRoots_eq_of_sameShape (first : Circuit.History primary width circuit made performed)
    (second : Circuit.History primary width' circuit' made' performed') {left right : List Bit}
    (chosen : left ⊆ made) (chosen' : right ⊆ made') {counterpart : Bit → Bit}
    (shape : Bit.SameShape counterpart left right) :
    ofRoots primary left = ofRoots primary right := by
  have sound := first.sound
  have sound' := second.sound
  have known : ∀ root ∈ left, circuit.Knows root := fun root member =>
    sound.known root (chosen member)
  have known' : ∀ root ∈ right, circuit'.Knows root := fun root member =>
    sound'.known root (chosen' member)
  have separates := separates_of_sameShape shape sound.valid sound'.valid known known'
  have parallel := Encode.assertRoots_parallel fun root member =>
    Encode.assertRoot_parallel shape separates sound.valid (known root member) member
  rw [← shape.roots_eq] at parallel
  obtain ⟨-, paired⟩ := parallel ⟨⟨primary, #[]⟩, Bit.lastVariable primary + 1, ∅, none⟩
    ⟨⟨primary, #[]⟩, Bit.lastVariable primary + 1, ∅, none⟩ ⟨rfl, rfl, rfl, by simp⟩
  simp only [ofRoots, StateT.run, paired.cnf_eq, paired.next_eq]

/-- A disjunction that is made first moves the labels of the gates after it, and no clause. -/
theorem ofRoots_eq_after_disjunction :
    ofRoots 2 (notBothRoots 3) = ofRoots 2 (notBothRoots 4) := by
  have last : Bit.lastVariable 2 = 2 := Bit.lastVariable_of_lt (by decide)
  have next : (Circuit.empty 2 1).nextLabel = 3 := by
    simp [Circuit.nextLabel, Circuit.gateCount, Circuit.empty, last]
  have started := Circuit.History.two_variables
  obtain ⟨_, _, _, first, member, kept, -⟩ := started.not_both (by simp)
    (by simp [Circuit.empty]) (by simp [Circuit.empty])
  have disjunction : (Operation.any [.var 1, .var 2]).build =
      Build.intern .or [.var 1, .var 2] (.or · [.var 1, .var 2]) := by rfl
  have new : (Circuit.empty 2 1).gates[GateKind.or.key [.var 1, .var 2]]? = none := by
    simp [Circuit.empty]
  obtain ⟨_, either⟩ := started.gate _ (by simp [Operation.inputs]) disjunction new
  obtain ⟨_, _, _, second, member', kept', -⟩ := either.not_both (by simp)
    (by simp [Circuit.addGate, Circuit.empty, GateKind.key, GateKind.code])
    (by simp [Circuit.addGate, Circuit.empty, GateKind.key, GateKind.code])
  rw [next] at member
  rw [Circuit.nextLabel_addGate new, next] at member'
  refine ofRoots_eq_of_sameShape first second ?_ ?_ (sameShape_notBothRoots 3 4)
  · exact List.cons_subset.mpr ⟨member, List.cons_subset.mpr ⟨kept (by simp), by simp⟩⟩
  · exact List.cons_subset.mpr ⟨member', List.cons_subset.mpr ⟨kept' (by simp), by simp⟩⟩

end Cnf

end ModelFinder
