import Mathlib
import ModelFinder.Proofs.Circuit.Regularity
import ModelFinder.Proofs.Cnf.Gates
import ModelFinder.Proofs.Cnf.Roots
/-!
Which variables and which clauses the clauses of some roots consist of.

`Encoding.Lists` is the invariant of an encoding in progress. The gates met so far are listed in the
order of their variables, every gate after its operands, and the clauses are those that define these
gates and those that assert something. A computation adds further gates at the end of the list, so
gates that were listed before keep their variables.
-/

namespace ModelFinder

/-! What the clauses of a gate and of a root are -/

namespace Bit

def definition (name : Bit → Literal) (gate : Bit) : List Clause :=
  match gate.kind? with
  | some kind => kind.clauses (name gate) (gate.operands.map name)
  | none => []

def assertion (name : Bit → Literal) : Bit → List Clause
  | .const false => [[]]
  | root => root.asserted.map fun bit => [name bit]

def definitionSize (gate : Bit) : Nat :=
  match gate.kind? with
  | some .and | some .or => gate.operands.length + 1
  | some .not => 2
  | some .ite => 4
  | none => 0

def assertionSize : Bit → Nat
  | .const true => 0
  | .const false => 1
  | .and _ operands => operands.length
  | _ => 1

theorem length_definition (name : Bit → Literal) (gate : Bit) :
    (gate.definition name).length = gate.definitionSize := by
  cases gate with
  | and label operands =>
      simp [definition, definitionSize, kind?, Bit.operands, GateKind.clauses,
        Encode.conjunctionClauses]
  | or label operands =>
      simp [definition, definitionSize, kind?, Bit.operands, GateKind.clauses,
        Encode.disjunctionClauses]
  | _ => rfl

theorem length_assertion (name : Bit → Literal) (root : Bit) :
    (root.assertion name).length = root.assertionSize := by
  cases root with
  | const value => cases value <;> rfl
  | and label operands => simp [assertion, assertionSize, asserted]
  | _ => rfl

theorem assertion_of_ne {root : Bit} (possible : root ≠ .const false) (name : Bit → Literal) :
    root.assertion name = root.asserted.map fun bit => [name bit] := by
  cases root with
  | const value =>
      cases value with
      | true => rfl
      | false => exact absurd rfl possible
  | _ => rfl

variable {name name' : Bit → Literal}

theorem definition_congr {gate : Bit} (same : name gate = name' gate)
    (operands : ∀ operand ∈ gate.operands, name operand = name' operand) :
    gate.definition name = gate.definition name' := by
  rw [definition, definition, same, List.map_congr_left operands]

theorem assertion_congr {root : Bit} (same : ∀ bit ∈ root.asserted, name bit = name' bit) :
    root.assertion name = root.assertion name' := by
  by_cases impossible : root = .const false
  · rw [impossible]
    rfl
  · rw [assertion_of_ne impossible, assertion_of_ne impossible]
    exact List.map_congr_left fun bit member => by rw [same bit member]

end Bit

theorem Cnf.clauses_addAll (cnf : Cnf) (clauses : List Clause) :
    (cnf.addAll clauses).clauses.toList = cnf.clauses.toList ++ clauses := by
  induction clauses generalizing cnf with
  | nil => rw [List.append_nil, addAll, List.foldl_nil]
  | cons clause rest hypothesis =>
      have step : cnf.addAll (clause :: rest) = (cnf.add clause).addAll rest := rfl
      rw [step, hypothesis, add, Array.toList_push, List.append_assoc, List.singleton_append]

namespace Encoding

variable {circuit : Circuit} {encoding before after : Encoding} {gates listed : List Bit}
  {units units' : List Clause} {bit : Bit}

/-- The literal of a bit: a gate has the variable that it was given, and variables stand for
themselves. -/
def name (encoding : Encoding) (bit : Bit) : Literal :=
  match bit.kind? with
  | none => bit.label
  | some _ => encoding.gateVariables[bit.label]?.getD 0

theorem name_leaf (isLeaf : bit.kind? = none) : encoding.name bit = bit.label := by
  rw [name, isLeaf]

theorem name_gate (isGate : bit.kind?.isSome = true) :
    encoding.name bit = encoding.gateVariables[bit.label]?.getD 0 := by
  obtain ⟨kind, isKind⟩ := Option.isSome_iff_exists.mp isGate
  rw [name, isKind]

structure Named (circuit : Circuit) (gates : List Bit) (bit : Bit) : Prop where
  known : circuit.Knows bit
  label_pos : 0 < bit.label
  listed : bit.kind?.isSome = true → bit ∈ gates

theorem Named.mono (named : Named circuit gates bit) (grown : gates ⊆ listed) :
    Named circuit listed bit :=
  ⟨named.known, named.label_pos, fun isGate => grown (named.listed isGate)⟩

theorem Named.label_le_of_leaf (named : Named circuit gates bit) (isLeaf : bit.kind? = none) :
    bit.label ≤ Bit.lastVariable circuit.primary := by
  cases named.known with
  | const value => exact absurd named.label_pos (Bit.label_const_nonpos value).not_gt
  | var positive bounded => exact bounded
  | gate isGate stored => cases isGate.symm.trans isLeaf

/-- The gates met so far are listed in the order of their variables, and the clauses are those
that define these gates, and some others. -/
structure Lists (circuit : Circuit) (gates : List Bit) (units : List Clause)
    (encoding : Encoding) : Prop where
  known : ∀ gate ∈ gates, circuit.Knows gate ∧ gate.kind?.isSome = true
  operands : ∀ gate ∈ gates, ∀ operand ∈ gate.operands,
    Named circuit gates operand ∧ encoding.name operand < encoding.name gate
  numbered : ∀ {position : Nat} {gate : Bit}, gates[position]? = some gate →
    encoding.gateVariables[gate.label]? =
      some (Bit.lastVariable circuit.primary + 1 + position)
  stored : ∀ {label literal : Int}, encoding.gateVariables[label]? = some literal →
    label ∈ gates.map Bit.label
  next_eq : encoding.next = Bit.lastVariable circuit.primary + 1 + gates.length
  clauses : encoding.cnf.clauses.toList.Perm
    (gates.flatMap (Bit.definition encoding.name) ++ units)

namespace Lists

theorem start (circuit : Circuit) : Encoding.Lists circuit [] []
    ⟨⟨circuit.primary, #[]⟩, Bit.lastVariable circuit.primary + 1, ∅, none⟩ where
  known := by simp
  operands := by simp
  numbered := by simp
  stored found := by simp at found
  next_eq := by simp
  clauses := .refl _

theorem name_of_getElem? (lists : encoding.Lists circuit gates units) {position : Nat}
    (found : gates[position]? = some bit) :
    encoding.name bit = Bit.lastVariable circuit.primary + 1 + position := by
  have isGate := (lists.known bit (List.mem_of_getElem? found)).2
  rw [name_gate isGate, lists.numbered found, Option.getD_some]

theorem name_lt_next (lists : encoding.Lists circuit gates units)
    (named : Named circuit gates bit) : encoding.name bit < encoding.next := by
  cases isKind : bit.kind? with
  | none =>
      have := named.label_le_of_leaf isKind
      rw [name_leaf isKind, lists.next_eq]
      lia
  | some kind =>
      obtain ⟨position, found⟩ := List.getElem?_of_mem (named.listed (by rw [isKind]; rfl))
      have bounded := (List.getElem?_eq_some_iff.mp found).1
      rw [lists.name_of_getElem? found, lists.next_eq]
      lia

theorem name_eq (lists : before.Lists circuit gates units)
    (lists' : after.Lists circuit listed units') (grown : gates <+: listed)
    (named : Named circuit gates bit) : before.name bit = after.name bit := by
  cases isKind : bit.kind? with
  | none => rw [name_leaf isKind, name_leaf isKind]
  | some kind =>
      obtain ⟨position, found⟩ := List.getElem?_of_mem (named.listed (by rw [isKind]; rfl))
      have kept : listed[position]? = some bit := by
        obtain ⟨rest, rfl⟩ := grown
        rw [List.getElem?_append_left (List.getElem?_eq_some_iff.mp found).1, found]
      rw [lists.name_of_getElem? found, lists'.name_of_getElem? kept]

theorem emit (lists : encoding.Lists circuit gates units) (clause : Clause) :
    Encoding.Lists circuit gates (units ++ [clause])
      { encoding with cnf := encoding.cnf.add clause } where
  known := lists.known
  operands := lists.operands
  numbered := lists.numbered
  stored := lists.stored
  next_eq := lists.next_eq
  clauses := by
    rw [Cnf.add, Array.toList_push, ← List.append_assoc]
    exact lists.clauses.append_right _

theorem name_addGate (isGate : bit.kind?.isSome = true) (clauses : List Clause) :
    (encoding.addGate bit.label clauses).name bit = encoding.next := by
  rw [name_gate isGate, getElem?_addGate, if_pos rfl, Option.getD_some]

theorem name_addGate_of_ne {label : Int} (clauses : List Clause) (other : label ≠ bit.label) :
    (encoding.addGate label clauses).name bit = encoding.name bit := by
  rw [name, name, getElem?_addGate, if_neg other]

theorem named_of_mem (lists : encoding.Lists circuit gates units) (valid : circuit.Valid)
    (member : bit ∈ gates) : Named circuit gates bit := by
  obtain ⟨known, isGate⟩ := lists.known bit member
  obtain ⟨kind, isKind⟩ := Option.isSome_iff_exists.mp isGate
  exact ⟨known, known.label_pos valid isKind, fun _ => member⟩

theorem label_ne (lists : encoding.Lists circuit gates units) (valid : circuit.Valid)
    {kind : GateKind} (known : circuit.Knows bit) (isKind : bit.kind? = some kind)
    (new : encoding.gateVariables[bit.label]? = none) {other : Bit}
    (named : Named circuit gates other) : bit.label ≠ other.label := by
  intro same
  obtain rfl := known.eq_of_label valid named.known same
  obtain ⟨position, found⟩ := List.getElem?_of_mem (named.listed (by rw [isKind]; rfl))
  rw [lists.numbered found] at new
  cases new

theorem addGate (lists : encoding.Lists circuit gates units) (valid : circuit.Valid)
    {kind : GateKind} (known : circuit.Knows bit) (isKind : bit.kind? = some kind)
    (new : encoding.gateVariables[bit.label]? = none)
    (operands : ∀ operand ∈ bit.operands, Named circuit gates operand) :
    (encoding.addGate bit.label
      (kind.clauses encoding.next (bit.operands.map encoding.name))).Lists circuit
        (gates ++ [bit]) units := by
  generalize isClauses : kind.clauses encoding.next (bit.operands.map encoding.name) = clauses
  have kept : ∀ other, Named circuit gates other →
      (encoding.addGate bit.label clauses).name other = encoding.name other := by
    intro other named
    exact name_addGate_of_ne clauses (lists.label_ne valid known isKind new named)
  have isGate : bit.kind?.isSome = true := by
    rw [isKind]
    rfl
  have newest : (encoding.addGate bit.label clauses).name bit = encoding.next :=
    name_addGate isGate clauses
  have grown : gates ⊆ gates ++ [bit] := List.subset_append_left ..
  refine ⟨?_, ?_, ?_, ?_, ?_, ?_⟩
  · rw [List.forall_mem_append, List.forall_mem_singleton]
    exact ⟨lists.known, known, isGate⟩
  · rw [List.forall_mem_append, List.forall_mem_singleton]
    refine ⟨fun gate member operand operandMember => ?_, fun operand member => ?_⟩
    · obtain ⟨named, below⟩ := lists.operands gate member operand operandMember
      rw [kept operand named, kept gate (lists.named_of_mem valid member)]
      exact ⟨named.mono grown, below⟩
    · have named := operands operand member
      rw [kept operand named, newest]
      exact ⟨named.mono grown, lists.name_lt_next named⟩
  · intro position gate found
    rw [getElem?_addGate]
    rcases lt_or_ge position gates.length with earlier | last
    · rw [List.getElem?_append_left earlier] at found
      have named := lists.named_of_mem valid (List.mem_of_getElem? found)
      rw [if_neg (lists.label_ne valid known isKind new named), lists.numbered found]
    · have bounded := (List.getElem?_eq_some_iff.mp found).1
      rw [List.length_append, List.length_singleton] at bounded
      obtain rfl : position = gates.length := by omega
      rw [List.getElem?_concat_length] at found
      obtain rfl := Option.some.inj found
      rw [if_pos rfl, lists.next_eq]
  · intro label literal found
    rw [getElem?_addGate] at found
    rw [List.map_append, List.mem_append]
    split at found
    · rename_i same
      exact .inr (by simp [same])
    · exact .inl (lists.stored found)
  · rw [List.length_append, List.length_singleton]
    change encoding.next + 1 = _
    rw [lists.next_eq]
    push_cast
    ring
  · have old : gates.flatMap (Bit.definition (encoding.addGate bit.label clauses).name) =
        gates.flatMap (Bit.definition encoding.name) := by
      refine List.flatMap_congr fun gate member => Bit.definition_congr ?_ ?_
      · exact kept gate (lists.named_of_mem valid member)
      · exact fun operand operandMember =>
          kept operand (lists.operands gate member operand operandMember).1
    have defined : bit.definition (encoding.addGate bit.label clauses).name = clauses := by
      have operandNames : bit.operands.map (encoding.addGate bit.label clauses).name =
          bit.operands.map encoding.name :=
        List.map_congr_left fun operand member => kept operand (operands operand member)
      rw [Bit.definition, isKind, newest, operandNames]
      exact isClauses
    rw [List.flatMap_append, old, List.flatMap_singleton, defined]
    change (encoding.cnf.addAll clauses).clauses.toList.Perm _
    rw [Cnf.clauses_addAll]
    calc (encoding.cnf.clauses.toList ++ clauses).Perm
          (gates.flatMap (Bit.definition encoding.name) ++ units ++ clauses) :=
          lists.clauses.append_right _
      _ |>.Perm _ := by
          rw [List.append_assoc, List.append_assoc]
          exact List.perm_append_comm.append_left _

end Lists

/-- An encoding lists further gates, which some bits use, and has a literal for each of these
bits. -/
structure Follows (circuit : Circuit) (bits gates listed : List Bit) (units : List Clause)
    (after : Encoding) : Prop where
  grown : gates <+: listed
  used : ∀ gate ∈ listed, gate ∈ gates ∨ gate ∈ Bit.usedBy bits
  named : ∀ bit ∈ bits, Named circuit listed bit
  lists : after.Lists circuit listed units

theorem Follows.refl (lists : encoding.Lists circuit gates units) :
    encoding.Follows circuit [] gates gates units :=
  ⟨List.prefix_rfl, fun _ => .inl, by simp, lists⟩

theorem Follows.trans {middle : Encoding} {bits bits' listed' : List Bit}
    (first : middle.Follows circuit bits gates listed units)
    (second : after.Follows circuit bits' listed listed' units') :
    after.Follows circuit (bits ++ bits') gates listed' units' where
  grown := first.grown.trans second.grown
  used gate member := by
    rw [Bit.usedBy_append]
    rcases second.used gate member with earlier | used
    · rcases first.used gate earlier with old | used
      · exact .inl old
      · exact .inr (.inl used)
    · exact .inr (.inr used)
  named bit member := by
    rcases List.mem_append.mp member with left | right
    · exact (first.named bit left).mono second.grown.subset
    · exact second.named bit right
  lists := second.lists

end Encoding

theorem Circuit.Knows.asserted {circuit : Circuit} (valid : circuit.Valid) {root : Bit}
    (known : circuit.Knows root) :
    ∀ bit ∈ root.asserted, circuit.Knows bit ∧ 0 < bit.label := by
  cases root with
  | const value => exact List.forall_mem_nil _
  | and label operands =>
      intro bit member
      obtain ⟨bitKnown, positive, -⟩ := known.operands valid bit member
      exact ⟨bitKnown, positive⟩
  | _ =>
      intro bit member
      rw [List.mem_singleton.mp member]
      refine ⟨known, ?_⟩
      rcases known.label_bounds valid with ⟨value, isConst⟩ | ⟨positive, -⟩
      · cases isConst
      · exact positive

namespace Encode

variable {circuit : Circuit} {bits : List Bit}

/-- A computation continues every list by gates that some bits use, and results in something that
the literals of these bits determine. -/
def Continues {α : Type} (circuit : Circuit) (bits : List Bit) (action : Encode α)
    (result : (Bit → Literal) → α) : Prop :=
  ∀ {encoding : Encoding} {gates : List Bit} {units : List Clause},
    encoding.Lists circuit gates units → ∃ listed,
      (action encoding).2.Follows circuit bits gates listed units ∧
      (action encoding).1 = result (action encoding).2.name

theorem literals_continues
    (each : ∀ bit ∈ bits, Continues circuit [bit] (literal bit) fun name => name bit) :
    Continues circuit bits (literals bits) fun name => bits.map name := by
  intro encoding gates units lists
  induction bits generalizing encoding gates with
  | nil => exact ⟨gates, .refl lists, rfl⟩
  | cons bit rest hypothesis =>
      rw [List.forall_mem_cons] at each
      obtain ⟨listed, first, literal_eq⟩ := each.1 lists
      obtain ⟨listed', second, literals_eq⟩ := hypothesis each.2 first.lists
      refine ⟨listed', first.trans second, ?_⟩
      have same := first.lists.name_eq second.lists second.grown
        (first.named bit (List.mem_singleton_self bit))
      exact congrArg₂ List.cons (literal_eq.trans same) literals_eq

theorem named_continues (valid : circuit.Valid) {gate : Bit} {kind : GateKind}
    (known : circuit.Knows gate) (isKind : gate.kind? = some kind)
    (operands : Continues circuit gate.operands (literals gate.operands)
      fun name => gate.operands.map name) :
    Continues circuit [gate] (literal gate) fun name => name gate := by
  intro encoding gates units lists
  rw [literal_gate isKind, named_run]
  cases found : encoding.gateVariables[gate.label]? with
  | some output =>
      obtain ⟨other, member, same⟩ := List.mem_map.mp (lists.stored found)
      obtain rfl := (lists.known other member).1.eq_of_label valid known same
      refine ⟨gates, ⟨List.prefix_rfl, fun _ => .inl, ?_, lists⟩, ?_⟩
      · rw [List.forall_mem_singleton]
        exact lists.named_of_mem valid member
      · dsimp only
        rw [Encoding.name_gate (lists.known _ member).2, found, Option.getD_some]
  | none =>
      obtain ⟨listed, follows, literals_eq⟩ := operands lists
      generalize isAfter : (literals gate.operands encoding).2 = after at follows literals_eq
      dsimp only at literals_eq
      have run : (literals gate.operands >>= fun inputs =>
          defined fun output => kind.clauses output inputs) encoding =
            defined (fun output => kind.clauses output (gate.operands.map after.name)) after := by
        rw [← literals_eq, ← isAfter]
        rfl
      -- Operands are older than the gate, so listing them does not list the gate.
      have new : after.gateVariables[gate.label]? = none := by
        cases foundAfter : after.gateVariables[gate.label]? with
        | none => rfl
        | some output =>
            obtain ⟨other, member, same⟩ := List.mem_map.mp (follows.lists.stored foundAfter)
            rcases follows.used other member with old | ⟨operand, operandMember, uses⟩
            · obtain ⟨position, at_⟩ := List.getElem?_of_mem old
              rw [← same, lists.numbered at_] at found
              cases found
            · obtain ⟨operandKnown, -, below⟩ := known.operands valid operand operandMember
              have := operandKnown.label_le_of_uses valid uses
              omega
      have added := follows.lists.addGate valid known isKind new follows.named
      dsimp only
      rw [run, defined_run]
      refine ⟨listed ++ [gate], ⟨?_, ?_, ?_, added⟩, ?_⟩
      · exact follows.grown.trans (List.prefix_append ..)
      · rw [List.forall_mem_append, List.forall_mem_singleton]
        refine ⟨fun other member => (follows.used other member).imp_right ?_, .inr ?_⟩
        · rintro ⟨operand, operandMember, uses⟩
          exact ⟨gate, List.mem_singleton_self gate, .head operandMember uses⟩
        · exact Bit.mem_usedBy_of_mem (List.mem_singleton_self gate)
      · rw [List.forall_mem_singleton]
        exact added.named_of_mem valid (List.mem_concat_self ..)
      · exact (Encoding.Lists.name_addGate (by rw [isKind]; rfl) _).symm

theorem literal_continues (valid : circuit.Valid) {bit : Bit} (known : circuit.Knows bit)
    (positive : 0 < bit.label) :
    Continues circuit [bit] (literal bit) fun name => name bit := by
  revert positive
  refine Circuit.Knows.induction valid ?_ ?_ ?_ known
  · intro value positive
    have := Bit.label_const_nonpos value
    omega
  · intro label positive bounded labelPositive encoding gates units lists
    have variableKnown : circuit.Knows (.var label) := .var positive bounded
    refine ⟨gates, ⟨List.prefix_rfl, fun _ => .inl, ?_, lists⟩, ?_⟩
    · rw [List.forall_mem_singleton]
      exact ⟨variableKnown, labelPositive, fun isGate => by cases isGate⟩
    · have leaf : encoding.name (.var label) = label := Encoding.name_leaf rfl
      exact leaf.symm
  · intro kind gate isKind stored hypothesis _
    refine named_continues valid (.gate isKind stored) isKind
      (literals_continues fun operand member => ?_)
    exact hypothesis operand member ((valid.placed stored).operands operand member).2.1

theorem assertAll_lists (valid : circuit.Valid)
    (known : ∀ bit ∈ bits, circuit.Knows bit ∧ 0 < bit.label) {encoding : Encoding}
    {gates : List Bit} {units : List Clause} (lists : encoding.Lists circuit gates units) :
    ∃ listed, (assertAll bits encoding).2.Follows circuit bits gates listed
      (units ++ bits.map fun bit => [(assertAll bits encoding).2.name bit]) := by
  induction bits generalizing encoding gates units with
  | nil =>
      refine ⟨gates, ?_⟩
      rw [List.map_nil, List.append_nil]
      exact .refl lists
  | cons bit rest hypothesis =>
      rw [List.forall_mem_cons] at known
      obtain ⟨listed, first, literal_eq⟩ := literal_continues valid known.1.1 known.1.2 lists
      obtain ⟨listed', second⟩ := hypothesis known.2
        (first.lists.emit [(literal bit encoding).1])
      have run : (assertAll (bit :: rest) encoding).2 = (assertAll rest
          { (literal bit encoding).2 with
            cnf := (literal bit encoding).2.cnf.add [(literal bit encoding).1] }).2 := rfl
      rw [run]
      generalize (assertAll rest _).2 = after at second ⊢
      have same := first.lists.name_eq second.lists second.grown
        (first.named bit (List.mem_singleton_self bit))
      rw [List.append_assoc, literal_eq.trans same] at second
      exact ⟨listed', first.trans second⟩

theorem assertRoot_lists (valid : circuit.Valid) {root : Bit} (known : circuit.Knows root)
    {encoding : Encoding} {gates : List Bit} {units : List Clause}
    (lists : encoding.Lists circuit gates units) :
    ∃ listed, (assertRoot root encoding).2.Follows circuit root.asserted gates listed
      (units ++ root.assertion (assertRoot root encoding).2.name) := by
  by_cases impossible : root = .const false
  · rw [impossible]
    exact ⟨gates, List.prefix_rfl, fun _ => .inl, List.forall_mem_nil _, lists.emit []⟩
  · rw [assertRoot_eq impossible, Bit.assertion_of_ne impossible]
    exact assertAll_lists valid (known.asserted valid) lists

theorem assertRoots_lists (valid : circuit.Valid) {roots : List Bit}
    (known : ∀ root ∈ roots, circuit.Knows root) {encoding : Encoding} {gates : List Bit}
    {units : List Clause} (lists : encoding.Lists circuit gates units) :
    ∃ listed, (roots.forM assertRoot encoding).2.Follows circuit (roots.flatMap Bit.asserted)
      gates listed
        (units ++ roots.flatMap (Bit.assertion (roots.forM assertRoot encoding).2.name)) := by
  induction roots generalizing encoding gates units with
  | nil =>
      refine ⟨gates, ?_⟩
      rw [List.flatMap_nil, List.flatMap_nil, List.append_nil]
      exact .refl lists
  | cons root rest hypothesis =>
      rw [List.forall_mem_cons] at known
      obtain ⟨listed, first⟩ := assertRoot_lists valid known.1 lists
      obtain ⟨listed', second⟩ := hypothesis known.2 first.lists
      have same : root.assertion (assertRoot root encoding).2.name =
          root.assertion (rest.forM assertRoot (assertRoot root encoding).2).2.name :=
        Bit.assertion_congr fun bit member =>
          first.lists.name_eq second.lists second.grown (first.named bit member)
      rw [List.append_assoc, same] at second
      exact ⟨listed', first.trans second⟩

end Encode

end ModelFinder
