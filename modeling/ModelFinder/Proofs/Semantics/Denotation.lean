import Mathlib
import ModelFinder.Error
/-!
What terms denote. A relational expression denotes a set of sequences of atoms, a formula a truth
value, and an integer expression a number modulo a power of two, in two's complement. A variable
in scope stands for one sequence, and a scope is a function.

A term has no denotation if one of its parts has none: a leaf that stands for nothing, a divisor
that is zero, or parts whose arities do not go together. Parts are read from left to right, so
the first part without a denotation is the one that is reported; only the branch that a condition
does not choose is left unread.
-/

namespace ModelFinder

/-- What leaves stand for: how many atoms there are, which sequences of atoms a relation has,
and which integers stand for which atoms. Atoms are numbered from 0 on. -/
structure Interpretation where
  size : Nat
  relation? : Relation → Option (Finset (List Nat))
  ints : Finset (Int × Nat)

abbrev Environment := Variable → Option (List Nat)

/-! Sets of sequences -/

def atomSequences (atoms : Finset Nat) : Finset (List Nat) := atoms.image fun atom => [atom]

def SetConstant.denote (world : Interpretation) : SetConstant → Finset (List Nat)
  | .univ => atomSequences (Finset.range world.size)
  | .iden => (Finset.range world.size).image fun atom => [atom, atom]
  | .none => ∅
  | .ints => atomSequences (world.ints.image Prod.snd)

/-- An operator on sets of sequences. A product continues each sequence on the left by each one
on the right, and a join does so through an atom in the middle, which is left out. -/
def SetOp.denote (op : SetOp) (left right : Finset (List Nat)) : Finset (List Nat) :=
  match op with
  | .join => ((left ×ˢ right).filter fun pair =>
      pair.1 ≠ [] ∧ pair.1.getLast? = pair.2.head?).image fun pair =>
        pair.1.dropLast ++ pair.2.tail
  | .product => Finset.image₂ (· ++ ·) left right
  | .union => left ∪ right
  | .difference => left \ right
  | .intersection => left ∩ right

theorem SetOp.mem_denote_join {left right : Finset (List Nat)} {atoms : List Nat} :
    atoms ∈ SetOp.join.denote left right ↔ ∃ before atom after,
      before ++ [atom] ∈ left ∧ atom :: after ∈ right ∧ before ++ after = atoms := by
  simp only [denote, Finset.mem_image, Finset.mem_filter, Finset.mem_product, Prod.exists]
  constructor
  · rintro ⟨first, second, ⟨⟨firstMember, secondMember⟩, nonempty, agree⟩, rfl⟩
    obtain ⟨before, atom, rfl⟩ : ∃ before atom, first = before ++ [atom] :=
      ⟨_, _, (List.dropLast_append_getLast nonempty).symm⟩
    cases second with
    | nil => simp at agree
    | cons atom' after =>
        obtain rfl : atom = atom' := by simpa using agree
        exact ⟨before, atom, after, firstMember, secondMember, by simp⟩
  · rintro ⟨before, atom, after, firstMember, secondMember, rfl⟩
    exact ⟨_, _, ⟨⟨firstMember, secondMember⟩, by simp, by simp⟩, by simp⟩

theorem SetOp.mem_denote_product {left right : Finset (List Nat)} {atoms : List Nat} :
    atoms ∈ SetOp.product.denote left right ↔
      ∃ before ∈ left, ∃ after ∈ right, before ++ after = atoms :=
  Finset.mem_image₂

/-- Joining the pair of the first two atoms with the last pair of them. -/
example : SetOp.join.denote {[0, 1]} {[1, 2], [2, 0]} = {[0, 2]} := by decide

def SetComparison.denote (op : SetComparison) (left right : Finset (List Nat)) : Bool :=
  match op with
  | .equals => decide (left = right)
  | .subset => decide (left ⊆ right)

def Multiplicity.denote (amount : Multiplicity) (set : Finset (List Nat)) : Bool :=
  match amount with
  | .some => decide set.Nonempty
  | .one => decide (set.card = 1)
  | .lone => decide (set.card ≤ 1)
  | .no => decide (set = ∅)

/-! Truth values -/

def Connective.denote (op : Connective) (left right : Bool) : Bool :=
  match op with
  | .and => decide (left ∧ right)
  | .or => decide (left ∨ right)
  | .iff => decide (left ↔ right)
  | .implies => decide (left → right)

def Connective.denoteList? (op : Connective) (operands : List Bool) : Except Error Bool :=
  match op with
  | .and => .ok (decide (∀ operand ∈ operands, operand = true))
  | .or => .ok (decide (∃ operand ∈ operands, operand = true))
  | .iff | .implies => .error (.invalidArgument (.notNary op))

def Quantifier.denote (quantifier : Quantifier) (values : List Bool) : Bool :=
  match quantifier with
  | .all => decide (∀ value ∈ values, value = true)
  | .some => decide (∃ value ∈ values, value = true)

/-! Numbers of a bit width -/

section

variable {width : Nat}

/-- A shift by the full signed amount. Negative amounts and amounts of at least the width leave
only the fill. -/
def shiftOr (fill : BitVec width) (shift : Nat → BitVec width) (amount : BitVec width) :
    BitVec width :=
  if amount.toInt < 0 ∨ width ≤ amount.toInt then fill else shift amount.toNat

/-- A binary operator: division truncates, a remainder has the sign of the dividend. -/
def IntOp.denote? (op : IntOp) (left right : IntExpr) (a b : BitVec width) :
    Except Error (BitVec width) :=
  match op with
  | .plus => .ok (a + b)
  | .minus => .ok (a - b)
  | .multiply => .ok (a * b)
  | .divide => if b = 0 then .error (.divisionByZero left op right) else .ok (a.sdiv b)
  | .modulo => if b = 0 then .error (.divisionByZero left op right) else .ok (a.srem b)
  | .and => .ok (a &&& b)
  | .or => .ok (a ||| b)
  | .xor => .ok (a ^^^ b)
  | .shl => .ok (shiftOr 0 (a <<< ·) b)
  | .shr => .ok (shiftOr 0 (a >>> ·) b)
  | .sha => .ok (shiftOr (if a.msb then BitVec.allOnes width else 0) a.sshiftRight b)

def IntUnaryOp.denote (op : IntUnaryOp) (a : BitVec width) : BitVec width :=
  match op with
  | .negate => -a
  | .abs => a.abs
  | .sgn => BitVec.ofInt width a.toInt.sign
  | .not => ~~~a

def IntComparison.denote (op : IntComparison) (a b : BitVec width) : Bool :=
  match op with
  | .eq => a == b
  | .lt => a.slt b
  | .lte => a.sle b
  | .gt => b.slt a
  | .gte => b.sle a

/-- The atoms that a number stands for: those of the number itself, or those of the powers of two
of its digits, where the least number stands for the sign. -/
def IntCast.denote (world : Interpretation) (cast : IntCast) (a : BitVec width) :
    Finset (List Nat) :=
  atomSequences <| Finset.image Prod.snd <|
    match cast with
    | .value => world.ints.filter fun entry => entry.1 = a.toInt
    | .bitset => world.ints.filter fun entry =>
      (∃ position < width - 1, a.getLsbD position = true ∧ entry.1 = 2 ^ position) ∨
        a.msb = true ∧ entry.1 = -2 ^ (width - 1)

def sumOfAtoms (world : Interpretation) (width : Nat) (set : Finset (List Nat)) : BitVec width :=
  ∑ entry ∈ world.ints with [entry.2] ∈ set, BitVec.ofInt width entry.1

/-- Four bits: `-7` divided by `2` is `-3` with the remainder `-1`, and `-8` shifted by `-1` leaves
the sign. -/
example : (-7 : BitVec 4).sdiv 2 = -3 ∧ (-7 : BitVec 4).srem 2 = -1 ∧
    shiftOr (BitVec.allOnes 4) (-8 : BitVec 4).sshiftRight (-1) = -1 := by decide

end

/-- The denotations of a term for every choice of sequences from the domains of declared
variables, in lexicographic order. Later domains are read where the earlier variables are in
scope. -/
def forEach {α : Type} :
    List (Variable × (Environment → Except Error (Finset (List Nat)))) →
      (Environment → Except Error α) → Environment → Except Error (List α)
  | [], term, env => do return [← term env]
  | (declared, domain) :: rest, term, env => do
    let sequences ← domain env
    let values ← (sequences.sort (· ≤ ·)).mapM fun sequence =>
      forEach rest term (Function.update env declared (some sequence))
    return values.flatten

mutual

@[simp] def Expr.denote (world : Interpretation) (width : Nat) :
    Expr → Environment → Except Error (Finset (List Nat))
  | .relation leaf, _ =>
    match world.relation? leaf with
    | some sequences => .ok sequences
    | none => .error (.unboundRelation leaf.name)
  | .variable leaf, env =>
    match env leaf with
    | some sequence => .ok {sequence}
    | none => .error (.unboundVariable leaf.name)
  | .constant leaf, _ => .ok (leaf.denote world)
  | .binary op left right _, env => do
    let a ← left.denote world width env
    let b ← right.denote world width env
    return op.denote a b
  | .union operands _, env => do
    let sets ← Expr.denoteAll world width operands env
    return sets.foldr (· ∪ ·) ∅
  | .ite condition thenExpr elseExpr _, env => do
    if ← condition.denote world width env then thenExpr.denote world width env
    else elseExpr.denote world width env
  | .ofInt cast value, env => do return cast.denote world (← value.denote world width env)

@[simp] def Expr.denoteAll (world : Interpretation) (width : Nat) :
    List Expr → Environment → Except Error (List (Finset (List Nat)))
  | [], _ => return []
  | expr :: rest, env => do
    let set ← expr.denote world width env
    return set :: (← Expr.denoteAll world width rest env)

@[simp] def Formula.denote (world : Interpretation) (width : Nat) :
    Formula → Environment → Except Error Bool
  | .literal value, _ => return value
  | .constant value, _ => return value
  | .binary op left right, env => do
    let a ← left.denote world width env
    let b ← right.denote world width env
    return op.denote a b
  | .nary op operands, env => do op.denoteList? (← Formula.denoteAll world width operands env)
  | .not operand, env => do return !(← operand.denote world width env)
  | .compare op left right, env => do
    let a ← left.denote world width env
    let b ← right.denote world width env
    if left.arity ≠ right.arity then
      throw (.invalidArgument (.arityMismatch left left.arity right right.arity))
    return op.denote a b
  | .multiplicity amount operand, env => do
    return amount.denote (← operand.denote world width env)
  | .quantified quantifier declarations body, env => do
    let values ← forEach (Decl.denoteDomains world width declarations)
      (fun inner => body.denote world width inner) env
    return quantifier.denote values
  | .compareInts op left right, env => do
    let a ← left.denote world width env
    let b ← right.denote world width env
    return op.denote a b

@[simp] def Formula.denoteAll (world : Interpretation) (width : Nat) :
    List Formula → Environment → Except Error (List Bool)
  | [], _ => return []
  | formula :: rest, env => do
    let value ← formula.denote world width env
    return value :: (← Formula.denoteAll world width rest env)

@[simp] def IntExpr.denote (world : Interpretation) (width : Nat) :
    IntExpr → Environment → Except Error (BitVec width)
  | .constant value, _ => return BitVec.ofInt width value
  | .binary op left right, env => do
    let a ← left.denote world width env
    let b ← right.denote world width env
    op.denote? left right a b
  | .unary op operand, env => do return op.denote (← operand.denote world width env)
  | .sum operands, env => do return (← IntExpr.denoteAll world width operands env).sum
  | .count operand, env => do
    return BitVec.ofNat width (← operand.denote world width env).card
  | .sumOver declarations term, env => do
    let values ← forEach (Decl.denoteDomains world width declarations)
      (fun inner => term.denote world width inner) env
    return values.sum
  | .ite condition thenInt elseInt, env => do
    if ← condition.denote world width env then thenInt.denote world width env
    else elseInt.denote world width env
  | .sumOf operand, env => do
    if operand.arity ≠ 1 then throw (.invalidArgument (.nonUnarySum operand))
    return sumOfAtoms world width (← operand.denote world width env)

@[simp] def IntExpr.denoteAll (world : Interpretation) (width : Nat) :
    List IntExpr → Environment → Except Error (List (BitVec width))
  | [], _ => return []
  | value :: rest, env => do
    let number ← value.denote world width env
    return number :: (← IntExpr.denoteAll world width rest env)

@[simp] def Decl.denoteDomains (world : Interpretation) (width : Nat) :
    List Decl → List (Variable × (Environment → Except Error (Finset (List Nat))))
  | [] => []
  | .oneOf declared domain :: rest =>
    (declared, fun env => domain.denote world width env) ::
      Decl.denoteDomains world width rest

end

end ModelFinder
