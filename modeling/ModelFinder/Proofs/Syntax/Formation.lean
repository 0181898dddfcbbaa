import Mathlib
import ModelFinder.Syntax.Formation
import ModelFinder.Proofs.Index
/-!
Terms whose parts all pass a check. A term is formed if each of its nodes is what the checked
constructor makes of the node's parts; the other checks bound the number of tuples that an
expression may have and forbid operators that can fail.
-/

namespace ModelFinder

/-- A check of the nodes of a term. -/
structure SyntaxCheck where
  expr : Expr → Prop
  formula : Formula → Prop
  int : IntExpr → Prop
  decl : Decl → Prop

mutual

def Expr.Every (check : SyntaxCheck) : Expr → Prop
  | .relation leaf => check.expr (.relation leaf)
  | .variable leaf => check.expr (.variable leaf)
  | .constant leaf => check.expr (.constant leaf)
  | .binary op left right arity =>
    check.expr (.binary op left right arity) ∧ left.Every check ∧ right.Every check
  | .union operands arity => check.expr (.union operands arity) ∧ Expr.EveryAll check operands
  | .ite condition thenExpr elseExpr arity =>
    check.expr (.ite condition thenExpr elseExpr arity) ∧
      condition.Every check ∧ thenExpr.Every check ∧ elseExpr.Every check
  | .ofInt cast value => check.expr (.ofInt cast value) ∧ value.Every check

def Expr.EveryAll (check : SyntaxCheck) : List Expr → Prop
  | [] => True
  | operand :: rest => operand.Every check ∧ Expr.EveryAll check rest

def Formula.Every (check : SyntaxCheck) : Formula → Prop
  | .literal value => check.formula (.literal value)
  | .constant value => check.formula (.constant value)
  | .binary op left right =>
    check.formula (.binary op left right) ∧ left.Every check ∧ right.Every check
  | .nary op operands => check.formula (.nary op operands) ∧ Formula.EveryAll check operands
  | .not operand => check.formula (.not operand) ∧ operand.Every check
  | .compare op left right =>
    check.formula (.compare op left right) ∧ left.Every check ∧ right.Every check
  | .multiplicity amount operand =>
    check.formula (.multiplicity amount operand) ∧ operand.Every check
  | .quantified quantifier declarations body =>
    check.formula (.quantified quantifier declarations body) ∧
      Decl.EveryAll check declarations ∧ body.Every check
  | .compareInts op left right =>
    check.formula (.compareInts op left right) ∧ left.Every check ∧ right.Every check

def Formula.EveryAll (check : SyntaxCheck) : List Formula → Prop
  | [] => True
  | operand :: rest => operand.Every check ∧ Formula.EveryAll check rest

def IntExpr.Every (check : SyntaxCheck) : IntExpr → Prop
  | .constant value => check.int (.constant value)
  | .binary op left right =>
    check.int (.binary op left right) ∧ left.Every check ∧ right.Every check
  | .unary op operand => check.int (.unary op operand) ∧ operand.Every check
  | .sum operands => check.int (.sum operands) ∧ IntExpr.EveryAll check operands
  | .count operand => check.int (.count operand) ∧ operand.Every check
  | .sumOver declarations term =>
    check.int (.sumOver declarations term) ∧
      Decl.EveryAll check declarations ∧ term.Every check
  | .ite condition thenInt elseInt =>
    check.int (.ite condition thenInt elseInt) ∧
      condition.Every check ∧ thenInt.Every check ∧ elseInt.Every check
  | .sumOf operand => check.int (.sumOf operand) ∧ operand.Every check

def IntExpr.EveryAll (check : SyntaxCheck) : List IntExpr → Prop
  | [] => True
  | operand :: rest => operand.Every check ∧ IntExpr.EveryAll check rest

def Decl.EveryAll (check : SyntaxCheck) : List Decl → Prop
  | [] => True
  | .oneOf declared domain :: rest =>
    check.decl (.oneOf declared domain) ∧ domain.Every check ∧ Decl.EveryAll check rest

end

namespace SyntaxCheck

def and (first second : SyntaxCheck) : SyntaxCheck where
  expr node := first.expr node ∧ second.expr node
  formula node := first.formula node ∧ second.formula node
  int node := first.int node ∧ second.int node
  decl node := first.decl node ∧ second.decl node

/-- A node is what its checked constructor makes of its parts. -/
def formed : SyntaxCheck where
  expr
    | .relation leaf => Relation.ofArity? leaf.id leaf.name leaf.arity = .ok leaf
    | .variable leaf => Variable.ofArity? leaf.id leaf.name leaf.arity = .ok leaf
    | .constant _ => True
    | .binary op left right arity =>
      Expr.combine? op left right = .ok (.binary op left right arity)
    | .union operands arity => Expr.unionAll? operands = .ok (.union operands arity)
    | .ite condition thenExpr elseExpr arity =>
      condition.choose? thenExpr elseExpr = .ok (.ite condition thenExpr elseExpr arity)
    | .ofInt _ _ => True
  formula
    | .nary op operands =>
      Formula.andAll operands = .nary op operands ∨ Formula.orAll operands = .nary op operands
    | .quantified _ declarations _ => Decl.nonempty? declarations = .ok declarations
    | _ => True
  int
    | .sum operands => IntExpr.sumAll? operands = .ok (.sum operands)
    | .sumOver declarations _ => Decl.nonempty? declarations = .ok declarations
    | _ => True
  decl
    | .oneOf declared domain => Decl.oneOf? declared domain = .ok (.oneOf declared domain)

def counted (universeSize : Nat) : SyntaxCheck where
  expr node := universeSize ^ node.arity < Index.limit
  formula _ := True
  int _ := True
  decl _ := True

/-- What is joined on the right has a number of columns whose low bits are not all zero. -/
def joinable : SyntaxCheck where
  expr
    | .binary .join _ right _ => right.arity % UInt32.size ≠ 0
    | _ => True
  formula _ := True
  int _ := True
  decl _ := True

end SyntaxCheck

def IntOp.Divides (op : IntOp) : Prop := op = .divide ∨ op = .modulo

def SyntaxCheck.divisionFree : SyntaxCheck where
  expr _ := True
  formula _ := True
  int
    | .binary op _ _ => ¬op.Divides
    | _ => True
  decl _ := True

mutual

theorem Expr.every_and {first second : SyntaxCheck} : ∀ {expr : Expr},
    expr.Every first → expr.Every second → expr.Every (first.and second)
  | .relation _, held, also => ⟨held, also⟩
  | .variable _, held, also => ⟨held, also⟩
  | .constant _, held, also => ⟨held, also⟩
  | .binary _ _ _ _, held, also =>
    ⟨⟨held.1, also.1⟩, Expr.every_and held.2.1 also.2.1, Expr.every_and held.2.2 also.2.2⟩
  | .union _ _, held, also => ⟨⟨held.1, also.1⟩, Expr.everyAll_and held.2 also.2⟩
  | .ite _ _ _ _, held, also =>
    ⟨⟨held.1, also.1⟩, Formula.every_and held.2.1 also.2.1,
      Expr.every_and held.2.2.1 also.2.2.1, Expr.every_and held.2.2.2 also.2.2.2⟩
  | .ofInt _ _, held, also => ⟨⟨held.1, also.1⟩, IntExpr.every_and held.2 also.2⟩

theorem Expr.everyAll_and {first second : SyntaxCheck} : ∀ {operands : List Expr},
    Expr.EveryAll first operands → Expr.EveryAll second operands →
      Expr.EveryAll (first.and second) operands
  | [], _, _ => trivial
  | _ :: _, held, also =>
    ⟨Expr.every_and held.1 also.1, Expr.everyAll_and held.2 also.2⟩

theorem Formula.every_and {first second : SyntaxCheck} : ∀ {formula : Formula},
    formula.Every first → formula.Every second → formula.Every (first.and second)
  | .literal _, held, also => ⟨held, also⟩
  | .constant _, held, also => ⟨held, also⟩
  | .binary _ _ _, held, also =>
    ⟨⟨held.1, also.1⟩, Formula.every_and held.2.1 also.2.1,
      Formula.every_and held.2.2 also.2.2⟩
  | .nary _ _, held, also => ⟨⟨held.1, also.1⟩, Formula.everyAll_and held.2 also.2⟩
  | .not _, held, also => ⟨⟨held.1, also.1⟩, Formula.every_and held.2 also.2⟩
  | .compare _ _ _, held, also =>
    ⟨⟨held.1, also.1⟩, Expr.every_and held.2.1 also.2.1, Expr.every_and held.2.2 also.2.2⟩
  | .multiplicity _ _, held, also => ⟨⟨held.1, also.1⟩, Expr.every_and held.2 also.2⟩
  | .quantified _ _ _, held, also =>
    ⟨⟨held.1, also.1⟩, Decl.everyAll_and held.2.1 also.2.1,
      Formula.every_and held.2.2 also.2.2⟩
  | .compareInts _ _ _, held, also =>
    ⟨⟨held.1, also.1⟩, IntExpr.every_and held.2.1 also.2.1,
      IntExpr.every_and held.2.2 also.2.2⟩

theorem Formula.everyAll_and {first second : SyntaxCheck} : ∀ {operands : List Formula},
    Formula.EveryAll first operands → Formula.EveryAll second operands →
      Formula.EveryAll (first.and second) operands
  | [], _, _ => trivial
  | _ :: _, held, also =>
    ⟨Formula.every_and held.1 also.1, Formula.everyAll_and held.2 also.2⟩

theorem IntExpr.every_and {first second : SyntaxCheck} : ∀ {value : IntExpr},
    value.Every first → value.Every second → value.Every (first.and second)
  | .constant _, held, also => ⟨held, also⟩
  | .binary _ _ _, held, also =>
    ⟨⟨held.1, also.1⟩, IntExpr.every_and held.2.1 also.2.1,
      IntExpr.every_and held.2.2 also.2.2⟩
  | .unary _ _, held, also => ⟨⟨held.1, also.1⟩, IntExpr.every_and held.2 also.2⟩
  | .sum _, held, also => ⟨⟨held.1, also.1⟩, IntExpr.everyAll_and held.2 also.2⟩
  | .count _, held, also => ⟨⟨held.1, also.1⟩, Expr.every_and held.2 also.2⟩
  | .sumOver _ _, held, also =>
    ⟨⟨held.1, also.1⟩, Decl.everyAll_and held.2.1 also.2.1,
      IntExpr.every_and held.2.2 also.2.2⟩
  | .ite _ _ _, held, also =>
    ⟨⟨held.1, also.1⟩, Formula.every_and held.2.1 also.2.1,
      IntExpr.every_and held.2.2.1 also.2.2.1, IntExpr.every_and held.2.2.2 also.2.2.2⟩
  | .sumOf _, held, also => ⟨⟨held.1, also.1⟩, Expr.every_and held.2 also.2⟩

theorem IntExpr.everyAll_and {first second : SyntaxCheck} : ∀ {operands : List IntExpr},
    IntExpr.EveryAll first operands → IntExpr.EveryAll second operands →
      IntExpr.EveryAll (first.and second) operands
  | [], _, _ => trivial
  | _ :: _, held, also =>
    ⟨IntExpr.every_and held.1 also.1, IntExpr.everyAll_and held.2 also.2⟩

theorem Decl.everyAll_and {first second : SyntaxCheck} : ∀ {declarations : List Decl},
    Decl.EveryAll first declarations → Decl.EveryAll second declarations →
      Decl.EveryAll (first.and second) declarations
  | [], _, _ => trivial
  | .oneOf _ _ :: _, held, also =>
    ⟨⟨held.1, also.1⟩, Expr.every_and held.2.1 also.2.1, Decl.everyAll_and held.2.2 also.2.2⟩

end

theorem Expr.Every.root {check : SyntaxCheck} : ∀ {expr : Expr}, expr.Every check →
    check.expr expr
  | .relation _, held => held
  | .variable _, held => held
  | .constant _, held => held
  | .binary _ _ _ _, held => held.1
  | .union _ _, held => held.1
  | .ite _ _ _ _, held => held.1
  | .ofInt _ _, held => held.1

structure SyntaxCheck.Total (check : SyntaxCheck) : Prop where
  expr : ∀ node, check.expr node
  formula : ∀ node, check.formula node
  int : ∀ node, check.int node
  decl : ∀ node, check.decl node

mutual

theorem Expr.every_of_total {check : SyntaxCheck} (total : check.Total) :
    ∀ expr : Expr, expr.Every check
  | .relation _ => total.expr _
  | .variable _ => total.expr _
  | .constant _ => total.expr _
  | .binary _ left right _ =>
    ⟨total.expr _, Expr.every_of_total total left, Expr.every_of_total total right⟩
  | .union operands _ => ⟨total.expr _, Expr.everyAll_of_total total operands⟩
  | .ite condition thenExpr elseExpr _ =>
    ⟨total.expr _, Formula.every_of_total total condition, Expr.every_of_total total thenExpr,
      Expr.every_of_total total elseExpr⟩
  | .ofInt _ value => ⟨total.expr _, IntExpr.every_of_total total value⟩

theorem Expr.everyAll_of_total {check : SyntaxCheck} (total : check.Total) :
    ∀ operands : List Expr, Expr.EveryAll check operands
  | [] => trivial
  | operand :: rest => ⟨Expr.every_of_total total operand, Expr.everyAll_of_total total rest⟩

theorem Formula.every_of_total {check : SyntaxCheck} (total : check.Total) :
    ∀ formula : Formula, formula.Every check
  | .literal _ => total.formula _
  | .constant _ => total.formula _
  | .binary _ left right =>
    ⟨total.formula _, Formula.every_of_total total left, Formula.every_of_total total right⟩
  | .nary _ operands => ⟨total.formula _, Formula.everyAll_of_total total operands⟩
  | .not operand => ⟨total.formula _, Formula.every_of_total total operand⟩
  | .compare _ left right =>
    ⟨total.formula _, Expr.every_of_total total left, Expr.every_of_total total right⟩
  | .multiplicity _ operand => ⟨total.formula _, Expr.every_of_total total operand⟩
  | .quantified _ declarations body =>
    ⟨total.formula _, Decl.everyAll_of_total total declarations, Formula.every_of_total total body⟩
  | .compareInts _ left right =>
    ⟨total.formula _, IntExpr.every_of_total total left, IntExpr.every_of_total total right⟩

theorem Formula.everyAll_of_total {check : SyntaxCheck} (total : check.Total) :
    ∀ operands : List Formula, Formula.EveryAll check operands
  | [] => trivial
  | operand :: rest => ⟨Formula.every_of_total total operand, Formula.everyAll_of_total total rest⟩

theorem IntExpr.every_of_total {check : SyntaxCheck} (total : check.Total) :
    ∀ value : IntExpr, value.Every check
  | .constant _ => total.int _
  | .binary _ left right =>
    ⟨total.int _, IntExpr.every_of_total total left, IntExpr.every_of_total total right⟩
  | .unary _ operand => ⟨total.int _, IntExpr.every_of_total total operand⟩
  | .sum operands => ⟨total.int _, IntExpr.everyAll_of_total total operands⟩
  | .count operand => ⟨total.int _, Expr.every_of_total total operand⟩
  | .sumOver declarations term =>
    ⟨total.int _, Decl.everyAll_of_total total declarations, IntExpr.every_of_total total term⟩
  | .ite condition thenInt elseInt =>
    ⟨total.int _, Formula.every_of_total total condition, IntExpr.every_of_total total thenInt,
      IntExpr.every_of_total total elseInt⟩
  | .sumOf operand => ⟨total.int _, Expr.every_of_total total operand⟩

theorem IntExpr.everyAll_of_total {check : SyntaxCheck} (total : check.Total) :
    ∀ operands : List IntExpr, IntExpr.EveryAll check operands
  | [] => trivial
  | operand :: rest => ⟨IntExpr.every_of_total total operand, IntExpr.everyAll_of_total total rest⟩

theorem Decl.everyAll_of_total {check : SyntaxCheck} (total : check.Total) :
    ∀ declarations : List Decl, Decl.EveryAll check declarations
  | [] => trivial
  | .oneOf _ domain :: rest =>
    ⟨total.decl _, Expr.every_of_total total domain, Decl.everyAll_of_total total rest⟩

end

/-! Arities of formed terms -/

/-- The arities that an operator takes and gives. -/
def SetOp.Fitting (op : SetOp) (left right arity : Nat) : Prop :=
  match op with
  | .join => 0 < arity ∧ arity + 2 = left + right
  | .product => arity = left + right
  | .union | .difference | .intersection => left = right ∧ arity = left

theorem Expr.arity_of_combine? {op : SetOp} {left right : Expr} {arity : Nat}
    (made : combine? op left right = .ok (.binary op left right arity)) :
    op.Fitting left.arity right.arity arity := by
  have equal : ∀ {condition : Prop} [Decidable condition] {error : Error},
      (if condition then Except.ok (Expr.binary op left right left.arity) else .error error) =
        .ok (.binary op left right arity) → condition ∧ arity = left.arity := by
    intro condition _ error same
    split at same
    · rename_i holds
      cases same
      exact ⟨holds, rfl⟩
    · cases same
  cases op with
  | join =>
      unfold combine? at made
      cases counted : Index.joinedColumns left.arity right.arity with
      | error error =>
          rw [counted] at made
          cases made
      | ok columns =>
          rw [counted] at made
          have sum := Index.of_joinedColumns counted
          by_cases none : columns = 0
          · subst none
            cases made
          · simp only [bind, Except.bind, none, if_false] at made
            cases made
            exact ⟨Nat.pos_of_ne_zero none, sum⟩
  | product =>
      unfold combine? at made
      cases counted : Index.columns left.arity right.arity with
      | error error =>
          rw [counted] at made
          cases made
      | ok columns =>
          rw [counted] at made
          cases made
          exact Index.of_columns counted
  | union => exact equal made
  | difference => exact equal made
  | intersection => exact equal made

def SetOp.Columns (op : SetOp) (left right : Nat) : Prop :=
  op = .join ∨ op = .product → Index.columns left right = .ok (left + right)

theorem Expr.columns_of_combine? {op : SetOp} {left right : Expr} {arity : Nat}
    (made : combine? op left right = .ok (.binary op left right arity)) :
    op.Columns left.arity right.arity := by
  intro counts
  cases counted : Index.columns left.arity right.arity with
  | ok columns => rw [Index.of_columns counted]
  | error error =>
      rcases counts with rfl | rfl
      · unfold combine? Index.joinedColumns at made
        rw [counted] at made
        cases made
      · unfold combine? at made
        rw [counted] at made
        cases made

/-! Operands whose tuples can be counted. The bounds may depend on a promise. -/

section

variable {safe : Prop} {size arity : Nat} {left right : Expr}

theorem Expr.joinable_of_combine?
    (made : combine? .join left right = .ok (.binary .join left right arity))
    (leftPositive : 0 < left.arity) (rightPositive : 0 < right.arity)
    (bounded : safe → size ^ arity < Index.limit ∧ size ^ right.arity < Index.limit ∧
      right.arity % UInt32.size ≠ 0) :
    ∃ before rest, left.arity = before + 1 ∧ right.arity = rest + 1 ∧ arity = before + rest ∧
      (safe → Index.Joinable size before rest) := by
  have sum := (arity_of_combine? made).2
  have columns := columns_of_combine? made (.inl rfl)
  obtain ⟨before, leftArity⟩ := Nat.exists_eq_add_one.mpr leftPositive
  obtain ⟨rest, rightArity⟩ := Nat.exists_eq_add_one.mpr rightPositive
  rw [leftArity, rightArity] at sum columns
  rw [rightArity] at bounded
  obtain rfl : arity = before + rest := by omega
  refine ⟨before, rest, leftArity, rightArity, rfl, fun isSafe => ?_⟩
  rcases bounded isSafe with ⟨result, counted, nonzero⟩
  exact ⟨columns, counted, result, nonzero⟩

theorem Expr.continuable_of_combine?
    (made : combine? .product left right = .ok (.binary .product left right arity))
    {further : Prop}
    (bounded : safe → size ^ arity < Index.limit ∧ size ^ right.arity < Index.limit ∧ further) :
    arity = left.arity + right.arity ∧
      (safe → Index.Continuable size left.arity right.arity) := by
  have sum : arity = left.arity + right.arity := arity_of_combine? made
  refine ⟨sum, fun isSafe => ⟨columns_of_combine? made (.inr rfl), (bounded isSafe).2.1, ?_⟩⟩
  exact sum ▸ (bounded isSafe).1

/-- What an operator needs of the arities of its operands for not being refused: the tuples of a
join and of a product can be counted. -/
def SetOp.Countable (op : SetOp) (size leftArity rightArity : Nat) : Prop :=
  match op with
  | .join => ∃ before rest, leftArity = before + 1 ∧ rightArity = rest + 1 ∧
      Index.Joinable size before rest
  | .product => Index.Continuable size leftArity rightArity
  | .union | .difference | .intersection => True

/-- A formed node whose tuples can be counted has operands that its operator does not refuse. -/
theorem Expr.countable_of_combine? {op : SetOp}
    (made : combine? op left right = .ok (.binary op left right arity))
    (leftPositive : 0 < left.arity) (rightPositive : 0 < right.arity)
    (rightSmall : size ^ right.arity < Index.limit) (small : size ^ arity < Index.limit)
    (joinable : SyntaxCheck.joinable.expr (.binary op left right arity)) :
    op.Countable size left.arity right.arity := by
  cases op with
  | join =>
      rcases joinable_of_combine? made leftPositive rightPositive fun _ : True =>
        ⟨small, rightSmall, joinable⟩ with ⟨before, rest, leftArity, rightArity, -, counted⟩
      exact ⟨before, rest, leftArity, rightArity, counted trivial⟩
  | product =>
      exact (continuable_of_combine? made fun _ : True => ⟨small, rightSmall, joinable⟩).2 trivial
  | union => trivial
  | difference => trivial
  | intersection => trivial

end

theorem Formula.arity_of_choose? {condition : Formula} {thenExpr elseExpr : Expr} {arity : Nat}
    (made : condition.choose? thenExpr elseExpr =
      .ok (.ite condition thenExpr elseExpr arity)) :
    thenExpr.arity = elseExpr.arity ∧ arity = thenExpr.arity := by
  unfold choose? at made
  split at made
  · rename_i same
    cases made
    exact ⟨same, rfl⟩
  · cases made

theorem Expr.arity_of_unionAll? {operands : List Expr} {arity : Nat}
    (made : unionAll? operands = .ok (.union operands arity)) :
    ∃ first rest, operands = first :: rest ∧ arity = first.arity := by
  match operands, made with
  | [only], made =>
      have same : only = .union [only] arity := Except.ok.inj made
      exact ⟨only, [], rfl, (congrArg Expr.arity same).symm⟩
  | first :: second :: rest, made =>
      rw [unionAll?] at made
      · split at made
        · cases made
          exact ⟨first, second :: rest, rfl, rfl⟩
        · cases made
      · simp

theorem Expr.arities_of_unionAll? {operands : List Expr} {arity : Nat}
    (made : unionAll? operands = .ok (.union operands arity)) :
    ∀ operand ∈ operands, operand.arity = arity := by
  match operands, made with
  | [only], made =>
      have same : only = .union [only] arity := Except.ok.inj made
      exact List.forall_mem_singleton.mpr (congrArg Expr.arity same)
  | first :: second :: rest, made =>
      rw [unionAll?] at made
      · split at made
        · rename_i equal
          cases made
          exact List.forall_mem_cons.mpr ⟨rfl, fun operand member =>
            eq_of_beq (List.all_eq_true.mp equal operand member)⟩
        · cases made
      · simp

theorem Decl.arity_of_oneOf? {declared : Variable} {domain : Expr}
    (made : Decl.oneOf? declared domain = .ok (.oneOf declared domain)) :
    declared.arity = domain.arity := by
  unfold Decl.oneOf? at made
  split at made
  · assumption
  · cases made

theorem Expr.arity_pos {check : SyntaxCheck}
    (formed : ∀ {expr : Expr}, check.expr expr → SyntaxCheck.formed.expr expr) :
    ∀ {expr : Expr}, expr.Every check → 0 < expr.arity
  | .relation leaf, made => by
      apply Nat.pos_of_ne_zero
      intro none
      change leaf.arity = 0 at none
      have made : Relation.ofArity? _ _ _ = _ := formed made
      rw [none] at made
      cases made
  | .variable leaf, made => by
      apply Nat.pos_of_ne_zero
      intro none
      change leaf.arity = 0 at none
      have made : Variable.ofArity? _ _ _ = _ := formed made
      rw [none] at made
      cases made
  | .constant leaf, _ => by cases leaf <;> decide
  | .binary op left right arity, made => by
      have leftPositive := Expr.arity_pos formed made.2.1
      have fitting := Expr.arity_of_combine? (formed made.1)
      change 0 < arity
      cases op with
      | join => exact fitting.1
      | product =>
          change arity = _ at fitting
          omega
      | union | difference | intersection => exact fitting.2 ▸ leftPositive
  | .union (first :: rest) arity, made => by
      have firstPositive := Expr.arity_pos formed made.2.1
      rcases Expr.arity_of_unionAll? (formed made.1) with ⟨first', rest', same, isArity⟩
      cases same
      exact isArity ▸ firstPositive
  | .union [] _, made => by cases formed made.1
  | .ite _ thenExpr _ arity, made => by
      have positive := Expr.arity_pos formed made.2.2.1
      exact (Formula.arity_of_choose? (formed made.1)).2 ▸ positive
  | .ofInt _ _, _ => Nat.one_pos

end ModelFinder
