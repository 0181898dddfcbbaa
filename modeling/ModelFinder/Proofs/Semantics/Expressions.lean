import Mathlib
import ModelFinder.Proofs.Semantics.Interpretation
import ModelFinder.Proofs.Semantics.Judgement
/-!
Evaluation gives what terms denote. Here are the constructors of relational expressions: if the
parts of an expression evaluate to what they denote, so does the expression.
-/

namespace ModelFinder

/-- Evaluation gives the set that an expression denotes. -/
def Expr.Realized (model : Instance) (range : IntRange) (expr : Expr) : Prop :=
  Evaluate.Realizes model.univ (fun set sequences => set.Reads model.univ expr.arity sequences)
    (expr.evaluate model range) (expr.denote model.interpretation range.bitwidth)

def Formula.Realized (model : Instance) (range : IntRange) (formula : Formula) : Prop :=
  Evaluate.Realizes model.univ (· = ·) (formula.evaluate model range)
    (formula.denote model.interpretation range.bitwidth)

def IntExpr.Realized (model : Instance) (range : IntRange) (value : IntExpr) : Prop :=
  Evaluate.Realizes model.univ (fun number (a : BitVec range.bitwidth) => number = a.toInt)
    (value.evaluate model range) (value.denote model.interpretation range.bitwidth)

def Decl.AllRealized (model : Instance) (range : IntRange) (declarations : List Decl) : Prop :=
  List.Forall₂ (Evaluate.RealizesDomain model.univ) (Decl.evaluateDomains model range declarations)
    (Decl.denoteDomains model.interpretation range.bitwidth declarations)

variable {model : Instance} {range : IntRange}

theorem Decl.AllRealized.cons {declared : Variable} {domain : Expr} {rest : List Decl}
    (same : declared.arity = domain.arity)
    (small : model.univ.size ^ domain.arity < Index.limit) (realized : domain.Realized model range)
    (restRealized : Decl.AllRealized model range rest) :
    Decl.AllRealized model range (.oneOf declared domain :: rest) := by
  rw [Expr.Realized, ← same] at realized
  exact List.Forall₂.cons ⟨rfl, same ▸ small, realized⟩ restRealized

theorem realized_relation (sound : model.Sound) (leaf : Relation) :
    (Expr.relation leaf).Realized model range := by
  intro scope env _
  have denoted : model.interpretation.relation? leaf =
      (model.tuples? leaf).map TupleSet.sequences := rfl
  rw [Expr.evaluate, Expr.denote, denoted]
  cases found : model.tuples? leaf with
  | none => exact .throw _
  | some set =>
      rcases sound.value found with ⟨univ_eq, arity_eq, inRange⟩
      exact .pure ⟨univ_eq, arity_eq, inRange, rfl⟩

theorem realized_variable (leaf : Variable) : (Expr.variable leaf).Realized model range := by
  intro scope env represents
  rw [Expr.evaluate, Expr.denote]
  refine .reading ?_
  have bound := represents leaf
  cases found : scope.lookup leaf with
  | none =>
      rw [found] at bound
      cases denoted : env leaf with
      | none => exact .throw _
      | some sequence =>
          rw [denoted] at bound
          cases bound
  | some set =>
      rw [found] at bound
      cases denoted : env leaf with
      | none =>
          rw [denoted] at bound
          cases bound
      | some sequence =>
          rw [denoted] at bound
          cases bound with
          | some reads => exact .pure reads

theorem realized_constant (sound : model.Sound) (leaf : SetConstant)
    (small : model.univ.size ^ (Expr.constant leaf).arity < Index.limit) :
    (Expr.constant leaf).Realized model range := by
  intro scope env _
  rcases sound.constant?_reads leaf small with ⟨set, made, reads⟩
  rw [Expr.evaluate, Expr.denote, made]
  exact .except (.ok reads)

theorem realized_combined (sound : model.Sound) {op : SetOp} {left right : Expr} {arity : Nat}
    (made : Expr.combine? op left right = .ok (.binary op left right arity))
    (countable : op.Countable model.univ.size left.arity right.arity)
    (leftRealized : left.Realized model range) (rightRealized : right.Realized model range) :
    (Expr.binary op left right arity).Realized model range := by
  intro scope env represents
  rw [Expr.evaluate, Expr.denote]
  refine (leftRealized scope env represents).bind fun a aSequences aReads =>
    (rightRealized scope env represents).bind fun b bSequences bReads => ?_
  rcases op.compute?_reads sound.nonempty (Expr.arity_of_combine? made) countable aReads bReads
    with ⟨set, computed, reads⟩
  rw [computed]
  exact .except (.ok reads)

private theorem realizes_union {operands : List Expr} {arity : Nat}
    (each : ∀ operand ∈ operands, operand.Realized model range)
    (arities : ∀ operand ∈ operands, operand.arity = arity) {result : TupleSet}
    {sequences : Finset (List Nat)} (reads : result.Reads model.univ arity sequences) :
    Evaluate.Realizes model.univ (fun set sequences => set.Reads model.univ arity sequences)
      (Expr.evaluateUnion model range result operands) fun env => do
        let sets ← Expr.denoteAll model.interpretation range.bitwidth operands env
        return sequences ∪ sets.foldr (· ∪ ·) ∅ := by
  induction operands generalizing result sequences with
  | nil =>
      intro scope env _
      beta_reduce
      rw [Expr.evaluateUnion, Expr.denoteAll]
      exact .pure (by simpa using reads)
  | cons operand rest hypothesis =>
      rw [List.forall_mem_cons] at each arities
      intro scope env represents
      beta_reduce
      rw [Expr.evaluateUnion, Expr.denoteAll]
      simp only [bind_assoc, pure_bind, List.foldr_cons, ← Finset.union_assoc]
      refine (each.1 scope env represents).bind fun set added addedReads => ?_
      rw [arities.1] at addedReads
      rcases reads.union addedReads with ⟨both, united, bothReads⟩
      exact .checked united (hypothesis each.2 arities.2 bothReads scope env represents)

theorem realized_union {operands : List Expr} {arity : Nat}
    (each : ∀ operand ∈ operands, operand.Realized model range)
    (arities : ∀ operand ∈ operands, operand.arity = arity) :
    (Expr.union operands arity).Realized model range := by
  intro scope env represents
  have realizes := realizes_union each arities (.empty model.univ arity) scope env represents
  simp only [Finset.empty_union] at realizes
  rw [Expr.evaluate, Expr.denote]
  exact realizes

theorem realized_chosenExpr {condition : Formula} {thenExpr elseExpr : Expr} {arity : Nat}
    (thenArity : thenExpr.arity = arity) (elseArity : elseExpr.arity = arity)
    (conditionRealized : condition.Realized model range)
    (thenRealized : thenExpr.Realized model range) (elseRealized : elseExpr.Realized model range) :
    (Expr.ite condition thenExpr elseExpr arity).Realized model range := by
  subst thenArity
  rw [Expr.Realized, elseArity] at elseRealized
  intro scope env represents
  rw [Expr.evaluate, Expr.denote]
  refine (conditionRealized scope env represents).bind fun value meaning same => ?_
  subst same
  cases value with
  | true => exact thenRealized scope env represents
  | false => exact elseRealized scope env represents

theorem realized_cast (sound : model.Sound) (cast : IntCast) {value : IntExpr}
    (small : model.univ.size ^ 1 < Index.limit) (realized : value.Realized model range) :
    (Expr.ofInt cast value).Realized model range := by
  intro scope env represents
  rw [Expr.evaluate, Expr.denote]
  refine (realized scope env represents).bind fun number a same => ?_
  subst same
  rcases TupleSet.ofIndices?_atoms sound.nonempty small fun _ member =>
    sound.atomsInRange.castAtoms_lt member with ⟨set, made, reads⟩
  rw [Instance.castAtoms_toInt] at reads
  rw [made]
  exact .except (.ok reads)

end ModelFinder
