import Mathlib
import ModelFinder.Proofs.Compile.Agreement
import ModelFinder.Proofs.Compile.Folding.Integers
/-!
Terms over bounds that leave nothing open. Every formed term of which every relation is unbound
or bound exactly settles: compilation comes down to the constant of what evaluation gives, or
both fail.
-/

namespace ModelFinder

theorem Connective.of_formed {op : Connective} {operands : List Formula}
    (made : SyntaxCheck.formed.formula (.nary op operands)) : op = .and ∨ op = .or := by
  match operands, made with
  | [], .inl made => cases made
  | [], .inr made => cases made
  | [only], .inl made =>
      have same : only = .nary op [only] := made
      have smaller := congrArg sizeOf same
      simp only [Formula.nary.sizeOf_spec, List.cons.sizeOf_spec] at smaller
      omega
  | [only], .inr made =>
      have same : only = .nary op [only] := made
      have smaller := congrArg sizeOf same
      simp only [Formula.nary.sizeOf_spec, List.cons.sizeOf_spec] at smaller
      omega
  | _ :: _ :: _, .inl made =>
      cases made
      exact .inl rfl
  | _ :: _ :: _, .inr made =>
      cases made
      exact .inr rfl

namespace Setting

/-- A setting in which unbound relations have no tuples to evaluate to, and nothing is excused. -/
structure Certain (setting : Setting) : Prop extends setting.Sound where
  never : ¬setting.mayFail
  unbound : ∀ leaf, setting.leaves.bounds.bound? leaf = none → setting.model.tuples? leaf = none

namespace Certain

/-- Formed terms of which every expression's tuples and all joins can be counted and of whose
relations nothing is left open. -/
abbrev exactly (setting : Setting) : SyntaxCheck :=
  (Sound.countable setting).and (.relations fun leaf => ∀ bound,
    setting.leaves.bounds.bound? leaf = some bound → bound.lower = bound.upper)

private theorem formed_of_exactly {setting : Setting} {expr : Expr}
    (made : (exactly setting).expr expr) : SyntaxCheck.formed.expr expr := made.1.1

variable {setting : Setting}

mutual

theorem settlesExpr (certain : setting.Certain) : ∀ {expr : Expr},
    expr.Every (exactly setting) → setting.SettlesExpr expr
  | .relation leaf, made =>
    settles_relation certain.toSound certain.never leaf (certain.unbound leaf) made.2
  | .variable leaf, _ => settles_variable certain.never leaf
  | .constant leaf, made => settles_constant certain.toSound certain.never leaf made.1.2.1
  | .binary _ _ _ _, made =>
    settles_combined certain.toSound made.1.1.1
      (Expr.countable_of_combine? made.1.1.1 (Expr.arity_pos formed_of_exactly made.2.1)
        (Expr.arity_pos formed_of_exactly made.2.2) made.2.2.root.1.2.1 made.1.1.2.1
        made.1.1.2.2)
      (settlesExpr certain made.2.1) (settlesExpr certain made.2.2)
  | .union _ _, made =>
    settles_union certain.toSound (settlesExprs certain made.2)
      (Expr.arities_of_unionAll? made.1.1.1)
  | .ite _ _ _ _, made =>
    have arities := Formula.arity_of_choose? made.1.1.1
    settles_chosenExpr arities.2.symm (arities.1.symm.trans arities.2.symm)
      (settlesFormula certain made.2.1) (settlesExpr certain made.2.2.1)
      (settlesExpr certain made.2.2.2)
  | .ofInt cast _, made =>
    settles_cast certain.toSound cast made.1.1.2.1 (settlesInt certain made.2)

theorem settlesExprs (certain : setting.Certain) : ∀ {operands : List Expr},
    Expr.EveryAll (exactly setting) operands → ∀ operand ∈ operands, setting.SettlesExpr operand
  | [], _ => fun _ member => nomatch member
  | _ :: _, made =>
    List.forall_mem_cons.mpr ⟨settlesExpr certain made.1, settlesExprs certain made.2⟩

theorem settlesFormula (certain : setting.Certain) : ∀ {formula : Formula},
    formula.Every (exactly setting) → setting.SettlesFormula formula
  | .literal value, _ => (settles_truth value).1
  | .constant value, _ => (settles_truth value).2
  | .binary op _ _, made =>
    settles_connected op (settlesFormula certain made.2.1) (settlesFormula certain made.2.2)
  | .nary _ _, made =>
    settles_listed (Connective.of_formed made.1.1.1) (settlesFormulas certain made.2)
  | .not _, made => settles_negated (settlesFormula certain made.2)
  | .compare op _ _, made =>
    settles_compared op (settlesExpr certain made.2.1) (settlesExpr certain made.2.2)
  | .multiplicity amount _, made => settles_multiplicity amount (settlesExpr certain made.2)
  | .quantified quantifier _ _, made =>
    settles_quantified quantifier (settlesDecls certain made.2.1)
      (settlesFormula certain made.2.2)
  | .compareInts op _ _, made =>
    settles_comparedInts op (settlesInt certain made.2.1) (settlesInt certain made.2.2)

theorem settlesFormulas (certain : setting.Certain) : ∀ {operands : List Formula},
    Formula.EveryAll (exactly setting) operands →
    ∀ operand ∈ operands, setting.SettlesFormula operand
  | [], _ => fun _ member => nomatch member
  | _ :: _, made =>
    List.forall_mem_cons.mpr ⟨settlesFormula certain made.1, settlesFormulas certain made.2⟩

theorem settlesInt (certain : setting.Certain) : ∀ {value : IntExpr},
    value.Every (exactly setting) → setting.SettlesInt value
  | .constant value, _ => settles_integer value
  | .binary op _ _, made =>
    settles_operated op (settlesInt certain made.2.1) (settlesInt certain made.2.2)
  | .unary op _, made => settles_unary op (settlesInt certain made.2)
  | .sum _, made => settles_sum (settlesInts certain made.2)
  | .count _, made => settles_count (settlesExpr certain made.2)
  | .sumOver _ _, made =>
    settles_sumOver (settlesDecls certain made.2.1) (settlesInt certain made.2.2)
  | .ite _ _ _, made =>
    settles_chosenInt (settlesFormula certain made.2.1) (settlesInt certain made.2.2.1)
      (settlesInt certain made.2.2.2)
  | .sumOf _, made => settles_sumOf certain.toSound (settlesExpr certain made.2)

theorem settlesInts (certain : setting.Certain) : ∀ {operands : List IntExpr},
    IntExpr.EveryAll (exactly setting) operands →
    ∀ operand ∈ operands, setting.SettlesInt operand
  | [], _ => fun _ member => nomatch member
  | _ :: _, made =>
    List.forall_mem_cons.mpr ⟨settlesInt certain made.1, settlesInts certain made.2⟩

theorem settlesDecls (certain : setting.Certain) : ∀ {declarations : List Decl},
    Decl.EveryAll (exactly setting) declarations → setting.SettlesDecls declarations
  | [], _ => trivial
  | .oneOf _ _ :: _, made =>
    ⟨Decl.arity_of_oneOf? made.1.1.1,
      Index.capacity_of_lt certain.positive made.2.1.root.1.2.1, settlesExpr certain made.2.1,
      settlesDecls certain made.2.2⟩

end

end Certain

end Setting

end ModelFinder
