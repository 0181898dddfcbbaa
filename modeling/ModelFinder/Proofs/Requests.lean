import Mathlib
import ModelFinder.Proofs.Bounds
import ModelFinder.Proofs.Instance
import ModelFinder.Proofs.Outcomes
/-!
Bounds and instances that are changed request by request. A request is performed or refused, and
a refused one changes nothing. After any requests, what is bound is what the performed requests
bound last, in the order in which they bound it first.
-/

namespace ModelFinder

/-! Requests one after the other -/

section

variable {ρ σ : Type} (perform? : ρ → σ → Except Error σ)

def serve (request : ρ) : ExceptT Error (StateM σ) Unit := do
  set (← perform? request (← get))

def serveAll (requests : List ρ) : StateM σ (List (Except Error Unit)) :=
  requests.mapM fun request => (serve perform? request).run

/-- The requests that were not refused, in their order. -/
def performed (requests : List ρ) (outcomes : List (Except Error Unit)) : List ρ :=
  ((requests.zip outcomes).filter fun step => step.2.isOk).map Prod.fst

theorem serve_run (request : ρ) (state : σ) :
    (serve perform? request).run.run state =
      match perform? request state with
      | .ok after => (.ok (), after)
      | .error error => (.error error, state) := by
  have opened : (serve perform? request).run.run state =
      (do set (← perform? request state) : ExceptT Error (StateM σ) Unit).run.run state := rfl
  rw [opened]
  cases perform? request state with
  | ok after => rfl
  | error error => rfl

theorem serve_refused {request : ρ} {state after : σ} {error : Error}
    (refused : (serve perform? request).run.run state = (.error error, after)) :
    after = state := by
  rw [serve_run] at refused
  cases outcome : perform? request state with
  | ok changed =>
      rw [outcome] at refused
      cases refused
  | error cause =>
      rw [outcome] at refused
      exact (congrArg Prod.snd refused).symm

theorem serveAll_cons (request : ρ) (rest : List ρ) (state : σ) :
    (serveAll perform? (request :: rest)).run state =
      let served := (serve perform? request).run.run state
      let others := (serveAll perform? rest).run served.2
      (served.1 :: others.1, others.2) := by
  rw [serveAll, List.mapM_cons]
  rfl

variable {perform?}

/-- What holds of the state before and is kept by every request that is performed holds after
all requests, of those that were performed. The requests that can be performed are told apart
without regard to the state. -/
theorem serveAll_keeps (holds : List ρ → σ → Prop) {admissible : ρ → Prop}
    (step : ∀ {before : List ρ} {state : σ} (request : ρ), holds before state →
      ((perform? request state).isOk = true ↔ admissible request) ∧
        ∀ after, perform? request state = .ok after → holds (before ++ [request]) after)
    (requests : List ρ) {before : List ρ} {state : σ} (start : holds before state) :
    let served := (serveAll perform? requests).run state
    List.Forall₂ (fun request outcome => outcome.isOk = true ↔ admissible request) requests
        served.1 ∧
      holds (before ++ performed requests served.1) served.2 := by
  induction requests generalizing before state with
  | nil =>
      refine ⟨.nil, ?_⟩
      change holds (before ++ []) state
      rwa [List.append_nil]
  | cons request rest hypothesis =>
      rcases step request start with ⟨accepted, kept⟩
      rw [serveAll_cons, serve_run]
      cases outcome : perform? request state with
      | ok after =>
          rw [outcome] at accepted
          rcases hypothesis (kept after outcome) with ⟨outcomes, holdsAfter⟩
          rw [List.append_assoc] at holdsAfter
          exact ⟨.cons accepted outcomes, holdsAfter⟩
      | error error =>
          rw [outcome] at accepted
          rcases hypothesis start with ⟨outcomes, holdsAfter⟩
          exact ⟨.cons accepted outcomes, holdsAfter⟩

end

/-! Sets of a single atom -/

namespace TupleSet

structure Single (univ : Universe) (set : TupleSet) : Prop where
  univ_eq : set.univ = univ
  arity_eq : set.arity = 1
  size_eq : set.size = 1

theorem singleAtom?_eq_some_iff {set : TupleSet} {atom : Nat} :
    set.singleAtom? = some atom ↔ set = .ofAtomIndex set.univ atom := by
  constructor
  · intro single
    rw [singleAtom?] at single
    split at single
    · rename_i unary
      split at single
      · rename_i index only
        cases single
        refine ext_iff.mpr ⟨rfl, unary, fun index => ?_⟩
        rw [Bool.eq_iff_iff, mem_ofAtomIndex, ← mem_toList, only, List.mem_singleton]
      · cases single
    · cases single
  · intro same
    rw [same]
    exact singleAtom?_ofAtomIndex _ _

theorem single_iff {univ : Universe} {set : TupleSet} :
    set.Single univ ↔ set.univ = univ ∧ ∃ atom, set.singleAtom? = some atom := by
  constructor
  · intro single
    refine ⟨single.univ_eq, ?_⟩
    have length := single.size_eq
    rw [size_eq_length] at length
    rcases List.length_eq_one_iff.mp length with ⟨atom, only⟩
    exact ⟨atom, by rw [singleAtom?, if_pos single.arity_eq, only]⟩
  · rintro ⟨sameUniverse, atom, single⟩
    have same := singleAtom?_eq_some_iff.mp single
    rw [sameUniverse] at same
    rw [same]
    refine ⟨rfl, rfl, ?_⟩
    rw [size_eq_length]
    have only : (ofAtomIndex univ atom).toList = [atom] := by
      apply toList_eq (List.pairwise_singleton _ _)
      intro index
      rw [List.mem_singleton, mem_ofAtomIndex]
    rw [only]
    rfl

end TupleSet

/-! Atoms of integers -/

namespace IntAtoms

theorem exists_intOf? {atoms : IntAtoms} {value : Int} {atom : Nat}
    (bound : atoms[value]? = some atom) :
    ∃ least, atoms.intOf? atom = some least ∧ least ≤ value ∧ atoms[least]? = some atom := by
  have member : (value, atom) ∈ atoms.toList :=
    Std.ExtTreeMap.mem_toList_iff_getElem?_eq_some.mpr bound
  cases found : atoms.toList.find? fun entry => entry.2 == atom with
  | none => exact absurd (beq_self_eq_true atom) (List.find?_eq_none.mp found _ member)
  | some entry =>
      rcases entry with ⟨least, other⟩
      rcases List.find?_eq_some_iff_append.mp found with ⟨same, smaller, larger, split, others⟩
      obtain rfl : other = atom := beq_iff_eq.mp same
      have leastMember := List.mem_of_find?_eq_some found
      refine ⟨least, by rw [intOf?, found]; rfl, ?_,
        Std.ExtTreeMap.mem_toList_iff_getElem?_eq_some.mp leastMember⟩
      have ordered := Std.ExtTreeMap.ordered_keys_toList (t := atoms)
      rw [split, List.pairwise_append] at ordered
      rw [split] at member
      rcases List.mem_append.mp member with before | after
      · have differs := others _ before
        simp at differs
      · rcases List.mem_cons.mp after with equal | later
        · rw [(Prod.mk.inj equal).1]
        · have less := List.rel_of_pairwise_cons ordered.2.1 later
          exact (compare_lt_iff_lt.mp less).le

/-- What is left of sets that integers were bound to one after the other: every integer has the
only atom of its last set, an atom of the universe if the members of the sets are tuples, and of
the integers of an atom the smallest stands for it. -/
structure Records (univ : Universe) (given : List (Int × TupleSet)) (atoms : IntAtoms) : Prop where
  last : ∀ value : Int, atoms[value]?.map (TupleSet.ofAtomIndex univ) =
    (given.findRev? fun entry => entry.1 == value).map Prod.snd
  inside : (∀ entry ∈ given, entry.2.InRange) →
    ∀ (value : Int) (atom : Nat), atoms[value]? = some atom → atom < univ.size
  least : ∀ (value : Int) (atom : Nat), atoms[value]? = some atom →
    ∃ smallest, atoms.intOf? atom = some smallest ∧ smallest ≤ value ∧
      atoms[smallest]? = some atom

variable {univ : Universe} {given : List (Int × TupleSet)} {atoms : IntAtoms}

theorem Records.insert (records : atoms.Records univ given) (value : Int) {tuples : TupleSet}
    {atom : Nat} (sameUniverse : tuples.univ = univ) (single : tuples.singleAtom? = some atom) :
    IntAtoms.Records univ (given ++ [(value, tuples)]) (atoms.insert value atom) where
  last other := by
    have named := TupleSet.singleAtom?_eq_some_iff.mp single
    rw [sameUniverse] at named
    rw [Std.ExtTreeMap.getElem?_insert, List.findRev?_eq_find?_reverse, List.reverse_append,
      List.reverse_singleton, List.singleton_append, List.find?_cons]
    by_cases same : value = other
    · simp [same, named]
    · rw [if_neg (by simpa using same), records.last other, List.findRev?_eq_find?_reverse,
        beq_eq_false_iff_ne.mpr same]
  inside inRange other atom' bound := by
    rw [Std.ExtTreeMap.getElem?_insert] at bound
    split at bound
    · cases bound
      have within := (inRange _ (List.mem_append_right _ List.mem_cons_self)).atom_lt single
      rwa [sameUniverse] at within
    · exact records.inside (fun entry member => inRange entry (List.mem_append_left _ member))
        other atom' bound
  least _ _ := exists_intOf?

end IntAtoms

/-! Bounds -/

structure RelationBound.Fits (univ : Universe) (bound : RelationBound) : Prop where
  lower_univ : bound.lower.univ = univ
  upper_univ : bound.upper.univ = univ
  lower_arity : bound.lower.arity = bound.relation.arity
  upper_arity : bound.upper.arity = bound.relation.arity
  subset : ∀ index, bound.lower.containsIndex index = true →
    bound.upper.containsIndex index = true

namespace Bounds

inductive Request
  | bind (relation : Relation) (lower upper : TupleSet)
  | bindExactly (relation : Relation) (tuples : TupleSet)
  | bindInt (value : Int) (tuples : TupleSet)

namespace Request

def perform? : Request → Bounds → Except Error Bounds
  | bind relation lower upper, bounds => bounds.bind? relation lower upper
  | bindExactly relation tuples, bounds => bounds.bindExactly? relation tuples
  | bindInt value tuples, bounds => bounds.bindInt? value tuples

def entry? : Request → Option RelationBound
  | bind relation lower upper => some ⟨relation, lower, upper⟩
  | bindExactly relation tuples => some ⟨relation, tuples, tuples⟩
  | bindInt _ _ => none

def int? : Request → Option (Int × TupleSet)
  | bindInt value tuples => some (value, tuples)
  | _ => none

def Admissible (univ : Universe) : Request → Prop
  | bind relation lower upper => RelationBound.Fits univ ⟨relation, lower, upper⟩
  | bindExactly relation tuples => RelationBound.Fits univ ⟨relation, tuples, tuples⟩
  | bindInt _ tuples => tuples.Single univ

end Request

/-- What bounds over a universe are after relations and integers were bound one after the other:
the relations stand in the order in which they were bound first, each with the last bounds that
it was given, and no other relation has any. -/
structure Records (univ : Universe) (given : List RelationBound) (ints : List (Int × TupleSet))
    (bounds : Bounds) : Prop where
  univ_eq : bounds.univ = univ
  distinct : bounds.relations.Nodup
  ordered : bounds.relations = (given.map RelationBound.relation).eraseDups
  bound : ∀ relation ∈ bounds.relations, ∃ lower upper,
    (given.findRev? fun entry => entry.relation == relation) = some ⟨relation, lower, upper⟩ ∧
    bounds.lower? relation = some lower ∧ bounds.upper? relation = some upper ∧
    RelationBound.Fits univ ⟨relation, lower, upper⟩
  unbound : ∀ relation ∉ bounds.relations,
    bounds.lower? relation = none ∧ bounds.upper? relation = none
  ints : bounds.intAtoms.Records univ ints

structure Keeps (univ : Universe) (given : List RelationBound) (ints : List (Int × TupleSet))
    (bounds : Bounds) : Prop where
  univ_eq : bounds.univ = univ
  entries : Entries.Records RelationBound.relation given bounds.entries
  fits : ∀ entry ∈ given, entry.Fits univ
  ints : bounds.intAtoms.Records univ ints

variable {univ : Universe} {given : List RelationBound} {ints : List (Int × TupleSet)}
  {bounds after : Bounds}

theorem Keeps.records (keeps : Keeps univ given ints bounds) :
    Records univ given ints bounds where
  univ_eq := keeps.univ_eq
  distinct := keeps.entries.distinct
  ordered := keeps.entries.ordered
  bound relation member := by
    obtain ⟨⟨_, lower, upper⟩, put, rfl, last, found⟩ := keeps.entries.found member
    refine ⟨lower, upper, last, ?_, ?_, keeps.fits _ put⟩
    · rw [lower?, bound?, found]
      rfl
    · rw [upper?, bound?, found]
      rfl
  unbound relation missing := by
    rw [lower?, upper?, bound?, Entries.find?_of_unused missing]
    exact ⟨rfl, rfl⟩
  ints := keeps.ints

theorem bind?_isOk_iff {relation : Relation} {lower upper : TupleSet} :
    (bounds.bind? relation lower upper).isOk = true ↔
      RelationBound.Fits bounds.univ ⟨relation, lower, upper⟩ := by
  constructor
  · intro accepted
    rcases Except.isOk_iff_exists.mp accepted with ⟨after, bound⟩
    rcases of_bind? bound with ⟨-, lowerUniv, upperUniv, lowerArity, upperArity, included⟩
    rw [TupleSet.isSubset_iff (lowerUniv.trans upperUniv.symm)
      (lowerArity.trans upperArity.symm)] at included
    exact ⟨lowerUniv, upperUniv, lowerArity, upperArity, included⟩
  · rintro ⟨lowerUniv, upperUniv, lowerArity, upperArity, included⟩
    dsimp only at lowerUniv upperUniv lowerArity upperArity included
    rw [← TupleSet.isSubset_iff (lowerUniv.trans upperUniv.symm)
      (lowerArity.trans upperArity.symm)] at included
    exact Except.isOk_iff_exists.mpr
      ⟨_, bind?_of_isSubset lowerUniv upperUniv lowerArity upperArity included⟩

theorem bindInt?_isOk_iff {value : Int} {tuples : TupleSet} :
    (bounds.bindInt? value tuples).isOk = true ↔ tuples.Single bounds.univ := by
  rw [TupleSet.single_iff]
  constructor
  · intro accepted
    rcases Except.isOk_iff_exists.mp accepted with ⟨after, bound⟩
    rcases of_bindInt? bound with ⟨atom, sameUniverse, single, -⟩
    exact ⟨sameUniverse, atom, single⟩
  · rintro ⟨sameUniverse, atom, single⟩
    rw [bindInt?, if_neg (not_not.mpr sameUniverse), single]
    rfl

theorem Keeps.bind (keeps : Keeps univ given ints bounds) {relation : Relation}
    {lower upper : TupleSet} (bound : bounds.bind? relation lower upper = .ok after) :
    Keeps univ (given ++ [⟨relation, lower, upper⟩]) ints after := by
  have fits : RelationBound.Fits bounds.univ ⟨relation, lower, upper⟩ :=
    bind?_isOk_iff.mp (Except.isOk_iff_exists.mpr ⟨after, bound⟩)
  rw [keeps.univ_eq] at fits
  rcases of_bind? bound with ⟨rfl, -⟩
  refine ⟨keeps.univ_eq, ?_, ?_, keeps.ints⟩
  · rw [put_eq]
    exact keeps.entries.put _
  · intro entry member
    rcases List.mem_append.mp member with before | last
    · exact keeps.fits entry before
    · rw [List.mem_singleton.mp last]
      exact fits

theorem Keeps.bindInt (keeps : Keeps univ given ints bounds) {value : Int} {tuples : TupleSet}
    (bound : bounds.bindInt? value tuples = .ok after) :
    Keeps univ given (ints ++ [(value, tuples)]) after := by
  rcases of_bindInt? bound with ⟨atom, sameUniverse, single, rfl⟩
  exact ⟨keeps.univ_eq, keeps.entries, keeps.fits,
    keeps.ints.insert value (sameUniverse.trans keeps.univ_eq) single⟩

theorem Keeps.perform {requests : List Request}
    (keeps : Keeps univ (requests.filterMap Request.entry?) (requests.filterMap Request.int?)
      bounds) (request : Request) :
    ((request.perform? bounds).isOk = true ↔ request.Admissible univ) ∧
      ∀ after, request.perform? bounds = .ok after →
        Keeps univ ((requests ++ [request]).filterMap Request.entry?)
          ((requests ++ [request]).filterMap Request.int?) after := by
  rw [List.filterMap_append, List.filterMap_append]
  cases request with
  | bind relation lower upper =>
      refine ⟨keeps.univ_eq ▸ bind?_isOk_iff, fun after bound => ?_⟩
      have noInt : [Request.bind relation lower upper].filterMap Request.int? = [] := rfl
      rw [noInt, List.append_nil]
      exact keeps.bind bound
  | bindExactly relation tuples =>
      refine ⟨keeps.univ_eq ▸ bind?_isOk_iff, fun after bound => ?_⟩
      have noInt : [Request.bindExactly relation tuples].filterMap Request.int? = [] := rfl
      rw [noInt, List.append_nil]
      exact keeps.bind bound
  | bindInt value tuples =>
      refine ⟨keeps.univ_eq ▸ bindInt?_isOk_iff, fun after bound => ?_⟩
      have noEntry : [Request.bindInt value tuples].filterMap Request.entry? = [] := rfl
      rw [noEntry, List.append_nil]
      exact keeps.bindInt bound

end Bounds

/-! Instances -/

namespace Instance

inductive Request
  | add (relation : Relation) (tuples : TupleSet)
  | addInt (value : Int) (tuples : TupleSet)

namespace Request

def perform? : Request → Instance → Except Error Instance
  | add relation tuples, model => model.add? relation tuples
  | addInt value tuples, model => model.addInt? value tuples

def entry? : Request → Option (Relation × TupleSet)
  | add relation tuples => some (relation, tuples)
  | addInt _ _ => none

def int? : Request → Option (Int × TupleSet)
  | add _ _ => none
  | addInt value tuples => some (value, tuples)

def Admissible (univ : Universe) : Request → Prop
  | add relation tuples => tuples.univ = univ ∧ tuples.arity = relation.arity
  | addInt _ tuples => tuples.Single univ

end Request

/-- What an instance over a universe is after relations were given values and integers atoms one
after the other: the relations stand in the order in which they were given a value first, each
with its last one, and no other relation has any. -/
structure Records (univ : Universe) (given : List (Relation × TupleSet))
    (ints : List (Int × TupleSet)) (model : Instance) : Prop where
  univ_eq : model.univ = univ
  distinct : model.relations.Nodup
  ordered : model.relations = (given.map Prod.fst).eraseDups
  value : ∀ relation ∈ model.relations, ∃ tuples,
    (given.findRev? fun entry => entry.1 == relation) = some (relation, tuples) ∧
    model.tuples? relation = some tuples ∧ tuples.univ = univ ∧ tuples.arity = relation.arity
  missing : ∀ relation ∉ model.relations, model.tuples? relation = none
  ints : model.intAtoms.Records univ ints

structure Keeps (univ : Universe) (given : List (Relation × TupleSet))
    (ints : List (Int × TupleSet)) (model : Instance) : Prop where
  univ_eq : model.univ = univ
  entries : Entries.Records Prod.fst given model.entries
  fits : ∀ entry ∈ given, entry.2.univ = univ ∧ entry.2.arity = entry.1.arity
  ints : model.intAtoms.Records univ ints

variable {univ : Universe} {given : List (Relation × TupleSet)} {ints : List (Int × TupleSet)}
  {model after : Instance}

theorem Keeps.records (keeps : Keeps univ given ints model) : Records univ given ints model where
  univ_eq := keeps.univ_eq
  distinct := keeps.entries.distinct
  ordered := keeps.entries.ordered
  value relation member := by
    obtain ⟨⟨_, tuples⟩, put, rfl, last, found⟩ := keeps.entries.found member
    refine ⟨tuples, last, ?_, keeps.fits _ put⟩
    rw [tuples?, found]
    rfl
  missing relation missing := by
    rw [tuples?, Entries.find?_of_unused missing]
    rfl
  ints := keeps.ints

theorem add?_isOk_iff {relation : Relation} {tuples : TupleSet} :
    (model.add? relation tuples).isOk = true ↔
      tuples.univ = model.univ ∧ tuples.arity = relation.arity := by
  constructor
  · intro accepted
    rcases Except.isOk_iff_exists.mp accepted with ⟨after, added⟩
    exact (of_add? added).2
  · rintro ⟨sameUniverse, sameArity⟩
    rw [add?, if_neg (not_not.mpr sameUniverse), if_neg (not_not.mpr sameArity)]
    rfl

theorem addInt?_isOk_iff {value : Int} {tuples : TupleSet} :
    (model.addInt? value tuples).isOk = true ↔ tuples.Single model.univ := by
  rw [TupleSet.single_iff]
  constructor
  · intro accepted
    rcases Except.isOk_iff_exists.mp accepted with ⟨after, added⟩
    rcases of_addInt? added with ⟨atom, sameUniverse, single, -⟩
    exact ⟨sameUniverse, atom, single⟩
  · rintro ⟨sameUniverse, atom, single⟩
    rw [addInt?, if_neg (not_not.mpr sameUniverse), single]
    rfl

theorem Keeps.add (keeps : Keeps univ given ints model) {relation : Relation} {tuples : TupleSet}
    (added : model.add? relation tuples = .ok after) :
    Keeps univ (given ++ [(relation, tuples)]) ints after := by
  rcases of_add? added with ⟨rfl, sameUniverse, sameArity⟩
  refine ⟨keeps.univ_eq, ?_, ?_, keeps.ints⟩
  · rw [put_eq]
    exact keeps.entries.put _
  · intro entry member
    rcases List.mem_append.mp member with before | last
    · exact keeps.fits entry before
    · rw [List.mem_singleton.mp last]
      exact ⟨sameUniverse.trans keeps.univ_eq, sameArity⟩

theorem Keeps.addInt (keeps : Keeps univ given ints model) {value : Int} {tuples : TupleSet}
    (added : model.addInt? value tuples = .ok after) :
    Keeps univ given (ints ++ [(value, tuples)]) after := by
  rcases of_addInt? added with ⟨atom, sameUniverse, single, rfl⟩
  exact ⟨keeps.univ_eq, keeps.entries, keeps.fits,
    keeps.ints.insert value (sameUniverse.trans keeps.univ_eq) single⟩

theorem Keeps.perform {requests : List Request}
    (keeps : Keeps univ (requests.filterMap Request.entry?) (requests.filterMap Request.int?)
      model) (request : Request) :
    ((request.perform? model).isOk = true ↔ request.Admissible univ) ∧
      ∀ after, request.perform? model = .ok after →
        Keeps univ ((requests ++ [request]).filterMap Request.entry?)
          ((requests ++ [request]).filterMap Request.int?) after := by
  rw [List.filterMap_append, List.filterMap_append]
  cases request with
  | add relation tuples =>
      refine ⟨keeps.univ_eq ▸ add?_isOk_iff, fun after added => ?_⟩
      have noInt : [Request.add relation tuples].filterMap Request.int? = [] := rfl
      rw [noInt, List.append_nil]
      exact keeps.add added
  | addInt value tuples =>
      refine ⟨keeps.univ_eq ▸ addInt?_isOk_iff, fun after added => ?_⟩
      have noEntry : [Request.addInt value tuples].filterMap Request.entry? = [] := rfl
      rw [noEntry, List.append_nil]
      exact keeps.addInt added

end Instance

/-! What requests leave -/

def farm : Universe := ⟨0, ["hen", "fox"]⟩

def visits : List Bounds.Request :=
  let hen := TupleSet.ofAtomIndex farm 0
  let fox := TupleSet.ofAtomIndex farm 1
  let guest : Relation := ⟨0, "guest", 1⟩
  [.bindExactly guest fox, .bindInt 2 hen, .bind guest hen fox, .bindInt 1 hen,
    .bind guest (.empty farm 1) hen]

end ModelFinder
