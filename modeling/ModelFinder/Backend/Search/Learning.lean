import ModelFinder.Digits
import ModelFinder.Backend.Search.Explanation
import ModelFinder.Backend.Search.Guidance
/-!
A search that learns from conflicts. It decides literals and lets clauses force others. A
conflict adds the clause that explains it to what is known, and the search goes back to the
earliest level where this clause forces a literal. From time to time it begins again, and
forgets half of the derived clauses once there are many.

What is known and how it is watched stay from one run to the next, so clauses may be added
between runs.
-/

namespace ModelFinder

/-- A search with what it knows. By clause, `spans` has zero for added clauses, and for
derived ones the number of levels that they joined. The first `settled` literals of the trail
are facts. Variables below `bound` have a place in all tables. No clauses are forgotten as
long as there are no more than `capacity` derived ones. -/
structure Learner where
  known : Knowledge
  propagation : Propagation
  guidance : Guidance
  spans : Array Nat
  settled : Nat
  bound : Nat
  capacity : Nat

namespace Learner

def empty : Learner := ⟨.empty, .empty, .empty, #[], 0, 0, 2000⟩

def trail (learner : Learner) : Trail := learner.propagation.trail

def cover (learner : Learner) (name : Nat) : Learner :=
  if name < learner.bound then learner
  else
    let bound := name + 1
    { learner with
      known := learner.known.cover bound
      propagation := learner.propagation.cover bound
      guidance := learner.guidance.cover bound
      bound := bound }

def retract : Nat → Trail → Guidance → Trail × Guidance
  | 0, trail, guidance => (trail, guidance)
  | count + 1, trail, guidance =>
    match trail.last? with
    | none => (trail, guidance)
    | some literal => retract count (trail.pop literal) (guidance.leave literal)

def backTo (learner : Learner) (level : Nat) : Learner :=
  let length := learner.trail.lengthUpTo level
  let count := learner.trail.literals.size - length
  let { known, propagation, guidance, spans, settled, bound, capacity } := learner
  let { trail, watched, watchers, attended } := propagation
  let (trail, guidance) := retract count { trail with starts := trail.starts.take level } guidance
  let propagation := ⟨trail, watched, watchers, Nat.min attended length⟩
  ⟨known, propagation, guidance, spans, settled, bound, capacity⟩

def conclude (learner : Learner) (index : Nat) : Learner :=
  { learner with known := learner.known.conclude index }

def force (learner : Learner) (literal : Literal) (index : Nat) : Learner :=
  { learner with propagation := learner.propagation.force literal index }

/-- Adds a clause with its span, to be watched through two literals. -/
def record (learner : Learner) (clause : Clause) (span : Nat) (first second : Literal) :
    Learner :=
  { learner with
    known := learner.known.add clause
    propagation := learner.propagation.watch first second
    spans := learner.spans.push span }

def add (learner : Learner) (clause : Clause) : Learner :=
  let learner := (learner.backTo 0).cover (clause.largestVariable 0)
  let names := clause.map Int.natAbs
  let learner := { learner with guidance := names.foldl Guidance.enter learner.guidance }
  let index := learner.known.clauses.size
  match learner.known.trim clause with
  | [] => (learner.record clause 0 1 1).conclude index
  | first :: rest =>
    match rest.find? (· != first) with
    | some second => learner.record clause 0 first second
    | none =>
      let learner := (learner.record clause 0 first first).conclude index
      if learner.trail.holds first then learner else learner.force first index

/-- Draws the conclusions from the clauses that forced literals on level zero. -/
def settle (learner : Learner) : Learner :=
  if learner.trail.depth = 0 then
    let forced := learner.trail.literals.extract learner.settled
    let reasons := forced.filterMap fun literal => learner.trail.reason? literal.natAbs
    reasons.foldl conclude { learner with settled := learner.settled + forced.size }
  else learner

def propagate (learner : Learner) : Option Nat × Learner :=
  let { known, propagation, guidance, spans, settled, bound, capacity } := learner
  let (conflict, propagation) := propagation.complete known
  let learner : Learner := ⟨known, propagation, guidance, spans, settled, bound, capacity⟩
  (conflict, learner.settle)

def learn (learner : Learner) (conflict : Nat) : Learner :=
  let explanation :=
    Explanation.ofConflict learner.known learner.trail (learner.known.clause conflict)
  match explanation with
  | none => learner.conclude conflict
  | some (literal, others, seen) =>
    let levels := others.map fun other => learner.trail.level other.natAbs
    let level := levels.foldl Nat.max 0
    let second := others.find? fun other => learner.trail.level other.natAbs == level
    let span := (Std.TreeSet.ofList levels).size + 1
    let learner := { learner with guidance := learner.guidance.learn seen }.backTo level
    let index := learner.known.clauses.size
    let learner := learner.record (literal :: others) span literal (second.getD literal)
    let learner := if second.isNone then learner.conclude index else learner
    learner.force literal index

def retain (learner : Learner) (clause : Clause) (span : Nat) : Learner :=
  match learner.known.trim clause with
  | [] => learner
  | first :: rest =>
    match rest.find? (· != first) with
    | some second => learner.record (first :: rest) span first second
    | none => learner

/-- Forgets the derived clauses with the larger spans, if there are many, and the clauses
that hold by facts. -/
def forget (learner : Learner) : Learner :=
  let derived := learner.spans.toList.filter (2 < ·)
  if derived.length ≤ learner.capacity then learner
  else
    let limit := derived.mergeSort.getD (derived.length / 2) 0
    let kept := (learner.known.clauses.zip learner.spans).filter fun (clause, span) =>
      span < limit && !clause.any learner.trail.holds
    kept.foldl (fun kept (clause, span) => kept.retain clause span)
      { learner with
        known := { learner.known with clauses := #[] }
        propagation := learner.propagation.unwatch
        spans := #[]
        capacity := learner.capacity + 300 }

def restart (learner : Learner) : Learner :=
  let learner := (learner.backTo 0).forget
  { learner with guidance := learner.guidance.restart }

def choose (learner : Learner) : Option Literal × Learner :=
  let { known, propagation, guidance, spans, settled, bound, capacity } := learner
  let (literal, guidance) := guidance.choose propagation.trail.assigns
  (literal, ⟨known, propagation, guidance, spans, settled, bound, capacity⟩)

def decide (learner : Learner) (literal : Literal) : Learner :=
  { learner with
    propagation := { learner.propagation with trail := learner.propagation.trail.decide literal } }

/-- Searches for a number of steps. The answer is negative if what is known is contradictory,
and positive if every variable has a value and no clause is in conflict. -/
def runWithin : Nat → Learner → Option Bool × Learner
  | 0, learner => (none, learner)
  | steps + 1, learner =>
    if learner.known.contradictory then (some false, learner)
    else
      match learner.propagate with
      | (some conflict, learner) =>
        runWithin steps
          (if learner.trail.depth = 0 then learner.conclude conflict else learner.learn conflict)
      | (none, learner) =>
        if learner.guidance.remaining = 0 then runWithin steps learner.restart
        else
          match learner.choose with
          | (none, learner) => (some true, learner)
          | (some literal, learner) => runWithin steps (learner.decide literal)

/-- The number of steps after which a search gives up. -/
def patience : Nat := Digits.weight 40

def run (learner : Learner) : Option Bool × Learner := learner.runWithin patience

end Learner

end ModelFinder
