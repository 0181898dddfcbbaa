import ModelFinder.Backend.Search.Trail
/-!
Forced literals. Every clause is watched through two of its literals, and as long as neither
is false the clause forces nothing. So when a literal becomes false, only the clauses that
it watches are visited: such a clause is watched through another literal that is not false,
or it forces its other watched literal, or all its literals are false and it is in conflict
with the trail.
-/

namespace ModelFinder

/-- A trail and its watches: the two literals through which clause `k` is watched are at
`2 * k` and `2 * k + 1`, and `watchers` has, by place, the clauses that a literal watches.
The first `attended` literals of the trail have had their consequences drawn. -/
structure Propagation where
  trail : Trail
  watched : Array Literal
  watchers : Array (List Nat)
  attended : Nat

namespace Propagation

def empty : Propagation := ⟨.empty, #[], #[], 0⟩

def cover (state : Propagation) (bound : Nat) : Propagation :=
  { state with
    trail := state.trail.cover bound
    watchers := state.watchers.rightpad (2 * bound) [] }

@[inline] def attach (state : Propagation) (literal : Literal) (index : Nat) : Propagation :=
  { state with watchers := state.watchers.modify literal.place (index :: ·) }

def watch (state : Propagation) (first second : Literal) : Propagation :=
  let index := state.watched.size / 2
  let state := { state with watched := (state.watched.push first).push second }
  (state.attach first index).attach second index

/-- Drops all clauses. The trail stays, but nothing tells any more why its literals hold. -/
def unwatch (state : Propagation) : Propagation :=
  let count := state.watchers.size
  { state with
    trail := state.trail.withoutReasons
    watched := #[]
    watchers := Array.replicate count [] }

def release (state : Propagation) (literal : Literal) : List Nat × Propagation :=
  let (clauses, watchers) := state.watchers.swapAt! literal.place []
  (clauses, { state with watchers := watchers })

def retain (state : Propagation) (literal : Literal) (clauses : List Nat) : Propagation :=
  { state with watchers := state.watchers.setIfInBounds literal.place clauses }

@[inline] def force (state : Propagation) (literal : Literal) (index : Nat) : Propagation :=
  { state with trail := state.trail.push literal (some index) }

def substitute? (trail : Trail) (other : Literal) : Clause → Option Literal
  | [] => none
  | literal :: rest =>
    if literal != other && !trail.refutes literal then some literal
    else substitute? trail other rest

/-- Visits clauses that a false literal watches, up to the first one in conflict, which is
given. Collects the clauses that the literal keeps watching. -/
def visit (known : Knowledge) (refuted : Literal) :
    List Nat → List Nat → Propagation → Option Nat × Propagation
  | [], kept, state => (none, state.retain refuted kept)
  | index :: rest, kept, state =>
    let first := state.watched.getD (2 * index) refuted
    let isFirst := first == refuted
    let other := if isFirst then state.watched.getD (2 * index + 1) refuted else first
    if state.trail.holds other then visit known refuted rest (index :: kept) state
    else
      match substitute? state.trail other (known.clause index) with
      | some literal =>
        let side := if isFirst then 2 * index else 2 * index + 1
        let state := { state with watched := state.watched.setIfInBounds side literal }
        visit known refuted rest kept (state.attach literal index)
      | none =>
        if state.trail.refutes other then
          (some index, state.retain refuted (rest.reverseAux (index :: kept)))
        else visit known refuted rest (index :: kept) (state.force other index)

/-- Draws the consequences of a number of literals of the trail, up to the first conflict. -/
def run (known : Knowledge) : Nat → Propagation → Option Nat × Propagation
  | 0, state => (none, state)
  | count + 1, state =>
    match state.trail.literals[state.attended]? with
    | none => (none, state)
    | some literal =>
      let (clauses, state) := { state with attended := state.attended + 1 }.release (-literal)
      match visit known (-literal) clauses [] state with
      | (none, state) => run known count state
      | (some conflict, state) => (some conflict, state)

/-- Draws the consequences of all literals of the trail. There are no more of them than
there are places for literals. -/
def complete (known : Knowledge) (state : Propagation) : Option Nat × Propagation :=
  state.run known state.watchers.size

/-- Two clauses force a literal and its negation. -/
example :
    let known := ((Knowledge.empty.cover 3).add [1, 2]).add [1, -2]
    let state := ((empty.cover 3).watch 1 2).watch 1 (-2)
    (({ state with trail := state.trail.decide (-1) } : Propagation).complete known).1.isSome := by
  decide +kernel

end Propagation

end ModelFinder
