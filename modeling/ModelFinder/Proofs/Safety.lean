import Mathlib
import ModelFinder.Scope
import ModelFinder.Proofs.Index
/-!
Results that have a property, and failures that are no broken assertions. Operations on positions
keep them in range whenever they give a result, and they give one as long as the numbers on the way
to it can be counted.
-/

namespace ModelFinder

def Error.Reported : Error → Prop
  | .violation _ => False
  | _ => True

/-- A result has a property. A failure is not a broken assertion, if this is promised. -/
def Meets {α : Type} (safe : Prop) (post : α → Prop) : Except Error α → Prop
  | .ok value => post value
  | .error error => safe → error.Reported

namespace Meets

variable {α β : Type} {safe : Prop}

theorem of_total {outcome : Except Error α} {post : α → Prop}
    (sound : ∀ value, outcome = .ok value → post value)
    (total : safe → ∃ value, outcome = .ok value) : Meets safe post outcome := by
  cases outcome with
  | ok value => exact sound value rfl
  | error error =>
      intro isSafe
      rcases total isSafe with ⟨value, impossible⟩
      cases impossible

theorem bind {outcome : Except Error α} {next : α → Except Error β} {middle : α → Prop}
    {post : β → Prop} (first : Meets safe middle outcome)
    (second : ∀ value, middle value → Meets safe post (next value)) :
    Meets safe post (outcome >>= next) := by
  cases outcome with
  | ok value => exact second value first
  | error error => exact first

theorem mapM {elements : List α} {action : α → Except Error β} {post : β → Prop}
    (each : ∀ element ∈ elements, Meets safe post (action element)) :
    Meets safe (fun results => ∀ result ∈ results, post result) (elements.mapM action) := by
  induction elements with
  | nil => exact List.forall_mem_nil _
  | cons element rest hypothesis =>
      rw [List.forall_mem_cons] at each
      rw [List.mapM_cons]
      refine bind each.1 fun result holds => bind (hypothesis each.2) fun results others => ?_
      exact List.forall_mem_cons.mpr ⟨holds, others⟩

end Meets

def Scope.Binds {α : Type} (post : Variable → α → Prop) (scope : Scope α) : Prop :=
  ∀ (leaf : Variable) (value : α), scope.lookup leaf = some value → post leaf value

namespace Scope

variable {α : Type} {post : Variable → α → Prop}

theorem binds_empty (post : Variable → α → Prop) : empty.Binds post := by
  intro leaf value found
  cases found

theorem Binds.extend {scope : Scope α} (binds : scope.Binds post) {declared : Variable} {bound : α}
    (holds : post declared bound) : (scope.extend declared bound).Binds post := by
  intro leaf value found
  by_cases same : declared = leaf
  · subst same
    rw [lookup_extend_self] at found
    exact Option.some.inj found ▸ holds
  · rw [lookup, Scope.extend, List.find?_cons_of_neg (by simpa using same)] at found
    exact binds leaf value found

end Scope

namespace Index

theorem bounds_of_rowLength {base rest length : Nat} (positive : 0 < base)
    (counted : rowLength base (rest + 1) = .ok length) : 0 < length ∧ length ≤ base ^ rest := by
  unfold rowLength capacity at counted
  dsimp only at counted
  split at counted
  · cases counted
  · split at counted
    · cases counted
    · rw [of_word counted]
      refine ⟨Nat.pow_pos positive, Nat.pow_le_pow_right positive ?_⟩
      have low := Nat.mod_le (rest + 1) UInt32.size
      have lower := Nat.mod_le ((rest + 1) % UInt32.size - 1) UInt32.size
      omega

theorem le_of_capacity {base arity counted : Nat} (positive : 0 < base)
    (same : capacity base arity = .ok counted) : counted ≤ base ^ arity := by
  unfold capacity at same
  dsimp only at same
  split at same
  · cases same
  · rw [of_word same]
    exact Nat.pow_le_pow_right positive (Nat.mod_le _ _)

/-- Joining never leads out of range, even if rows are counted short. -/
theorem joined_lt_of_le {base before rest length left right : Nat} (positive : 0 < base)
    (some : 0 < length) (short : length ≤ base ^ rest) (leftInRange : left < base ^ (before + 1)) :
    joined base length left right < base ^ (before + rest) := by
  have high : left / base < base ^ before := by
    rw [Nat.div_lt_iff_lt_mul positive, ← pow_succ]
    exact leftInRange
  have low : right % length < length := Nat.mod_lt _ some
  calc
    joined base length left right < (left / base + 1) * length := by
      rw [joined, Nat.succ_mul]
      omega
    _ ≤ base ^ before * base ^ rest := Nat.mul_le_mul (Nat.succ_le_of_lt high) short
    _ = base ^ (before + rest) := (pow_add base before rest).symm

theorem continued_lt_of_le {base before after counted left right : Nat}
    (short : counted ≤ base ^ after) (leftInRange : left < base ^ before)
    (rightInRange : right < base ^ after) :
    left * counted + right < base ^ (before + after) :=
  (Nat.add_le_add_right (Nat.mul_le_mul_left left short) right).trans_lt
    (continued_lt leftInRange rightInRange)

section

variable {safe : Prop} {base before rest after : Nat}

theorem meets_word {value bound : Nat} (inRange : value < bound)
    (small : safe → bound ≤ limit) : Meets safe (· < bound) (word value) :=
  .of_total (fun _ same => (of_word same).trans_lt inRange) fun isSafe =>
    ⟨value, word_of_lt (inRange.trans_le (small isSafe))⟩

theorem Joinable.meets_columns (joinable : safe → Joinable base before rest) :
    Meets safe (· = before + 1 + (rest + 1)) (Index.columns (before + 1) (rest + 1)) :=
  .of_total (fun _ => of_columns) fun isSafe => ⟨_, (joinable isSafe).columns⟩

theorem Joinable.meets_rowLength (positive : 0 < base)
    (joinable : safe → Joinable base before rest) :
    Meets safe (fun length => 0 < length ∧ length ≤ base ^ rest ∧ (safe → length = base ^ rest))
      (rowLength base (rest + 1)) := by
  have counted (isSafe : safe) : rowLength base (rest + 1) = .ok (base ^ rest) :=
    (joinable isSafe).rowLength_eq positive
  refine .of_total (fun length same => ?_) fun isSafe => ⟨_, counted isSafe⟩
  have bounds := bounds_of_rowLength positive same
  exact ⟨bounds.1, bounds.2, fun isSafe => Except.ok.inj (same.symm.trans (counted isSafe))⟩

theorem Joinable.meets_matching {α : Type} {position : α → Nat} {elements : List α}
    {length left : Nat} (positive : 0 < base) (joinable : safe → Joinable base before rest)
    (isPower : safe → length = base ^ rest) :
    Meets safe (fun _ => True) (matching? (rows position length elements) base length left) := by
  refine .of_total (fun _ _ => trivial) fun isSafe => ?_
  rw [isPower isSafe]
  exact ⟨_, matching?_of_lt position elements (joinable isSafe).right positive⟩

theorem Continuable.meets_columns (continuable : safe → Continuable base before after) :
    Meets safe (· = before + after) (Index.columns before after) :=
  .of_total (fun _ => of_columns) fun isSafe => ⟨_, (continuable isSafe).columns⟩

theorem Continuable.meets_capacity (positive : 0 < base)
    (continuable : safe → Continuable base before after) :
    Meets safe (· ≤ base ^ after) (capacity base after) :=
  .of_total (fun _ => le_of_capacity positive) fun isSafe =>
    ⟨_, capacity_of_lt positive (continuable isSafe).right⟩

end

end Index

end ModelFinder
