import Std.Data.ExtTreeMap
/-!
Lists in groups. The groups of a list hold its elements by a number that each element has;
within a group the elements keep their order. Looking up one group costs less than going
through the list, so many look-ups should share the groups.
-/

namespace ModelFinder.Grouping

def groups {α : Type} (number : α → Nat) (elements : List α) : Std.ExtTreeMap Nat (List α) :=
  elements.foldr
    (fun element groups =>
      let key := number element
      groups.insert key (element :: groups.getD key []))
    ∅

theorem getD_groups {α : Type} (number : α → Nat) (elements : List α) (key : Nat) :
    (groups number elements).getD key [] =
      elements.filter fun element => number element == key := by
  induction elements with
  | nil => simp [groups]
  | cons element rest hypothesis =>
    simp only [groups, List.foldr_cons] at hypothesis ⊢
    rw [Std.ExtTreeMap.getD_insert]
    by_cases same : number element = key
    · subst same
      simp [hypothesis]
    · simp [hypothesis, same]

example : (groups (· / 10) [12, 5, 17, 11]).toList = [(0, [5]), (1, [12, 17, 11])] := by
  decide +kernel

end ModelFinder.Grouping
