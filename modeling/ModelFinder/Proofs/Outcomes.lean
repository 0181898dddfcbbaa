import Mathlib
/-!
Outcomes of steps that may fail.
-/

namespace ModelFinder

namespace Except

variable {ε α β : Type}

theorem ok_bind (value : α) (next : α → Except ε β) :
    (Except.ok value : Except ε α) >>= next = next value :=
  rfl

theorem bind_eq_ok_iff {first : Except ε α} {next : α → Except ε β} {result : β} :
    first >>= next = .ok result ↔ ∃ value, first = .ok value ∧ next value = .ok result := by
  cases first <;> simp [bind, Except.bind]

theorem map_eq_ok_iff {first : Except ε α} {change : α → β} {result : β} :
    first.map change = .ok result ↔ ∃ value, first = .ok value ∧ change value = result := by
  cases first <;> simp [Except.map]

theorem isOk_iff_exists {result : Except ε α} :
    result.isOk = true ↔ ∃ value, result = .ok value := by
  cases result with
  | error error => simp [Except.isOk, Except.toBool]
  | ok value => simp [Except.isOk, Except.toBool]

theorem toOption_eq_some_iff {result : Except ε α} {value : α} :
    result.toOption = some value ↔ result = .ok value := by
  cases result with
  | error error => simp [Except.toOption]
  | ok other => simp [Except.toOption]

theorem exists_ok_of_map {result : Except ε α} {change : α → β} {found : β}
    (computed : result.toOption.map change = some found) :
    ∃ value, result = .ok value ∧ change value = found := by
  rcases Option.map_eq_some_iff.mp computed with ⟨value, same, changed⟩
  exact ⟨value, toOption_eq_some_iff.mp same, changed⟩

end Except

end ModelFinder
