import Mathlib
/-!
Lists of entries under keys. An entry under a new key comes last, and an entry under a key that
is in use takes the place of the one before. So the keys stand in the order of their first
entries, and what is found under a key is its last one.
-/

namespace ModelFinder.Entries

theorem eraseDups_concat {κ : Type} [DecidableEq κ] (elements : List κ) (element : κ) :
    (elements ++ [element]).eraseDups =
      if element ∈ elements then elements.eraseDups else elements.eraseDups ++ [element] := by
  rw [List.eraseDups_append]
  by_cases repeated : element ∈ elements
  · simp [List.removeAll, repeated]
  · simp [List.removeAll, repeated, List.eraseDups_cons]

variable {α κ : Type} [DecidableEq κ] {key : α → κ} {entries : List α}

/-- Replaces the entry under a key, or adds one at the end. -/
def put (key : α → κ) (entry : α) : List α → List α
  | [] => [entry]
  | first :: rest => if key first == key entry then entry :: rest else first :: put key entry rest

theorem mem_put {entry other : α} (member : other ∈ put key entry entries) :
    other = entry ∨ other ∈ entries := by
  induction entries with
  | nil => exact .inl (List.mem_singleton.mp member)
  | cons first rest hypothesis =>
      rw [put] at member
      split at member
      · rcases List.mem_cons.mp member with same | later
        · exact .inl same
        · exact .inr (List.mem_cons_of_mem _ later)
      · rcases List.mem_cons.mp member with rfl | later
        · exact .inr List.mem_cons_self
        · exact (hypothesis later).imp_right (List.mem_cons_of_mem _)

theorem map_key_put (entry : α) (entries : List α) :
    (put key entry entries).map key =
      if key entry ∈ entries.map key then entries.map key else entries.map key ++ [key entry] := by
  induction entries with
  | nil => simp [put]
  | cons first rest hypothesis =>
      rw [put]
      by_cases same : key first = key entry
      · simp [same]
      · have different : ¬key entry = key first := fun equal => same equal.symm
        rw [if_neg (by simpa using same), List.map_cons, hypothesis]
        simp only [List.map_cons, List.mem_cons, different, false_or]
        split <;> simp

theorem find?_put (entry : α) (entries : List α) (used : κ) :
    (put key entry entries).find? (fun other => key other == used) =
      if key entry = used then some entry else entries.find? fun other => key other == used := by
  induction entries with
  | nil =>
      rw [put, List.find?_singleton]
      simp only [beq_iff_eq]
      rfl
  | cons first rest hypothesis =>
      rw [put]
      by_cases replaced : key first = key entry
      · rw [if_pos (by simpa using replaced)]
        by_cases same : key entry = used
        · simp [same]
        · simp [replaced, same]
      · rw [if_neg (by simpa using replaced)]
        by_cases found : key first = used
        · have differs : ¬key entry = used := fun same => replaced (found.trans same.symm)
          simp [found, differs]
        · simp [beq_eq_false_iff_ne.mpr found, hypothesis]

theorem nodup_put (distinct : (entries.map key).Nodup) (entry : α) :
    ((put key entry entries).map key).Nodup := by
  rw [map_key_put]
  split
  · exact distinct
  · rename_i fresh
    refine List.nodup_append.mpr ⟨distinct, List.nodup_singleton _, ?_⟩
    intro used member other otherMember
    rw [List.mem_singleton.mp otherMember]
    rintro rfl
    exact fresh member

/-- What is left of entries that were put one after the other: every key once, in the order in
which the keys came first, and under every key its last entry. -/
structure Records (key : α → κ) (given entries : List α) : Prop where
  distinct : (entries.map key).Nodup
  ordered : entries.map key = (given.map key).eraseDups
  last : ∀ used, entries.find? (fun entry => key entry == used) =
    given.findRev? fun entry => key entry == used

theorem Records.put {given : List α} (records : Records key given entries) (entry : α) :
    Records key (given ++ [entry]) (put key entry entries) where
  distinct := nodup_put records.distinct entry
  ordered := by
    rw [map_key_put, List.map_append, List.map_singleton, eraseDups_concat, records.ordered]
    simp only [List.mem_eraseDups]
  last used := by
    rw [find?_put, records.last, List.findRev?_eq_find?_reverse, List.findRev?_eq_find?_reverse,
      List.reverse_append, List.reverse_singleton, List.singleton_append]
    by_cases same : key entry = used
    · simp [same]
    · simp [same]

theorem Records.found {given : List α} (records : Records key given entries) {used : κ}
    (member : used ∈ entries.map key) :
    ∃ entry ∈ given, key entry = used ∧
      (given.findRev? fun other => key other == used) = some entry ∧
      (entries.find? fun other => key other == used) = some entry := by
  obtain ⟨held, heldInside, sameKey⟩ := List.mem_map.mp member
  cases found : entries.find? fun other => key other == used with
  | none => exact absurd (beq_iff_eq.mpr sameKey) (List.find?_eq_none.mp found held heldInside)
  | some entry =>
      have last := (records.last used).symm.trans found
      have matching := List.find?_some found
      refine ⟨entry, ?_, beq_iff_eq.mp matching, last, rfl⟩
      rw [List.findRev?_eq_find?_reverse] at last
      exact List.mem_reverse.mp (List.mem_of_find?_eq_some last)

theorem find?_of_unused {used : κ} (unused : used ∉ entries.map key) :
    (entries.find? fun other => key other == used) = none := by
  rw [List.find?_eq_none]
  intro entry held
  rw [beq_iff_eq]
  rintro rfl
  exact unused (List.mem_map_of_mem held)

end ModelFinder.Entries
