/-!
# BindingMarkup — tables with one entry for each key

The texts of open documents and the files of a working directory are kept
as lists of keys and values. An entry is replaced by putting the new one
in front and leaving out those with the same key. Looking up the key then
gives the new value, and every other key has the value it had.
-/

namespace BindingMarkup

variable {α β : Type} [BEq α] [LawfulBEq α] [DecidableEq α]

/-- Entries that are left out are not found, and the others are. -/
theorem lookup_filter_ne (entries : List (α × β)) (key other : α) :
    (entries.filter fun entry => entry.1 != key).lookup other =
      if other = key then none else entries.lookup other := by
  induction entries with
  | nil => simp
  | cons entry rest ih =>
    obtain ⟨first, value⟩ := entry
    by_cases hKey : first = key
    · subst hKey
      rw [List.filter_cons_of_neg (by simp), ih]
      by_cases hOther : other = first
      · simp [hOther]
      · simp [hOther, List.lookup_cons, beq_eq_false_iff_ne.mpr hOther]
    · rw [List.filter_cons_of_pos (by simpa using hKey), List.lookup_cons, List.lookup_cons, ih]
      by_cases hOther : other = first
      · subst hOther
        simp [hKey]
      · simp [beq_eq_false_iff_ne.mpr hOther]

/-- A new entry is found under its key and changes nothing else. -/
theorem lookup_replace (entries : List (α × β)) (key other : α) (value : β) :
    ((key, value) :: entries.filter fun entry => entry.1 != key).lookup other =
      if other = key then some value else entries.lookup other := by
  rw [List.lookup_cons]
  by_cases hOther : other = key
  · simp [hOther]
  · rw [beq_eq_false_iff_ne.mpr hOther, lookup_filter_ne]
    simp [hOther]

end BindingMarkup
