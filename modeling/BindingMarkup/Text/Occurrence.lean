/-!
# BindingMarkup — occurrences of one text in another

Three questions about where a text stands inside another: whether it
occurs at all, what comes before its last occurrence, and how a text
divides at its first or last occurrence of a single character.

* `beforeLast?_eq_some`     — what `beforeLast?` returns is followed by an
  occurrence.
-/

namespace BindingMarkup.Text

/-- Whether `pattern` occurs somewhere in the text. -/
def occursIn (pattern : List Char) : List Char → Bool
  | [] => pattern.isEmpty
  | c :: rest => pattern.isPrefixOf (c :: rest) || occursIn pattern rest

/-- The text before the last occurrence of `pattern`, if it occurs. -/
def beforeLast? (pattern : List Char) : List Char → Option (List Char)
  | [] => if pattern.isEmpty then some [] else none
  | c :: rest =>
    match beforeLast? pattern rest with
    | some front => some (c :: front)
    | none => if pattern.isPrefixOf (c :: rest) then some [] else none

/-- The texts before and after the first `c`, if there is one. -/
def splitAtFirst? (c : Char) : List Char → Option (List Char × List Char)
  | [] => none
  | d :: rest =>
    if d = c then some ([], rest)
    else (splitAtFirst? c rest).map fun (front, back) => (d :: front, back)

/-- The text before the last `c`, if there is one. -/
def beforeLastChar? (c : Char) (cs : List Char) : Option (List Char) :=
  beforeLast? [c] cs

/-- An answer of `beforeLast?` is the text before an occurrence. -/
theorem beforeLast?_eq_some {pattern cs front : List Char}
    (h : beforeLast? pattern cs = some front) : front ++ pattern <+: cs := by
  induction cs generalizing front with
  | nil =>
    unfold beforeLast? at h
    split at h
    · next hEmpty =>
      rw [List.isEmpty_iff] at hEmpty
      rw [← Option.some.inj h, hEmpty]
      exact List.prefix_rfl
    · exact absurd h (by simp)
  | cons c rest ih =>
    unfold beforeLast? at h
    split at h
    · next more hMore =>
      rw [← Option.some.inj h]
      exact List.cons_prefix_cons.mpr ⟨rfl, ih hMore⟩
    · split at h
      · next hHere =>
        rw [← Option.some.inj h]
        exact List.isPrefixOf_iff_prefix.mp hHere
      · exact absurd h (by simp)

/-- The two parts around the first `c` make up the text. -/
theorem splitAtFirst?_eq_some {c : Char} {cs front back : List Char}
    (h : splitAtFirst? c cs = some (front, back)) : cs = front ++ c :: back := by
  induction cs generalizing front back with
  | nil => exact absurd h (by simp [splitAtFirst?])
  | cons d rest ih =>
    unfold splitAtFirst? at h
    split at h
    · next hHere =>
      obtain ⟨rfl, rfl⟩ := Prod.mk.inj (Option.some.inj h)
      rw [hHere]
      rfl
    · obtain ⟨⟨a, b⟩, hMore, hEq⟩ := Option.map_eq_some_iff.mp h
      obtain ⟨rfl, rfl⟩ := Prod.mk.inj hEq
      rw [ih hMore]
      rfl

/-- A text divides at `c` where no `c` stands before it. -/
theorem splitAtFirst?_append {c : Char} {front : List Char} (h : c ∉ front) (back : List Char) :
    splitAtFirst? c (front ++ c :: back) = some (front, back) := by
  induction front with
  | nil => simp [splitAtFirst?]
  | cons d rest ih =>
    rw [List.mem_cons, not_or] at h
    simp [splitAtFirst?, Ne.symm h.1, ih h.2]

end BindingMarkup.Text
