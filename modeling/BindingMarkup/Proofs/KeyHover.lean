import BindingMarkup.Editor.Hover
import BindingMarkup.Proofs.Clauses
import BindingMarkup.Proofs.Word

/-!
# BindingMarkup — when the editor explains an entry

Over a word that is no type name the editor explains the entry of the
line. It compares the word with the key and never asks where the cursor
is: the explanation comes for every occurrence of a text that the key
begins with, on either side of the colon.

* `mem_front_or_back` — a word without the mark stands on one side of it.
* `hoverAt_isSome_iff` — an explanation is given exactly when the word
  begins the key, and then the cursor is on the key, between its first
  character and the colon, or on an occurrence of the word in the value.
-/

namespace BindingMarkup.Text

/-- A cut stops because the next character would reach beyond the column. -/
theorem column_lt_of_cut {column : Nat} {line front back : List Char} {c : Char}
    (h : cut column line = (front, c :: back)) : column < byteLength front + c.utf8Size := by
  induction line generalizing column front with
  | nil => exact absurd h (by simp [cut])
  | cons d rest ih =>
    unfold cut at h
    split at h
    · next hFits =>
      obtain ⟨hFront, hBack⟩ := Prod.mk.inj h
      have hRest : cut (column - d.utf8Size) rest =
          ((cut (column - d.utf8Size) rest).1, c :: back) := by
        rw [← hBack]
      have hLess := ih hRest
      rw [← hFront, byteLength]
      omega
    · next hFar =>
      obtain ⟨rfl, hBack⟩ := Prod.mk.inj h
      obtain ⟨rfl, -⟩ := List.cons.inj hBack
      rw [byteLength]
      omega

/-- A cut before a narrow character is made by a column that is not behind it. -/
theorem column_le_of_cut {column : Nat} {line front more back : List Char} {c : Char}
    (h : cut column line = (front, more ++ c :: back)) (hc : c.utf8Size = 1) :
    column ≤ byteLength (front ++ more) := by
  rw [byteLength_append]
  cases more with
  | nil =>
    have hLess := column_lt_of_cut h
    omega
  | cons d more =>
    have hLess := column_lt_of_cut h
    rw [byteLength]
    omega

/-- The beginning of a text is not longer than the text. -/
theorem byteLength_le_of_isPrefix {a b : List Char} (h : a <+: b) :
    byteLength a ≤ byteLength b := by
  obtain ⟨more, rfl⟩ := h
  rw [byteLength_append]
  omega

/-- The blanks at the front end before anything that is not blank. -/
theorem takeWhile_isBlank_isPrefix {c : Char} (hc : isBlank c = false) (front back : List Char) :
    (front ++ c :: back).takeWhile isBlank <+: front := by
  rw [List.takeWhile_append]
  split
  · have hNone : (c :: back).takeWhile isBlank = [] := List.takeWhile_cons_of_neg (by simp [hc])
    exact ⟨[], by rw [hNone, List.append_nil, List.append_nil]⟩
  · exact List.takeWhile_prefix isBlank

/-- A word without the mark stands on one side of it. -/
theorem mem_front_or_back {before word after front back : List Char} {mark : Char}
    (hMark : mark ∉ word) (hWord : word ≠ [])
    (h : before ++ (word ++ after) = front ++ mark :: back) :
    (∃ gap, front = before ++ (word ++ gap)) ∨
      ∃ gap, before = front ++ mark :: gap ∧ back = gap ++ (word ++ after) := by
  rcases List.append_eq_append_iff.mp h with ⟨more, hFront, hRest⟩ | ⟨more, hBefore, hRest⟩
  · -- the word begins before the mark
    left
    rcases List.append_eq_append_iff.mp hRest with ⟨gap, hMore, -⟩ | ⟨gap, hSplit, hAfter⟩
    · exact ⟨gap, by rw [hFront, hMore]⟩
    · cases gap with
      | nil => exact ⟨[], by rw [hFront, hSplit, List.append_nil, List.append_nil]⟩
      | cons d gap =>
        obtain ⟨rfl, -⟩ := List.cons.inj hAfter
        exact absurd (by rw [hSplit]; simp) hMark
  · cases more with
    | nil =>
      obtain ⟨d, rest, rfl⟩ := List.exists_cons_of_ne_nil hWord
      obtain ⟨rfl, -⟩ := List.cons.inj hRest
      exact absurd List.mem_cons_self hMark
    | cons d gap =>
      obtain ⟨rfl, hBack⟩ := List.cons.inj hRest
      exact .inr ⟨gap, hBefore, hBack⟩

end BindingMarkup.Text

namespace BindingMarkup.Editor

open Text

-- ---------------------------------------------------------------------------
-- The two sides of the colon
-- ---------------------------------------------------------------------------

variable {text : String} {position : Position}

/-- The column is on the key before the colon: from its first character up to the
colon. -/
def OnKey (front : List Char) (column : Nat) : Prop :=
  byteLength (front.takeWhile isBlank) ≤ column ∧ column ≤ byteLength front

/-- The column is behind the colon, inside or at an end of an occurrence of the word in
the value. -/
def OnValue (word front back : List Char) (column : Nat) : Prop :=
  ∃ before left right after, word = left ++ right ∧ back = before ++ left ++ (right ++ after) ∧
    cut column (front ++ ':' :: back) = (front ++ ':' :: (before ++ left), right ++ after)

/-- A column in the value is behind the key. -/
theorem not_onKey_of_onValue {word front back : List Char} {column : Nat}
    (h : OnValue word front back column) : ¬OnKey front column := by
  obtain ⟨before, left, right, after, -, -, hCut⟩ := h
  have hColumn := byteLength_cut_le column (front ++ ':' :: back)
  have hColon : (':').utf8Size = 1 := by decide
  rw [hCut, byteLength_append, byteLength, hColon] at hColumn
  intro hKey
  have hEnd := hKey.2
  omega

/-- The cursor on a word is on one side of the colon. -/
theorem AtWord.onKey_or_onValue {before left right after front back : List Char}
    (h : AtWord text position before left right after) (hWord : left ++ right ≠ [])
    (hLine : before ++ left ++ (right ++ after) = front ++ ':' :: back) :
    OnKey front position.character ∨ OnValue (left ++ right) front back position.character := by
  have hChars : ∀ c ∈ left ++ right, isWordChar c = true := fun c hc =>
    (List.mem_append.mp hc).elim (h.left c) (h.right c)
  have hColon : ':' ∉ left ++ right := fun hMem => absurd (hChars ':' hMem) (by decide +kernel)
  have hStart : byteLength (before ++ left) ≤ position.character := by
    have hCut := byteLength_cut_le position.character (before ++ left ++ (right ++ after))
    rwa [h.cut] at hCut
  rw [byteLength_append] at hStart
  have hParts : before ++ ((left ++ right) ++ after) = front ++ ':' :: back := by
    rw [← hLine]
    simp
  -- the word has no colon, so it stands on one side of the first one
  rcases mem_front_or_back hColon hWord hParts with ⟨gap, hFront⟩ | ⟨gap, hBefore, hBack⟩
  · left
    obtain ⟨c, rest, hHead⟩ := List.exists_cons_of_ne_nil hWord
    have hSolid : isBlank c = false :=
      isBlank_of_isWordChar (hChars c (by rw [hHead]; exact List.mem_cons_self))
    have hBlanks :=
      byteLength_le_of_isPrefix (takeWhile_isBlank_isPrefix hSolid before (rest ++ gap))
    rw [← List.cons_append, ← hHead, ← hFront] at hBlanks
    refine ⟨by omega, ?_⟩
    have hBehind : right ++ after = right ++ gap ++ ':' :: back := by
      rw [hFront] at hLine
      simpa using hLine
    have hCut := h.cut
    rw [hBehind] at hCut
    have hColumn := column_le_of_cut hCut (by decide)
    rwa [List.append_assoc, ← List.append_assoc left, ← hFront] at hColumn
  · refine .inr ⟨gap, left, right, after, rfl, by rw [hBack]; simp, ?_⟩
    have hCut := h.cut
    rwa [hLine, hBefore, List.append_assoc, List.cons_append] at hCut

-- ---------------------------------------------------------------------------
-- When there is an explanation
-- ---------------------------------------------------------------------------

/-- A line is explained when the word begins its key. -/
theorem hoverEntry_isSome_iff {line word : List Char} :
    (hoverEntry line word).isSome = true ↔
      ∃ front back, ':' ∉ front ∧ line = front ++ ':' :: back ∧ word <+: trim front := by
  constructor
  · intro h
    unfold hoverEntry at h
    split at h
    · exact absurd h (by simp)
    · next front back hSplit =>
      obtain ⟨hFirst, hLine⟩ := splitAtFirst?_eq_some_iff.mp hSplit
      refine ⟨front, back, hFirst, hLine, ?_⟩
      by_contra hWord
      rw [← List.isPrefixOf_iff_prefix] at hWord
      simp [hWord] at h
  · rintro ⟨front, back, hFirst, rfl, hWord⟩
    unfold hoverEntry
    rw [splitAtFirst?_append hFirst]
    simp only [List.isPrefixOf_iff_prefix.mpr hWord, Bool.not_true, Bool.false_eq_true, if_false]
    split <;> rfl

/-- **When the editor explains an entry.** Over a word that does not start with a capital
there is an explanation exactly when the word begins the key of the line, and then the
cursor is on the key or on an occurrence of the word in the value. -/
theorem hoverAt_isSome_iff {word : String} (hWord : wordAt text position = .ok (some word))
    (hSmall : word.toList.head?.any isUppercase = false) :
    (∃ description, hoverAt text position = .ok (some description)) ↔
      ∃ front back, lineAt? text position = some (front ++ ':' :: back) ∧ ':' ∉ front ∧
        word.toList <+: trim front ∧
        (OnKey front position.character ∨
          OnValue word.toList front back position.character) := by
  obtain ⟨before, left, right, after, hAt, hParts, hNil⟩ := exists_atWord_of_wordAt hWord
  have hHover : hoverAt text position =
      .ok (hoverEntry (before ++ left ++ (right ++ after)) word.toList) := by
    rw [hoverAt, hWord]
    simp only [hSmall, hAt.line, Option.bind_some, Bool.false_eq_true, if_false]
  have hSome : (∃ description, hoverAt text position = .ok (some description)) ↔
      (hoverEntry (before ++ left ++ (right ++ after)) word.toList).isSome = true := by
    rw [hHover, Option.isSome_iff_exists]
    simp only [Except.ok.injEq]
  rw [hSome, hoverEntry_isSome_iff, hAt.line]
  constructor
  · rintro ⟨front, back, hFirst, hLine, hKey⟩
    refine ⟨front, back, by rw [hLine], hFirst, hKey, ?_⟩
    rw [hParts]
    exact hAt.onKey_or_onValue hNil hLine
  · rintro ⟨front, back, hLine, hFirst, hKey, -⟩
    exact ⟨front, back, hFirst, Option.some.inj hLine, hKey⟩

/-- A value that repeats the first letter of its key. -/
def widthSource : String :=
  "A \x7b\n  width: w\n\x7d\n"

/-- The line of the entry begins with the word and the cursor is on it, so that there is an
explanation. -/
theorem hoverAt_isSome_iff_width :
    wordAt widthSource ⟨1, 4⟩ = .ok (some "width") ∧
      ∃ description, hoverAt widthSource ⟨1, 4⟩ = .ok (some description) := by
  have hWord : wordAt widthSource ⟨1, 4⟩ = .ok (some "width") := by decide +kernel
  have hLine : lineAt? widthSource ⟨1, 4⟩ = some ("  width".toList ++ ':' :: " w".toList) := by
    decide +kernel
  have hKey : OnKey "  width".toList 4 := ⟨by decide +kernel, by decide +kernel⟩
  exact ⟨hWord, (hoverAt_isSome_iff hWord (by decide +kernel)).mpr
    ⟨_, _, hLine, by decide, by decide +kernel, .inl hKey⟩⟩

/-- Over the value, the editor explains the key. -/
theorem hoverAt_value_width :
    wordAt widthSource ⟨1, 9⟩ = .ok (some "w") ∧
      hoverAt widthSource ⟨1, 9⟩ = .ok (some (describeKey "width")) ∧
      ∀ front back, ':' ∉ front →
        lineAt? widthSource ⟨1, 9⟩ = some (front ++ ':' :: back) → ¬OnKey front 9 := by
  refine ⟨by decide +kernel, by decide +kernel, fun front back hFirst hLine => ?_⟩
  have hHere : lineAt? widthSource ⟨1, 9⟩ = some ("  width".toList ++ ':' :: " w".toList) := by
    decide +kernel
  have hSplit : splitAtFirst? ':' ("  width".toList ++ ':' :: " w".toList) = _ :=
    splitAtFirst?_append (by decide) " w".toList
  rw [Option.some.inj (hHere.symm.trans hLine), splitAtFirst?_append hFirst] at hSplit
  obtain ⟨rfl, rfl⟩ := Prod.mk.inj (Option.some.inj hSplit)
  exact not_onKey_of_onValue ⟨[' '], [], ['w'], [], rfl, rfl, by decide +kernel⟩

end BindingMarkup.Editor
