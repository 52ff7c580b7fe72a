import BindingMarkup.Proofs.KeyHover

/-!
# BindingMarkup — the word at every column

A position may name any column: between two characters, inside one, or far
behind the end of its line. The editor goes back to the last boundary
between characters (`isGreatest_cut`) and takes the word characters on
both sides of it, on each side as many as there are (`LongestRun`).

The main statement, `wordAt_eq_of_aroundCursor`, says what comes of it for every text and
every position. Nothing in it speaks of how the word is cut out of its line:
the parts of the line are described by what they are (`AroundCursor`), and
that the search finds just these is `aroundCursor_iff_atWord`.
-/

namespace BindingMarkup.Text

-- ---------------------------------------------------------------------------
-- Boundaries between characters
-- ---------------------------------------------------------------------------

/-- A column between two characters of a line, or at one of its ends. -/
def IsBoundary (line : List Char) (column : Nat) : Prop :=
  ∃ front, front <+: line ∧ byteLength front = column

/-- The beginnings of a line differ in their bytes. -/
theorem eq_of_byteLength_eq {line front other : List Char} (hFront : front <+: line)
    (hOther : other <+: line) (h : byteLength front = byteLength other) : front = other := by
  rcases List.prefix_or_prefix_of_prefix hFront hOther with ⟨more, rfl⟩ | ⟨more, rfl⟩
  all_goals
    have hBytes := length_le_byteLength more
    rw [byteLength_append] at h
    have hNone : more = [] := List.eq_nil_of_length_eq_zero (by omega)
    rw [hNone, List.append_nil]

/-- A beginning of a line that does not reach beyond the column is part of the front. -/
theorem byteLength_le_byteLength_cut {line front : List Char} {column : Nat}
    (hFront : front <+: line) (h : byteLength front ≤ column) :
    byteLength front ≤ byteLength (cut column line).1 := by
  have hCut : (cut column line).1 <+: line := ⟨_, cut_append column line⟩
  rcases List.prefix_or_prefix_of_prefix hFront hCut with hShort | ⟨more, hLong⟩
  · exact byteLength_le_of_isPrefix hShort
  · cases more with
    | nil => rw [← hLong, List.append_nil]
    | cons c more =>
      -- the character behind the front would still fit before the column
      exfalso
      obtain ⟨back, hBack⟩ : ∃ back, (cut column line).2 = c :: back := by
        obtain ⟨rest, hRest⟩ := hFront
        have hLine := cut_append column line
        nth_rewrite 3 [← hRest] at hLine
        rw [← hLong, List.append_assoc, List.append_cancel_left_eq] at hLine
        exact ⟨_, hLine⟩
      have hParts : cut column line = ((cut column line).1, c :: back) := by rw [← hBack]
      have hLess := column_lt_of_cut hParts
      rw [← hLong, byteLength_append, byteLength] at h
      omega

/-- **A line is cut at the last boundary** that is neither beyond the column nor beyond
its end. -/
theorem isGreatest_cut (column : Nat) (line : List Char) :
    IsGreatest {n | IsBoundary line n ∧ n ≤ min column (byteLength line)}
      (byteLength (cut column line).1) := by
  have hCut : (cut column line).1 <+: line := ⟨_, cut_append column line⟩
  constructor
  · exact ⟨⟨_, hCut, rfl⟩,
      Nat.le_min.mpr ⟨byteLength_cut_le column line, byteLength_le_of_isPrefix hCut⟩⟩
  · rintro n ⟨⟨front, hFront, rfl⟩, hColumn⟩
    exact byteLength_le_byteLength_cut hFront (Nat.le_min.mp hColumn).1

/-- A line is cut at the greatest boundary that is not behind the column. -/
theorem cut_eq_iff_isGreatest {column : Nat} {line front back : List Char}
    (hLine : line = front ++ back) :
    cut column line = (front, back) ↔
      IsGreatest {n | IsBoundary line n ∧ n ≤ min column (byteLength line)}
        (byteLength front) := by
  constructor
  · intro hCut
    have hGreatest := isGreatest_cut column line
    rwa [hCut] at hGreatest
  · intro hGreatest
    have hParts := cut_append column line
    have hBytes := hGreatest.unique (isGreatest_cut column line)
    have hFront : front = (cut column line).1 :=
      eq_of_byteLength_eq ⟨back, hLine.symm⟩ ⟨_, hParts⟩ hBytes
    have hBack : back = (cut column line).2 := by
      rw [← hFront] at hParts
      exact List.append_cancel_left (hLine.symm.trans hParts.symm)
    rw [hFront, hBack]

end BindingMarkup.Text

namespace BindingMarkup.Editor

open Text

-- ---------------------------------------------------------------------------
-- Longest runs
-- ---------------------------------------------------------------------------

/-- Of the runs of word characters that stand in some place, the longest. -/
structure LongestRun (stands : List Char → Prop) (run : List Char) : Prop where
  here : stands run
  word : ∀ c ∈ run, isWordChar c = true
  longest : ∀ other, stands other → (∀ c ∈ other, isWordChar c = true) →
    other.length ≤ run.length

/-- The longest run at the front of a text is the one that no word character follows. -/
theorem longestRun_isPrefix_iff {run after : List Char} :
    LongestRun (· <+: run ++ after) run ↔
      (∀ c ∈ run, isWordChar c = true) ∧ ∀ c ∈ after.head?, isWordChar c = false := by
  constructor
  · intro h
    refine ⟨h.word, fun c hc => Bool.eq_false_iff.mpr fun hWord => ?_⟩
    obtain ⟨more, rfl⟩ := List.head?_eq_some_iff.mp hc
    have hLonger := h.longest (run ++ [c]) ⟨more, by simp⟩
      (List.forall_mem_append.mpr ⟨h.word, by simpa using hWord⟩)
    rw [List.length_append, List.length_singleton] at hLonger
    omega
  · rintro ⟨hWord, hAfter⟩
    refine ⟨List.prefix_append run after, hWord, fun other hOther hOtherWord => ?_⟩
    by_contra hLonger
    have hRun : run <+: other :=
      List.prefix_of_prefix_length_le (List.prefix_append run after) hOther (by omega)
    obtain ⟨more, rfl⟩ := hRun
    cases more with
    | nil => exact hLonger (by simp)
    | cons c more =>
      -- the character behind the run is the first one of what follows
      obtain ⟨rest, rfl⟩ := (List.prefix_append_right_inj run).mp hOther
      have hNot := hAfter c rfl
      rw [hOtherWord c (by simp)] at hNot
      exact absurd hNot (by simp)

/-- Read backwards, a run at the end of a text is one at its front. -/
theorem longestRun_reverse {run text : List Char} :
    LongestRun (· <:+ text) run ↔ LongestRun (· <+: text.reverse) run.reverse := by
  constructor
  · intro h
    refine ⟨List.reverse_prefix.mpr h.here, fun c hc => h.word c (List.mem_reverse.mp hc),
      fun other hOther hWord => ?_⟩
    have hBack : other.reverse <:+ text := by
      rw [← List.reverse_prefix, List.reverse_reverse]
      exact hOther
    have hLength := h.longest other.reverse hBack fun c hc => hWord c (List.mem_reverse.mp hc)
    rwa [List.length_reverse] at hLength ⊢
  · intro h
    refine ⟨List.reverse_prefix.mp h.here, fun c hc => h.word c (List.mem_reverse.mpr hc),
      fun other hOther hWord => ?_⟩
    have hLength := h.longest other.reverse (List.reverse_prefix.mpr hOther)
      fun c hc => hWord c (List.mem_reverse.mp hc)
    rwa [List.length_reverse, List.length_reverse] at hLength

/-- The longest run before the cursor ends where no letter of a word comes before it. -/
theorem longestRun_isSuffix_iff {before run : List Char} :
    LongestRun (· <:+ before ++ run) run ↔
      (∀ c ∈ run, isWordChar c = true) ∧ ∀ c ∈ before.getLast?, isWordChar c = false := by
  rw [longestRun_reverse, List.reverse_append, longestRun_isPrefix_iff, List.head?_reverse]
  simp only [List.mem_reverse]

-- ---------------------------------------------------------------------------
-- The word at a position
-- ---------------------------------------------------------------------------

/-- The parts of a line around a column: the cursor stands at the last boundary that is
neither beyond the column nor beyond the end of the line, `left` is the longest run of
word characters that ends there and `right` the longest one that starts there. -/
structure AroundCursor (line : List Char) (column : Nat) (before left right after : List Char) :
    Prop where
  parts : line = before ++ left ++ (right ++ after)
  boundary : IsGreatest {n | IsBoundary line n ∧ n ≤ min column (byteLength line)}
    (byteLength (before ++ left))
  left : LongestRun (· <:+ before ++ left) left
  right : LongestRun (· <+: right ++ after) right

/-- Both ways to say which word the cursor is on agree. -/
theorem aroundCursor_iff_atWord {text : String} {position : Position}
    {line before left right after : List Char} (h : lineAt? text position = some line) :
    AroundCursor line position.character before left right after ↔
      AtWord text position before left right after := by
  constructor
  · intro hAround
    obtain ⟨hLeft, hBefore⟩ := longestRun_isSuffix_iff.mp hAround.left
    obtain ⟨hRight, hAfter⟩ := longestRun_isPrefix_iff.mp hAround.right
    have hCut := (cut_eq_iff_isGreatest hAround.parts).mpr hAround.boundary
    rw [hAround.parts] at h hCut
    exact ⟨h, hCut, hLeft, hRight, hBefore, hAfter⟩
  · intro hAt
    obtain rfl : line = before ++ left ++ (right ++ after) :=
      Option.some.inj (h.symm.trans hAt.line)
    exact ⟨rfl, (cut_eq_iff_isGreatest rfl).mp hAt.cut,
      longestRun_isSuffix_iff.mpr ⟨hAt.left, hAt.before⟩,
      longestRun_isPrefix_iff.mpr ⟨hAt.right, hAt.after⟩⟩

/-- **The word at a position, and when there is none to be had.** Without the line there is
no word. On a line, which has its parts around the cursor, the word is made of the two
runs that meet there, and nothing when both are empty, provided that the character before
them takes one byte; if it takes more, the question has no answer. -/
theorem wordAt_eq_of_aroundCursor (text : String) (position : Position) :
    ((lines text.toList).length ≤ position.line → wordAt text position = .ok none) ∧
      ∀ line, (lines text.toList)[position.line]? = some line →
        (∃ before left right after,
          AroundCursor line position.character before left right after) ∧
        ∀ before left right after,
          AroundCursor line position.character before left right after →
            ((∀ c ∈ before.getLast?, c.utf8Size = 1) →
              wordAt text position =
                .ok (if left ++ right = [] then none
                  else some (String.ofList (left ++ right)))) ∧
            ((∃ c ∈ before.getLast?, 2 ≤ c.utf8Size) →
              wordAt text position = .error .insideCharacter) := by
  constructor
  · intro hShort
    have hNone : lineAt? text position = none := List.getElem?_eq_none hShort
    unfold wordAt
    rw [hNone]
  · intro line hLine
    constructor
    · obtain ⟨before, left, right, after, hAt⟩ := exists_atWord hLine
      exact ⟨before, left, right, after, (aroundCursor_iff_atWord hLine).mpr hAt⟩
    · intro before left right after hAround
      have hWord := ((aroundCursor_iff_atWord hLine).mp hAround).wordAt_eq
      constructor
      · intro hNarrow
        rw [hWord, if_pos hNarrow]
      · rintro ⟨c, hc, hWide⟩
        have hNot : ¬∀ d ∈ before.getLast?, d.utf8Size = 1 := by
          intro hNarrow
          have hOne := hNarrow c hc
          omega
        rw [hWord, if_neg hNot]

/-- A line with a dash of three bytes in it. -/
def dashedLine : String := "a\u2013bc"

/-- Before and behind a dash of three bytes. -/
theorem atWord_dashedLine :
    AtWord dashedLine ⟨0, 2⟩ [] ['a'] [] ['\u2013', 'b', 'c'] ∧
      AtWord dashedLine ⟨0, 5⟩ ['a', '\u2013'] ['b'] ['c'] [] := by
  have hLetters : isWordChar 'a' ∧ isWordChar 'b' ∧ isWordChar 'c' := by decide +kernel
  have hDash : isWordChar '\u2013' = false := by decide +kernel
  constructor
  · exact ⟨by decide +kernel, by decide +kernel, by simp [hLetters], by simp, by simp,
      by simp [hDash]⟩
  · exact ⟨by decide +kernel, by decide +kernel, by simp [hLetters], by simp [hLetters],
      by simp [hDash], by simp⟩

/-- Inside the dash the cursor goes back to the letter before it; behind the dash no word
can be had; and there is no second line. -/
theorem wordAt_eq_of_aroundCursor_dash :
    AroundCursor dashedLine.toList 2 [] ['a'] [] ['\u2013', 'b', 'c'] ∧
      wordAt dashedLine ⟨0, 2⟩ = .ok (some "a") ∧
      AroundCursor dashedLine.toList 5 ['a', '\u2013'] ['b'] ['c'] [] ∧
      wordAt dashedLine ⟨0, 5⟩ = .error .insideCharacter ∧
      wordAt dashedLine ⟨1, 0⟩ = .ok none := by
  have hLine : (lines dashedLine.toList)[0]? = some dashedLine.toList := by decide +kernel
  have hInside := (@aroundCursor_iff_atWord dashedLine ⟨0, 2⟩ _ _ _ _ _ hLine).mpr
    atWord_dashedLine.1
  have hBehind := (@aroundCursor_iff_atWord dashedLine ⟨0, 5⟩ _ _ _ _ _ hLine).mpr
    atWord_dashedLine.2
  refine ⟨hInside, ?_, hBehind, ?_, ?_⟩
  · exact (((wordAt_eq_of_aroundCursor dashedLine ⟨0, 2⟩).2 _ hLine).2 _ _ _ _ hInside).1 (by simp)
  · exact (((wordAt_eq_of_aroundCursor dashedLine ⟨0, 5⟩).2 _ hLine).2 _ _ _ _ hBehind).2
      ⟨'\u2013', by decide, by decide⟩
  · exact (wordAt_eq_of_aroundCursor dashedLine ⟨1, 0⟩).1 (by decide +kernel)

end BindingMarkup.Editor
