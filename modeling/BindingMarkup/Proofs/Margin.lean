import BindingMarkup.Proofs.Position

/-!
# BindingMarkup — the edges of lines

Spaces, tabs and carriage returns at the two ends of a line are margins:
indentation, trailing blanks, the rest of another convention for line
breaks. This module compares texts that differ in nothing else.

* `SameInk` — the texts have the same characters, and around corresponding
  line feeds any margins. It is kept by everything that treats the two ends
  of a text alike (`SameInk.reverse`), so by trimming and by the removal of
  braces.
* `Ahead` — the same for what lies ahead of the reader: the two texts may
  also end with different margins. `Ahead.of_cons` is what the proofs about
  scanners use: a character that is neither a margin nor a line feed stands
  in front of both texts or of none.
* `SameLines.ahead` — texts whose lines agree but for their margins lie ahead
  of the reader like this, once the first margin is passed.
-/

namespace BindingMarkup.Text

-- ---------------------------------------------------------------------------
-- Margins
-- ---------------------------------------------------------------------------

/-- Only spaces, tabs and carriage returns. -/
def Margin (cs : List Char) : Prop :=
  ∀ c ∈ cs, isMargin c = true

theorem Margin.nil : Margin [] := by
  intro c hc
  exact absurd hc List.not_mem_nil

theorem Margin.isBlank {cs : List Char} (h : Margin cs) : ∀ c ∈ cs, isBlank c = true :=
  fun c hc => isBlank_of_isMargin (h c hc)

theorem Margin.reverse {cs : List Char} (h : Margin cs) : Margin cs.reverse :=
  fun c hc => h c (List.mem_reverse.mp hc)

/-- A margin has tabs and blanks only. -/
theorem Margin.not_mem {cs : List Char} (h : Margin cs) {c : Char} (hc : isMargin c = false) :
    c ∉ cs := by
  intro hMem
  rw [h c hMem] at hc
  exact absurd hc (by simp)

/-- Margins and the line feed between them are blank. -/
theorem Margin.edge_isBlank {m n : List Char} (hm : Margin m) (hn : Margin n) :
    ∀ c ∈ m ++ '\n' :: n, Text.isBlank c = true := by
  intro c hc
  rcases List.mem_append.mp hc with hHere | hHere
  · exact hm.isBlank c hHere
  · rcases List.mem_cons.mp hHere with rfl | hHere
    · decide
    · exact hn.isBlank c hHere

theorem edge_append (m n rest : List Char) :
    m ++ '\n' :: (n ++ rest) = (m ++ '\n' :: n) ++ rest := by
  simp

/-- The first character behind a margin is no margin, a line feed for instance. -/
theorem Margin.head?_append {cs rest : List Char} (h : Margin cs) {c : Char}
    (hc : isMargin c = false) (hHead : (cs ++ rest).head? = some c) : rest.head? = some c := by
  cases cs with
  | nil => exact hHead
  | cons d more =>
    obtain rfl : d = c := by simpa using hHead
    exact absurd List.mem_cons_self (h.not_mem hc)

-- ---------------------------------------------------------------------------
-- The same ink
-- ---------------------------------------------------------------------------

/-- Two texts that differ only in the margins around their line feeds. -/
inductive SameInk : List Char → List Char → Prop where
  | nil : SameInk [] []
  | char {a b : List Char} (c : Char) (hRest : SameInk a b) : SameInk (c :: a) (c :: b)
  | edge {m n m' n' a b : List Char} (hm : Margin m) (hn : Margin n) (hm' : Margin m')
      (hn' : Margin n') (hRest : SameInk a b) :
      SameInk (m ++ '\n' :: (n ++ a)) (m' ++ '\n' :: (n' ++ b))

namespace SameInk

variable {a b a' b' : List Char}

/-- Texts with the same ink can be put behind each other. -/
theorem append (h : SameInk a b) (h' : SameInk a' b') : SameInk (a ++ a') (b ++ b') := by
  induction h with
  | nil => exact h'
  | char c _ ih => exact .char c ih
  | edge hm hn hm' hn' _ ih => simpa using SameInk.edge hm hn hm' hn' ih

/-- The two ends of a text play the same part. -/
theorem reverse (h : SameInk a b) : SameInk a.reverse b.reverse := by
  induction h with
  | nil => exact .nil
  | char c _ ih => simpa using ih.append (.char c .nil)
  | edge hm hn hm' hn' _ ih =>
    simpa using ih.append (.edge hn.reverse hm.reverse hn'.reverse hm'.reverse .nil)

theorem eq_nil_iff (h : SameInk a b) : a = [] ↔ b = [] := by
  cases h <;> simp

/-- A trim meets the same ink on both sides. -/
theorem trimStart (h : SameInk a b) : SameInk (trimStart a) (trimStart b) := by
  induction h with
  | nil => exact .nil
  | @char a b c hRest ih =>
    simp only [Text.trimStart, List.dropWhile_cons] at ih ⊢
    split
    · exact ih
    · exact .char c hRest
  | edge hm hn hm' hn' _ ih =>
    have hBreak : isBlank '\n' = true := by decide
    simpa only [Text.trimStart, List.dropWhile_append_of_pos hm.isBlank,
      List.dropWhile_append_of_pos hm'.isBlank, List.dropWhile_cons_of_pos hBreak,
      List.dropWhile_append_of_pos hn.isBlank, List.dropWhile_append_of_pos hn'.isBlank] using ih

theorem trimEnd (h : SameInk a b) : SameInk (trimEnd a) (trimEnd b) :=
  h.reverse.trimStart.reverse

theorem trim (h : SameInk a b) : SameInk (trim a) (trim b) :=
  h.trimStart.trimEnd

/-- A character that is no margin and no line feed stands in front of both texts or
of none. -/
theorem stripFront {c : Char} (hMargin : isMargin c = false) (hBreak : c ≠ '\n')
    (h : SameInk a b) : SameInk (stripFront c a) (stripFront c b) := by
  -- the character is ink, so it is not the first at an edge
  have hEdge : ∀ {m rest : List Char}, Margin m →
      Text.stripFront c (m ++ '\n' :: rest) = m ++ '\n' :: rest := by
    intro m rest hm
    cases m with
    | nil => simp [Text.stripFront, Ne.symm hBreak]
    | cons d more =>
      have hHere : d ≠ c := by
        rintro rfl
        exact hm.not_mem hMargin List.mem_cons_self
      simp [Text.stripFront, hHere]
  cases h with
  | nil => exact .nil
  | char d hRest =>
    simp only [Text.stripFront]
    split
    · exact hRest
    · exact .char d hRest
  | edge hm hn hm' hn' hRest =>
    rw [hEdge hm, hEdge hm']
    exact .edge hm hn hm' hn' hRest

theorem stripBack {c : Char} (hMargin : isMargin c = false) (hBreak : c ≠ '\n')
    (h : SameInk a b) : SameInk (stripBack c a) (stripBack c b) :=
  (h.reverse.stripFront hMargin hBreak).reverse

/-- The first character, if it is ink, is the same. -/
theorem head?_eq_some_iff {c : Char} (hMargin : isMargin c = false) (hBreak : c ≠ '\n')
    (h : SameInk a b) : a.head? = some c ↔ b.head? = some c := by
  have hEdge : ∀ {m rest : List Char}, Margin m → (m ++ '\n' :: rest).head? ≠ some c := by
    intro m rest hm hHead
    exact hBreak (by simpa using (hm.head?_append hMargin hHead).symm)
  cases h with
  | nil => rfl
  | char d _ => rfl
  | edge hm _ hm' _ _ => exact iff_of_false (hEdge hm) (hEdge hm')

/-- The last character, if it is ink, is the same. -/
theorem getLast?_eq_some_iff {c : Char} (hMargin : isMargin c = false) (hBreak : c ≠ '\n')
    (h : SameInk a b) : a.getLast? = some c ↔ b.getLast? = some c := by
  rw [← List.head?_reverse, ← List.head?_reverse]
  exact h.reverse.head?_eq_some_iff hMargin hBreak

/-- A class without margins and line feeds holds all of both texts or of none. -/
theorem all_eq {p : Char → Bool} (hBreak : p '\n' = false) (h : SameInk a b) :
    a.all p = b.all p := by
  induction h with
  | nil => rfl
  | char c _ ih => simp only [List.all_cons, ih]
  | edge => simp [hBreak]

/-- Margins are all that two such texts differ in. -/
theorem filter_eq (h : SameInk a b) :
    a.filter (fun c => !isMargin c) = b.filter (fun c => !isMargin c) := by
  have hNone : ∀ {m : List Char}, Margin m → m.filter (fun c => !isMargin c) = [] := by
    intro m hm
    refine List.filter_eq_nil_iff.mpr fun c hc => ?_
    simp [hm c hc]
  induction h with
  | nil => rfl
  | char c _ ih => simp only [List.filter_cons, ih]
  | edge hm hn hm' hn' _ ih =>
    simp only [List.filter_append, List.filter_cons, hNone hm, hNone hn, hNone hm', hNone hn', ih]

/-- Without a line feed there are no edges. -/
theorem eq_of_not_mem (h : SameInk a b) (hBreak : '\n' ∉ a) : a = b := by
  induction h with
  | nil => rfl
  | char c _ ih => rw [ih fun hMem => hBreak (List.mem_cons_of_mem c hMem)]
  | edge => exact absurd (by simp) hBreak

/-- Both texts have the same line breaks. -/
theorem count_eq (h : SameInk a b) : a.count '\n' = b.count '\n' := by
  have hCount := congrArg (List.count '\n') h.filter_eq
  rwa [List.count_filter (by decide), List.count_filter (by decide)] at hCount

end SameInk

-- ---------------------------------------------------------------------------
-- Texts ahead of the reader
-- ---------------------------------------------------------------------------

/-- Two texts that differ only in the margins around their line feeds and at their
ends. -/
inductive Ahead : List Char → List Char → Prop where
  | last {a b : List Char} (ha : Margin a) (hb : Margin b) : Ahead a b
  | char {a b : List Char} (c : Char) (hRest : Ahead a b) : Ahead (c :: a) (c :: b)
  | edge {m n m' n' a b : List Char} (hm : Margin m) (hn : Margin n) (hm' : Margin m')
      (hn' : Margin n') (hRest : Ahead a b) :
      Ahead (m ++ '\n' :: (n ++ a)) (m' ++ '\n' :: (n' ++ b))

namespace Ahead

variable {a b : List Char}

theorem nil : Ahead [] [] :=
  .last .nil .nil

/-- What lies ahead can be compared from either side. -/
theorem symm (h : Ahead a b) : Ahead b a := by
  induction h with
  | last ha hb => exact .last hb ha
  | char c _ ih => exact .char c ih
  | edge hm hn hm' hn' _ ih => exact .edge hm' hn' hm hn ih

/-- Up to margins at the end, what lies ahead has the same ink. -/
theorem exists_sameInk (h : Ahead a b) :
    ∃ front back m m', SameInk front back ∧ Margin m ∧ Margin m' ∧ a = front ++ m ∧
      b = back ++ m' := by
  induction h with
  | @last a b ha hb => exact ⟨[], [], a, b, .nil, ha, hb, rfl, rfl⟩
  | char c _ ih =>
    obtain ⟨front, back, m, m', hInk, hm, hm', rfl, rfl⟩ := ih
    exact ⟨_, _, m, m', .char c hInk, hm, hm', rfl, rfl⟩
  | edge hm hn hm' hn' _ ih =>
    obtain ⟨front, back, k, k', hInk, hk, hk', rfl, rfl⟩ := ih
    exact ⟨_, _, k, k', .edge hm hn hm' hn' hInk, hk, hk', by simp, by simp⟩

/-- What is trimmed at the end has the same ink. -/
theorem trimEnd (h : Ahead a b) : SameInk (trimEnd a) (trimEnd b) := by
  obtain ⟨front, back, m, m', hInk, hm, hm', rfl, rfl⟩ := h.exists_sameInk
  rw [trimEnd_append_of_blank hm.isBlank, trimEnd_append_of_blank hm'.isBlank]
  exact hInk.trimEnd

/-- Both texts ahead have the same line breaks. -/
theorem count_eq (h : Ahead a b) : a.count '\n' = b.count '\n' := by
  obtain ⟨front, back, m, m', hInk, hm, hm', rfl, rfl⟩ := h.exists_sameInk
  have hNone : ∀ {cs : List Char}, Margin cs → cs.count '\n' = 0 := fun hcs =>
    List.count_eq_zero_of_not_mem (hcs.not_mem (by decide))
  rw [List.count_append, List.count_append, hNone hm, hNone hm', hInk.count_eq]

/-- A character that is no margin and no line feed stands in front of both texts or
of none, and then the rest lies ahead. -/
theorem of_cons {c : Char} (hMargin : isMargin c = false) (hBreak : c ≠ '\n')
    (h : Ahead (c :: a) b) : ∃ rest, b = c :: rest ∧ Ahead a rest := by
  generalize hFront : c :: a = front at h
  cases h with
  | last ha => exact absurd List.mem_cons_self ((hFront ▸ ha).not_mem hMargin)
  | @char a' b' d hRest =>
    obtain ⟨rfl, rfl⟩ := List.cons.inj hFront
    exact ⟨b', rfl, hRest⟩
  | edge hm =>
    have hHead := hm.head?_append hMargin ((congrArg List.head? hFront).symm)
    exact absurd (by simpa using hHead.symm) hBreak

/-- The next character, if it is ink, is the same. -/
theorem head?_eq_some_iff {c : Char} (hMargin : isMargin c = false) (hBreak : c ≠ '\n')
    (h : Ahead a b) : a.head? = some c ↔ b.head? = some c := by
  have hFront : ∀ {a b : List Char}, Ahead a b → a.head? = some c → b.head? = some c := by
    intro a b h hHead
    obtain ⟨rest, rfl⟩ := List.head?_eq_some_iff.mp hHead
    obtain ⟨rest', rfl, -⟩ := h.of_cons hMargin hBreak
    rfl
  exact ⟨hFront h, hFront h.symm⟩

/-- Texts that do not start with a margin start alike. -/
theorem head?_eq (h : Ahead a b) (ha : ∀ c ∈ a.head?, isMargin c = false)
    (hb : ∀ c ∈ b.head?, isMargin c = false) : a.head? = b.head? := by
  have hNil : ∀ {cs : List Char}, Margin cs → (∀ c ∈ cs.head?, isMargin c = false) → cs = [] := by
    intro cs hcs hHead
    cases cs with
    | nil => rfl
    | cons c rest => exact absurd List.mem_cons_self (hcs.not_mem (hHead c rfl))
  have hEdge : ∀ {m rest : List Char}, Margin m →
      (∀ c ∈ (m ++ '\n' :: rest).head?, isMargin c = false) →
      (m ++ '\n' :: rest).head? = some '\n' := by
    intro m rest hm hHead
    cases m with
    | nil => rfl
    | cons c more => exact absurd List.mem_cons_self (hm.not_mem (hHead c rfl))
  cases h with
  | last hma hmb => rw [hNil hma ha, hNil hmb hb]
  | char c _ => rfl
  | edge hm _ hm' _ _ => rw [hEdge hm ha, hEdge hm' hb]

/-- A class that holds all margins is dropped from both texts alike. -/
theorem dropWhile_of_margin {p : Char → Bool} (hAll : ∀ c, isMargin c = true → p c = true)
    (h : Ahead a b) : Ahead (a.dropWhile p) (b.dropWhile p) := by
  have hMargin : ∀ {m : List Char}, Margin m → ∀ c ∈ m, p c = true :=
    fun hm c hc => hAll c (hm c hc)
  induction h with
  | last ha hb =>
    rw [List.dropWhile_eq_nil_iff.mpr (hMargin ha), List.dropWhile_eq_nil_iff.mpr (hMargin hb)]
    exact .nil
  | @char a b c hRest ih =>
    simp only [List.dropWhile_cons]
    split
    · exact ih
    · exact .char c hRest
  | edge hm hn hm' hn' hRest ih =>
    rw [List.dropWhile_append_of_pos (hMargin hm), List.dropWhile_append_of_pos (hMargin hm')]
    simp only [List.dropWhile_cons]
    -- the class takes the line break of the edge with its margins, or stops before it
    split
    · rwa [List.dropWhile_append_of_pos (hMargin hn), List.dropWhile_append_of_pos (hMargin hn')]
    · exact .edge .nil hn .nil hn' hRest

/-- A class without margins and line feeds splits both texts alike. -/
theorem span_of_not_margin {p : Char → Bool} (hNone : ∀ c, isMargin c = true → p c = false)
    (hBreak : p '\n' = false) (h : Ahead a b) :
    a.takeWhile p = b.takeWhile p ∧ Ahead (a.dropWhile p) (b.dropWhile p) := by
  -- nothing of the class stands at an edge
  have hStop : ∀ {m rest : List Char}, Margin m → (∀ c ∈ rest.head?, p c = false) →
      (m ++ rest).takeWhile p = [] ∧ (m ++ rest).dropWhile p = m ++ rest := by
    intro m rest hm hRest
    cases hText : m ++ rest with
    | nil => exact ⟨rfl, rfl⟩
    | cons c more =>
      have hHere : p c = false := by
        cases m with
        | nil =>
          obtain rfl : rest = c :: more := hText
          exact hRest c rfl
        | cons d _ =>
          obtain rfl : d = c := (List.cons.inj hText).1
          exact hNone d (hm d List.mem_cons_self)
      exact ⟨List.takeWhile_cons_of_neg (by simp [hHere]),
        List.dropWhile_cons_of_neg (by simp [hHere])⟩
  induction h with
  | @last a b ha hb =>
    have hNil : ∀ c ∈ ([] : List Char).head?, p c = false := by simp
    rw [← List.append_nil a, ← List.append_nil b, (hStop ha hNil).1, (hStop ha hNil).2,
      (hStop hb hNil).1, (hStop hb hNil).2, List.append_nil, List.append_nil]
    exact ⟨rfl, .last ha hb⟩
  | @char a b c hRest ih =>
    -- the same character on both sides is of the class or not
    simp only [List.takeWhile_cons, List.dropWhile_cons]
    split
    · exact ⟨by rw [ih.1], ih.2⟩
    · exact ⟨rfl, .char c hRest⟩
  | @edge m n m' n' a b hm hn hm' hn' hRest =>
    have hFeed : ∀ rest : List Char, ∀ c ∈ ('\n' :: rest).head?, p c = false := by
      simpa using hBreak
    rw [(hStop hm (hFeed _)).1, (hStop hm (hFeed _)).2, (hStop hm' (hFeed _)).1,
      (hStop hm' (hFeed _)).2]
    exact ⟨rfl, .edge hm hn hm' hn' hRest⟩

theorem trimStart (h : Ahead a b) : Ahead (trimStart a) (trimStart b) :=
  h.dropWhile_of_margin fun _ => isBlank_of_isMargin

/-- Behind a class that holds all margins, both texts end or go on alike. -/
theorem dropWhile_cases {p : Char → Bool} (hAll : ∀ c, isMargin c = true → p c = true)
    (h : Ahead a b) :
    (a.dropWhile p = [] ∧ b.dropWhile p = []) ∨
      ∃ c x y, a.dropWhile p = c :: x ∧ b.dropWhile p = c :: y ∧ p c = false ∧
        Ahead (c :: x) (c :: y) := by
  have hNot : ∀ cs : List Char, ∀ c ∈ (cs.dropWhile p).head?, p c = false := by
    intro cs c hc
    have hHead := List.head?_dropWhile_not p cs
    rwa [Option.mem_def.mp hc] at hHead
  have hMargin : ∀ cs : List Char, ∀ c ∈ (cs.dropWhile p).head?, isMargin c = false := by
    intro cs c hc
    refine Bool.eq_false_iff.mpr fun hHere => ?_
    exact absurd (hAll c hHere) (by simp [hNot cs c hc])
  -- what comes next is ink, so it is the same on both sides
  have hDrop := h.dropWhile_of_margin hAll
  have hHead := hDrop.head?_eq (hMargin a) (hMargin b)
  cases ha : a.dropWhile p with
  | nil =>
    rw [ha] at hHead
    exact .inl ⟨rfl, List.head?_eq_none_iff.mp hHead.symm⟩
  | cons c x =>
    rw [ha] at hHead hDrop
    obtain ⟨y, hb⟩ := List.head?_eq_some_iff.mp hHead.symm
    rw [hb] at hDrop
    exact .inr ⟨c, x, y, rfl, hb, hNot a c (by rw [ha]; rfl), hDrop⟩

/-- The same text can stand before what lies ahead. -/
theorem append_left (h : Ahead a b) (front : List Char) : Ahead (front ++ a) (front ++ b) := by
  induction front with
  | nil => exact h
  | cons c rest ih => exact .char c ih

end Ahead

-- ---------------------------------------------------------------------------
-- Texts with the same lines
-- ---------------------------------------------------------------------------

/-- A line without its margins. -/
def trimMargin (line : List Char) : List Char :=
  (line.dropWhile isMargin).rdropWhile isMargin

/-- Two texts with as many lines, which agree but for their margins. -/
def SameLines (a b : List Char) : Prop :=
  (a.splitOn '\n').map trimMargin = (b.splitOn '\n').map trimMargin

/-- Behind its margin, a line is its trimmed text and another margin. -/
theorem exists_margin (line : List Char) :
    ∃ m, Margin m ∧ line.dropWhile isMargin = trimMargin line ++ m :=
  ⟨(line.dropWhile isMargin).rtakeWhile isMargin, fun _ hc => List.mem_rtakeWhile_imp hc,
    List.rdropWhile_append_rtakeWhile.symm⟩

theorem margin_takeWhile (cs : List Char) : Margin (cs.takeWhile isMargin) :=
  fun _ hc => List.mem_takeWhile_imp hc

/-- The margin of a line does not reach over its end. -/
theorem dropMargin_line (line rest : List Char) :
    (line ++ ['\n'] ++ rest).dropWhile isMargin = line.dropWhile isMargin ++ '\n' :: rest := by
  induction line with
  | nil => rfl
  | cons c more ih =>
    simp only [List.cons_append, List.dropWhile_cons]
    split
    · exact ih
    · simp

/-- Joined lines lie ahead of the reader alike. -/
theorem ahead_of_map_eq {lines lines' : List (List Char)}
    (h : lines.map trimMargin = lines'.map trimMargin) :
    Ahead ((['\n'].intercalate lines).dropWhile isMargin)
      ((['\n'].intercalate lines').dropWhile isMargin) := by
  induction lines generalizing lines' with
  | nil =>
    obtain rfl : lines' = [] := by simpa using h.symm
    exact .nil
  | cons line more ih =>
    obtain ⟨line', more', rfl⟩ : ∃ line' more', lines' = line' :: more' := by
      cases lines' with
      | nil => exact absurd h (by simp)
      | cons line' more' => exact ⟨line', more', rfl⟩
    obtain ⟨hLine, hMore⟩ : trimMargin line = trimMargin line' ∧
        more.map trimMargin = more'.map trimMargin := by simpa using h
    obtain ⟨m, hm, hDrop⟩ := exists_margin line
    obtain ⟨m', hm', hDrop'⟩ := exists_margin line'
    have hRest := ih hMore
    -- the last line has no edge behind it
    cases more with
    | nil =>
      obtain rfl : more' = [] := by simpa using hMore.symm
      rw [List.intercalate_singleton, List.intercalate_singleton, hDrop, hDrop', hLine]
      exact Ahead.append_left (.last hm hm') _
    | cons next more =>
      obtain ⟨next', more', rfl⟩ : ∃ next' more'', more' = next' :: more'' := by
        cases more' with
        | nil => exact absurd hMore (by simp)
        | cons next' more'' => exact ⟨next', more'', rfl⟩
      rw [List.intercalate_cons_cons, List.intercalate_cons_cons, dropMargin_line, dropMargin_line,
        hDrop, hDrop', hLine, List.append_assoc, List.append_assoc]
      -- the margin of the next line belongs to the edge between the two lines
      have hEdge := Ahead.edge hm (margin_takeWhile (['\n'].intercalate (next :: more))) hm'
        (margin_takeWhile (['\n'].intercalate (next' :: more'))) hRest
      rw [List.takeWhile_append_dropWhile, List.takeWhile_append_dropWhile] at hEdge
      exact hEdge.append_left _

/-- **Texts with the same lines lie ahead of the reader alike**, once the margin of
the first line is passed. -/
theorem SameLines.ahead {a b : List Char} (h : SameLines a b) :
    Ahead (a.dropWhile isMargin) (b.dropWhile isMargin) := by
  have hAhead := ahead_of_map_eq h
  rwa [List.intercalate_splitOn, List.intercalate_splitOn] at hAhead

end BindingMarkup.Text
