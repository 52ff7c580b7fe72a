import BindingMarkup.Editor.Cursor
import BindingMarkup.Proofs.Diagnostic
import BindingMarkup.Proofs.Markup
import BindingMarkup.Text.Case

/-!
# BindingMarkup — the word at the cursor, by its parts

The editor finds a word by columns: it computes where the word begins and
ends and cuts that piece out of the line. Here the line itself falls into
four parts around the cursor, the word characters directly before it and
directly behind it, and what stands before and behind these (`AtWord`).
Every line has such parts (`exists_atWord`), and they decide the answer:

* `getElem?_lines_word` — where a word of the text stands on its line.
* `AtWord.wordAt_eq` — the word is made of the two parts in the middle,
  unless the character before them takes several bytes.
* `exists_atWord_of_wordAt` — an answer tells where it was found.

In ASCII a column is a number of characters, and the Unicode classes of
the editor are the plain ones of the reader (`isAlphanumeric_of_ascii`,
`isUppercase_of_ascii`).
-/

namespace BindingMarkup.Text

-- ---------------------------------------------------------------------------
-- Columns at the end of a text
-- ---------------------------------------------------------------------------

theorem byteLength_reverse (cs : List Char) : byteLength cs.reverse = byteLength cs := by
  induction cs with
  | nil => rfl
  | cons c rest ih =>
    rw [List.reverse_cons, byteLength_append, ih]
    simp only [byteLength]
    omega

theorem length_le_byteLength (cs : List Char) : cs.length ≤ byteLength cs := by
  induction cs with
  | nil => exact Nat.le_refl 0
  | cons c rest ih =>
    have hSize := c.utf8Size_pos
    rw [byteLength, List.length_cons]
    omega

/-- A cut behind the bytes of a text is a cut behind the text. -/
theorem cut_byteLength (front back : List Char) :
    cut (byteLength front) (front ++ back) = (front, back) := by
  induction front with
  | nil =>
    cases back with
    | nil => rfl
    | cons c rest =>
      have hSize := c.utf8Size_pos
      rw [List.nil_append, cut, if_neg (by simp only [byteLength]; omega)]
  | cons c rest ih =>
    rw [List.cons_append, byteLength, cut, if_pos (Nat.le_add_right _ _), Nat.add_sub_cancel_left,
      ih]

/-- As many bytes as a text has are the text. -/
theorem takeBytes?_byteLength (front back : List Char) :
    takeBytes? (byteLength front) (front ++ back) = some front := by
  induction front with
  | nil => simp [byteLength, takeBytes?]
  | cons c rest ih =>
    have hSize := c.utf8Size_pos
    obtain ⟨n, hn⟩ := Nat.exists_eq_succ_of_ne_zero (n := byteLength (c :: rest))
      (by rw [byteLength]; omega)
    have hRest : n + 1 - c.utf8Size = byteLength rest := by
      rw [← Nat.succ_eq_add_one, ← hn, byteLength, Nat.add_sub_cancel_left]
    rw [hn, List.cons_append, takeBytes?, if_pos (by rw [byteLength] at hn; omega), hRest, ih]
    rfl

/-- Dropping the bytes of a text drops the text. -/
theorem dropBytes?_byteLength_add (front back : List Char) (column : Nat) :
    dropBytes? (byteLength front + column) (front ++ back) = dropBytes? column back := by
  induction front with
  | nil => rw [byteLength, Nat.zero_add, List.nil_append]
  | cons c rest ih =>
    have hSize := c.utf8Size_pos
    obtain ⟨n, hn⟩ := Nat.exists_eq_succ_of_ne_zero (n := byteLength (c :: rest) + column)
      (by rw [byteLength]; omega)
    have hRest : n + 1 - c.utf8Size = byteLength rest + column := by
      rw [byteLength] at hn
      omega
    rw [hn, List.cons_append, dropBytes?, if_pos (by rw [byteLength] at hn; omega), hRest, ih]

/-- The text between the end of one part and the end of the next is that part. -/
theorem slice?_append (front middle back : List Char) :
    slice? (byteLength front) (byteLength front + byteLength middle)
      (front ++ (middle ++ back)) = some middle := by
  have hDrop : dropBytes? (byteLength front) (front ++ (middle ++ back)) =
      some (middle ++ back) := by
    rw [← Nat.add_zero (byteLength front), dropBytes?_byteLength_add, dropBytes?]
  rw [slice?, hDrop, Nat.add_sub_cancel_left]
  exact takeBytes?_byteLength middle back

/-- No text begins inside a character. -/
theorem slice?_inside {c : Char} (hWide : c.utf8Size ≠ 1) (front back : List Char) (stop : Nat) :
    slice? (byteLength front + 1) stop (front ++ c :: back) = none := by
  have hSize := c.utf8Size_pos
  rw [slice?, dropBytes?_byteLength_add, dropBytes?, if_neg (by omega)]
  rfl

-- ---------------------------------------------------------------------------
-- Words on lines
-- ---------------------------------------------------------------------------

/-- A word without blanks stands whole on its line, behind what stands before it there,
and the line goes on as the text does, up to blanks at the end. -/
theorem getElem?_lines_word (before : List Char) {word : List Char} (hNil : word ≠ [])
    (hWord : ∀ c ∈ word, isBlank c = false) (after : List Char) :
    ∃ tail blanks,
      (lines (before ++ (word ++ after)))[before.count '\n']? =
        some (lastLine before ++ (word ++ tail)) ∧
      firstLine after = tail ++ blanks ∧ ∀ c ∈ blanks, isBlank c = true := by
  obtain ⟨c, more, hHead⟩ := List.exists_cons_of_ne_nil hNil
  have hSolid : isBlank c = false := hWord c (by rw [hHead]; exact List.mem_cons_self)
  have hLine := getElem?_lines before hSolid (more ++ after)
  rw [← List.cons_append, ← hHead] at hLine
  obtain ⟨blanks, hFirst, hBlanks⟩ := exists_blank_firstLine (word ++ after)
  have hBreak : ∀ d ∈ word, (d != '\n') = true := by
    intro d hd
    refine bne_iff_ne.mpr ?_
    rintro rfl
    exact absurd (hWord _ hd) (by decide)
  rw [List.takeWhile_append_of_pos hBreak] at hFirst
  rcases List.append_eq_append_iff.mp hFirst with ⟨tail, hStart, hTail⟩ | ⟨rest, hStart, hRest⟩
  · exact ⟨tail, blanks, by rw [hLine, hStart], hTail, hBlanks⟩
  · -- the line ends with the word
    have hNone : rest = [] := by
      refine List.eq_nil_iff_forall_not_mem.mpr fun d hd => ?_
      have hBlank := hBlanks d (by rw [hRest]; exact List.mem_append_left _ hd)
      rw [hWord d (by rw [hStart]; exact List.mem_append_right _ hd)] at hBlank
      exact absurd hBlank (by simp)
    rw [hNone, List.append_nil] at hStart
    rw [hNone, List.nil_append] at hRest
    exact ⟨[], blanks, by rw [hLine, ← hStart, List.append_nil], hRest.symm, hBlanks⟩

/-- What follows on the line follows in the text. -/
theorem head?_of_firstLine {after tail blanks : List Char} (h : firstLine after = tail ++ blanks) :
    ∀ c ∈ tail.head?, c ∈ after.head? := by
  intro c hc
  obtain ⟨rest, rfl⟩ := List.head?_eq_some_iff.mp hc
  rw [← firstLine_append_afterFirstLine after, h]
  rfl

-- ---------------------------------------------------------------------------
-- ASCII
-- ---------------------------------------------------------------------------

/-- A text in ASCII. -/
def Ascii (cs : List Char) : Prop :=
  ∀ c ∈ cs, c.toNat < 128

instance (cs : List Char) : Decidable (Ascii cs) :=
  decidable_of_iff (cs.all fun c => decide (c.toNat < 128)) (by simp [Ascii])

/-- An ASCII character has one byte. -/
theorem utf8Size_of_ascii {c : Char} (h : c.toNat < 128) : c.utf8Size = 1 := by
  refine Char.utf8Size_eq_one_iff.mpr (UInt32.le_iff_toNat_le.mpr ?_)
  show c.toNat ≤ 127
  omega

/-- In ASCII, bytes are characters. -/
theorem byteLength_of_ascii {cs : List Char} (h : Ascii cs) : byteLength cs = cs.length := by
  induction cs with
  | nil => rfl
  | cons c rest ih =>
    rw [byteLength, utf8Size_of_ascii (h c List.mem_cons_self),
      ih fun d hd => h d (List.mem_cons_of_mem c hd), List.length_cons]
    omega

/-- No table that starts behind ASCII holds a character of it. -/
theorem inRuns_of_ascii {runs : List (Nat × Nat)} (hRuns : ∀ run ∈ runs, 128 ≤ run.1) {c : Char}
    (h : c.toNat < 128) : inRuns runs c = false := by
  refine Bool.eq_false_iff.mpr fun hIn => ?_
  obtain ⟨run, hRun, hFirst, -⟩ := inRuns_eq_true_iff.mp hIn
  have hLow := hRuns run hRun
  omega

theorem isAlphanumeric_of_ascii {c : Char} (h : c.toNat < 128) :
    isAlphanumeric c = c.isAlphanum := by
  have hAlphabetic : inRuns alphabeticRuns c = false := inRuns_of_ascii (by decide +kernel) h
  have hNumeric : inRuns numericRuns c = false := inRuns_of_ascii (by decide +kernel) h
  rw [isAlphanumeric, isAlphabetic, isNumeric, hAlphabetic, hNumeric, Bool.or_false,
    Bool.or_false]
  rfl

/-- In ASCII, the capitals are those of the alphabet. -/
theorem isUppercase_of_ascii {c : Char} (h : c.toNat < 128) : isUppercase c = c.isUpper := by
  have hRuns : ∀ run ∈ uppercaseRuns, 128 ≤ run.1 := by decide +kernel
  have hNone : ∀ run ∈ uppercaseRuns, ¬onSteps run.1 run.2.1 run.2.2 c.toNat = true := by
    intro run hRun hIn
    have hLow := hRuns run hRun
    simp only [onSteps, Bool.and_eq_true, decide_eq_true_eq] at hIn
    omega
  unfold isUppercase
  rw [List.any_eq_false.mpr hNone, Bool.or_false]

end BindingMarkup.Text

namespace BindingMarkup.Editor

open Text

/-- A capital comes first in the name of a type. -/
theorem exists_upper_of_isTypeName {cs : List Char} (h : BindingMarkup.isTypeName cs = true) :
    ∃ c rest, cs = c :: rest ∧ c.isUpper = true := by
  rw [BindingMarkup.isTypeName, Bool.and_eq_true] at h
  cases cs with
  | nil => exact absurd h.1 (by simp)
  | cons c rest => exact ⟨c, rest, rfl, h.1⟩

/-- In ASCII the names of types are made of word characters and dashes. -/
theorem isElementChar_of_ascii {c : Char} (h : c.toNat < 128) :
    Token.isElementChar c = (isWordChar c || c == '-') := by
  rw [isWordChar, isAlphanumeric_of_ascii h]
  rfl

/-- In ASCII, what ends a type name ends a word. -/
theorem isWordChar_of_not_isElementChar {c : Char} (hAscii : c.toNat < 128)
    (h : Token.isElementChar c = false) : isWordChar c = false := by
  rw [isElementChar_of_ascii hAscii, Bool.or_eq_false_iff] at h
  exact h.1

-- ---------------------------------------------------------------------------
-- The parts of a line around the cursor
-- ---------------------------------------------------------------------------

variable {text : String} {position : Position} {before left right after : List Char}

/-- The line at a position falls into four parts around the cursor. The word characters
next to the cursor are those of `left` and `right`. -/
structure AtWord (text : String) (position : Position) (before left right after : List Char) :
    Prop where
  line : lineAt? text position = some (before ++ left ++ (right ++ after))
  cut : cut position.character (before ++ left ++ (right ++ after)) =
    (before ++ left, right ++ after)
  left : ∀ c ∈ left, isWordChar c = true
  right : ∀ c ∈ right, isWordChar c = true
  before : ∀ c ∈ before.getLast?, isWordChar c = false
  after : ∀ c ∈ after.head?, isWordChar c = false

/-- Every line has its parts. -/
theorem exists_atWord {line : List Char} (h : lineAt? text position = some line) :
    ∃ before left right after, AtWord text position before left right after := by
  obtain ⟨front, back, hCut⟩ : ∃ front back, Text.cut position.character line = (front, back) :=
    ⟨_, _, rfl⟩
  have hFront : front.rdropWhile isWordChar ++ front.rtakeWhile isWordChar = front :=
    List.rdropWhile_append_rtakeWhile
  have hBack : back.takeWhile isWordChar ++ back.dropWhile isWordChar = back :=
    List.takeWhile_append_dropWhile
  have hLine : front ++ back = line := by
    have hParts := cut_append position.character line
    rwa [hCut] at hParts
  refine ⟨front.rdropWhile isWordChar, front.rtakeWhile isWordChar, back.takeWhile isWordChar,
    back.dropWhile isWordChar, ?_, ?_, fun c hc => List.mem_rtakeWhile_imp hc,
    fun c hc => List.mem_takeWhile_imp hc, fun c hc => ?_, fun c hc => ?_⟩
  · rw [hFront, hBack, hLine]
    exact h
  · rw [hFront, hBack, hLine]
    exact hCut
  · obtain ⟨hNil, rfl⟩ := List.mem_getLast?_eq_getLast hc
    simpa using List.rdropWhile_last_not isWordChar _ hNil
  · have hHead := List.head?_dropWhile_not isWordChar back
    rw [Option.mem_def.mp hc] at hHead
    simpa using hHead

/-- A line is read at a column where two of its parts meet. -/
theorem AtWord.of_column {row : Nat} (hLine : (lines text.toList)[row]? =
      some (before ++ left ++ (right ++ after)))
    (hLeft : ∀ c ∈ left, isWordChar c = true) (hRight : ∀ c ∈ right, isWordChar c = true)
    (hBefore : ∀ c ∈ before.getLast?, isWordChar c = false)
    (hAfter : ∀ c ∈ after.head?, isWordChar c = false) :
    AtWord text ⟨row, byteLength (before ++ left)⟩ before left right after where
  line := hLine
  cut := cut_byteLength (before ++ left) (right ++ after)
  left := hLeft
  right := hRight
  before := hBefore
  after := hAfter

namespace AtWord

/-- The column at which the word begins is reckoned from the character before it. -/
theorem dropWhile_front (h : AtWord text position before left right after) :
    (before ++ left).reverse.dropWhile isWordChar = before.reverse := by
  rw [List.reverse_append, List.dropWhile_append_of_pos fun c hc => h.left c (by simpa using hc)]
  cases hLast : before.reverse with
  | nil => rfl
  | cons d rest =>
    have hd : before.getLast? = some d := by rw [← List.head?_reverse, hLast]; rfl
    exact List.dropWhile_cons_of_neg (by simp [h.before d hd])

/-- The word goes on behind the cursor as far as it can. -/
theorem takeWhile_back (h : AtWord text position before left right after) :
    (right ++ after).takeWhile isWordChar = right := by
  rw [List.takeWhile_append_of_pos h.right]
  cases hAfter : after with
  | nil => simp
  | cons d rest =>
    have hd : after.head? = some d := by rw [hAfter]; rfl
    simp [h.after d hd]

theorem wordStop_eq (h : AtWord text position before left right after) :
    wordStop (before ++ left) (right ++ after) =
      byteLength before + byteLength (left ++ right) := by
  rw [wordStop, h.takeWhile_back, byteLength_append, byteLength_append]
  omega

/-- The word begins where the part before it ends, if this ends with one byte. -/
theorem wordStart_eq (h : AtWord text position before left right after)
    (hNarrow : ∀ c ∈ before.getLast?, c.utf8Size = 1) :
    wordStart (before ++ left) = byteLength before := by
  unfold wordStart
  rw [h.dropWhile_front]
  cases hLast : before.reverse with
  | nil => rw [List.reverse_eq_nil_iff.mp hLast]; rfl
  | cons d rest =>
    have hd : before.getLast? = some d := by rw [← List.head?_reverse, hLast]; rfl
    have hOne := hNarrow d hd
    rw [← byteLength_reverse before, hLast]
    simp only [byteLength]
    omega

/-- **The word at the cursor.** It is made of the two parts next to the cursor, unless the
character before them takes several bytes. -/
theorem wordAt_eq (h : AtWord text position before left right after) :
    wordAt text position =
      if ∀ c ∈ before.getLast?, c.utf8Size = 1 then
        .ok (if left ++ right = [] then none else some (String.ofList (left ++ right)))
      else .error .insideCharacter := by
  unfold wordAt
  rw [h.line]
  simp only [h.cut, h.wordStop_eq]
  by_cases hNarrow : ∀ c ∈ before.getLast?, c.utf8Size = 1
  · rw [if_pos hNarrow, h.wordStart_eq hNarrow]
    by_cases hNil : left ++ right = []
    · rw [hNil, if_pos rfl, if_neg (by simp [byteLength])]
    · have hPos : 0 < (left ++ right).length := List.length_pos_of_ne_nil hNil
      have hBytes := length_le_byteLength (left ++ right)
      have hLine : before ++ left ++ (right ++ after) = before ++ ((left ++ right) ++ after) := by
        simp
      rw [if_pos (by omega), if_neg hNil, hLine, slice?_append]
  · rw [if_neg hNarrow]
    push Not at hNarrow
    obtain ⟨d, hd, hSize⟩ := hNarrow
    have hPos := d.utf8Size_pos
    obtain ⟨front, rfl⟩ := List.getLast?_eq_some_iff.mp hd
    have hStart : wordStart (front ++ [d] ++ left) = byteLength front + 1 := by
      unfold wordStart
      rw [h.dropWhile_front, List.reverse_concat]
      show byteLength front.reverse + 1 = byteLength front + 1
      rw [byteLength_reverse]
    have hLine : front ++ [d] ++ left ++ (right ++ after) =
        front ++ d :: (left ++ (right ++ after)) := by
      simp
    -- the start is one byte behind the beginning of a wider character, so it is inside it
    have hStop : byteLength front + 1 < byteLength (front ++ [d]) + byteLength (left ++ right) := by
      rw [byteLength_append front]
      simp only [byteLength]
      omega
    rw [hStart, if_pos hStop, hLine, slice?_inside hSize]

/-- With a narrow character before it, a word that is there is found. -/
theorem wordAt_eq_some (h : AtWord text position before left right after)
    (hNarrow : ∀ c ∈ before.getLast?, c.utf8Size = 1) (hWord : left ++ right ≠ []) :
    wordAt text position = .ok (some (String.ofList (left ++ right))) := by
  rw [h.wordAt_eq, if_pos hNarrow, if_neg hWord]

end AtWord

/-- An answer is what stands around the cursor. -/
theorem exists_atWord_of_wordAt {word : String} (h : wordAt text position = .ok (some word)) :
    ∃ before left right after, AtWord text position before left right after ∧
      word.toList = left ++ right ∧ left ++ right ≠ [] := by
  cases hLine : lineAt? text position with
  | none => simp [wordAt, hLine] at h
  | some line =>
    obtain ⟨before, left, right, after, hAt⟩ := exists_atWord hLine
    rw [hAt.wordAt_eq] at h
    split at h
    · split at h
      · exact absurd h (by simp)
      · next hWord =>
        obtain rfl := Option.some.inj (Except.ok.inj h)
        exact ⟨before, left, right, after, hAt, String.toList_ofList, hWord⟩
    · exact absurd h (by simp)

/-- A word holds no blanks. -/
theorem isBlank_of_isWordChar {c : Char} (h : isWordChar c = true) : isBlank c = false := by
  refine BindingMarkup.isBlank_of_isWordChar ?_
  simp only [isWordChar, Bool.or_eq_true, beq_iff_eq] at h
  rcases h with h | rfl
  · simp [BindingMarkup.isWordChar, isNameChar, h]
  · simp [BindingMarkup.isWordChar, isNameChar]

end BindingMarkup.Editor
