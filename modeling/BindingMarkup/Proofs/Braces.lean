import BindingMarkup.Editor.Context
import BindingMarkup.Proofs.Diagnostic

/-!
# BindingMarkup — matching braces backward

The editor looks for the node around the cursor by reading the text
backward and matching braces, one line after the other. Nothing but the
braces counts on this way (`matchBack_congr`), so blanks and the breaks
between lines can be left aside.

* `matchBack_of_matched` — reading passes over a part in which every brace
  has its partner.
* `enclosingElement_of_matched`, `enclosingElement_of_split` — in a text
  without comments the search ends at the brace behind which all others
  have their partners, on the line of this brace; if there is no such
  brace, it finds nothing.
* `elementOnLine_eq_some_iff` — when the first word of a line gives a name.
-/

namespace BindingMarkup

namespace Text

-- ---------------------------------------------------------------------------
-- The braces of a text
-- ---------------------------------------------------------------------------

def isBrace (c : Char) : Bool :=
  c == '\x7b' || c == '\x7d'

def braces (cs : List Char) : List Char :=
  cs.filter isBrace

theorem brace_cases (c : Char) : c = '\x7b' ∨ c = '\x7d' ∨ isBrace c = false := by
  by_cases hOpening : c = '\x7b'
  · exact .inl hOpening
  · by_cases hClosing : c = '\x7d'
    · exact .inr (.inl hClosing)
    · exact .inr (.inr (by simp [isBrace, hOpening, hClosing]))

@[simp] theorem braces_append (a b : List Char) : braces (a ++ b) = braces a ++ braces b :=
  List.filter_append a b

theorem braces_cons_of_not {c : Char} (h : isBrace c = false) (cs : List Char) :
    braces (c :: cs) = braces cs :=
  List.filter_cons_of_neg (by simp [h])

theorem braces_cons_of_isBrace {c : Char} (h : isBrace c = true) (cs : List Char) :
    braces (c :: cs) = c :: braces cs :=
  List.filter_cons_of_pos h

theorem braces_eq_nil {cs : List Char} (h : ∀ c ∈ cs, isBrace c = false) : braces cs = [] := by
  refine List.filter_eq_nil_iff.mpr fun c hc => ?_
  simp [h c hc]

theorem isBrace_of_isBlank {c : Char} (h : isBlank c = true) : isBrace c = false := by
  rcases brace_cases c with rfl | rfl | hOther
  · exact absurd h (by decide)
  · exact absurd h (by decide)
  · exact hOther

/-- Blanks at the end are no braces. -/
theorem braces_trimEnd (cs : List Char) : braces (trimEnd cs) = braces cs := by
  obtain ⟨blanks, hParts, hBlanks⟩ := exists_trimEnd_append cs
  have hNone : braces blanks = [] := braces_eq_nil fun c hc => isBrace_of_isBlank (hBlanks c hc)
  rw [hParts, braces_append, hNone, List.append_nil, trimEnd_append_of_blank hBlanks,
    trimEnd_trimEnd]

theorem braces_trim (cs : List Char) : braces (trim cs) = braces cs := by
  have hParts : cs.takeWhile isBlank ++ trimStart cs = cs := List.takeWhile_append_dropWhile
  have hNone : braces (cs.takeWhile isBlank) = [] :=
    braces_eq_nil fun c hc => isBrace_of_isBlank (List.mem_takeWhile_imp hc)
  rw [trim, braces_trimEnd]
  conv_rhs => rw [← hParts, braces_append, hNone, List.nil_append]

theorem flatten_eq_headD_append (ls : List (List Char)) :
    ls.flatten = ls.headD [] ++ ls.tail.flatten := by
  cases ls <;> rfl

/-- The breaks between lines hold no braces. -/
theorem braces_lines (cs : List Char) : braces (lines cs).flatten = braces cs := by
  induction cs using lines_induction with
  | nil => rfl
  | feed rest ih => rw [lines, List.flatten_cons, List.nil_append, ih]; rfl
  | returnFeed rest ih => rw [lines, List.flatten_cons, List.nil_append, ih]; rfl
  | other c rest hBreak hReturn ih =>
    rw [lines_cons hBreak hReturn, List.flatten_cons, List.cons_append,
      ← flatten_eq_headD_append, ← List.singleton_append, braces_append, ih, ← braces_append,
      List.singleton_append]

/-- A line is a part of its text. -/
theorem infix_of_mem_lines {cs line : List Char} (h : line ∈ lines cs) : line <:+: cs := by
  have hFirst (cs : List Char) : (lines cs).headD [] <+: cs := by
    obtain ⟨blanks, hLine, -⟩ := exists_blank_firstLine cs
    exact (List.prefix_append _ blanks).trans (hLine ▸ List.takeWhile_prefix _)
  induction cs using lines_induction with
  | nil => exact absurd h List.not_mem_nil
  | feed rest ih =>
    rcases List.mem_cons.mp h with rfl | hLater
    · exact List.nil_infix
    · exact (ih hLater).trans (List.suffix_cons _ rest).isInfix
  | returnFeed rest ih =>
    rcases List.mem_cons.mp h with rfl | hLater
    · exact List.nil_infix
    · exact (ih hLater).trans (List.suffix_append ['\r', '\n'] rest).isInfix
  | other c rest hBreak hReturn ih =>
    -- the character is the first one of the first line, and the other lines are those of the
    -- rest
    rw [lines_cons hBreak hReturn] at h
    rcases List.mem_cons.mp h with rfl | hLater
    · exact (List.prefix_cons_inj c |>.mpr (hFirst rest)).isInfix
    · exact (ih (List.mem_of_mem_tail hLater)).trans (List.suffix_cons c rest).isInfix

/-- The lines behind an offset are those of the text from there on. -/
theorem drop_lines (before : List Char) {c : Char} (hc : isBlank c = false)
    (after : List Char) :
    (lines (before ++ c :: after)).drop (before.count '\n' + 1) = (lines (c :: after)).tail := by
  have hFeed : c ≠ '\n' := by
    rintro rfl
    exact absurd hc (by decide)
  induction before using lines_induction with
  | nil => exact List.drop_one
  | feed rest ih => rw [List.count_cons_self, ← ih]; rfl
  | returnFeed rest ih =>
    rw [List.count_cons_of_ne (by decide), List.count_cons_self, ← ih]
    rfl
  | other d rest hBreak hReturn ih =>
    -- a carriage return before `c` is no line break
    have hHead : d = '\r' → (rest ++ c :: after).head? ≠ some '\n' := by
      intro hd
      cases rest with
      | nil => simpa using hFeed
      | cons e rest => exact hReturn hd
    rw [List.cons_append, lines_cons hBreak hHead, List.count_cons_of_ne hBreak,
      List.drop_succ_cons, List.drop_tail, ih]

/-- A text that is cut before a character has lines before that of the character, this
line, and lines behind it. -/
theorem exists_lines_split (before : List Char) {c : Char} (hc : isBlank c = false)
    (after : List Char) :
    ∃ earlier, earlier.length = before.count '\n' ∧
      lines (before ++ c :: after) =
        earlier ++ (lastLine before ++ c :: (lines after).headD []) :: (lines after).tail := by
  have hFirst : lines (c :: after) = (c :: (lines after).headD []) :: (lines after).tail := by
    refine lines_cons ?_ fun hReturn => ?_
    · rintro rfl
      exact absurd hc (by decide)
    · exact absurd hc (by rw [hReturn]; decide)
  have hAt := getElem?_lines before hc after
  have hBehind := drop_lines before hc after
  rw [hFirst, List.headD_cons] at hAt
  rw [hFirst, List.tail_cons] at hBehind
  obtain ⟨hLength, hLine⟩ := List.getElem?_eq_some_iff.mp hAt
  refine ⟨(lines (before ++ c :: after)).take (before.count '\n'), ?_, ?_⟩
  · rw [List.length_take, Nat.min_eq_left (Nat.le_of_lt hLength)]
  · rw [← hBehind, ← hLine, ← List.drop_eq_getElem_cons hLength, List.take_append_drop]

-- ---------------------------------------------------------------------------
-- Matched braces
-- ---------------------------------------------------------------------------

/-- Every brace of the text has its partner in it. -/
inductive Matched : List Char → Prop where
  | nil : Matched []
  | other {c : Char} {rest : List Char} (hOther : isBrace c = false) (hRest : Matched rest) :
      Matched (c :: rest)
  | group {inside rest : List Char} (hInside : Matched inside) (hRest : Matched rest) :
      Matched ('\x7b' :: (inside ++ '\x7d' :: rest))

namespace Matched

variable {a b cs : List Char}

theorem of_not_isBrace (h : ∀ c ∈ cs, isBrace c = false) : Matched cs := by
  induction cs with
  | nil => exact .nil
  | cons c rest ih =>
    obtain ⟨hFirst, hRest⟩ := List.forall_mem_cons.mp h
    exact .other hFirst (ih hRest)

/-- Matched texts can be put behind each other. -/
theorem append (ha : Matched a) (hb : Matched b) : Matched (a ++ b) := by
  induction ha with
  | nil => exact hb
  | other hOther _ ih => exact .other hOther ih
  | group hInside _ _ ih =>
    rw [List.cons_append, List.append_assoc, List.cons_append]
    exact .group hInside ih

/-- Only the braces of a text decide whether it is matched. -/
theorem braces (h : Matched cs) : Matched (braces cs) := by
  induction h with
  | nil => exact .nil
  | other hOther _ ih => rwa [braces_cons_of_not hOther]
  | @group inside rest _ _ ihInside ihRest =>
    have hGroup : Text.braces ('\x7b' :: (inside ++ '\x7d' :: rest)) =
        '\x7b' :: (Text.braces inside ++ '\x7d' :: Text.braces rest) := by
      simp [Text.braces, isBrace]
    rw [hGroup]
    exact .group ihInside ihRest

end Matched

end Text

namespace Editor

open Text

-- ---------------------------------------------------------------------------
-- Reading backward
-- ---------------------------------------------------------------------------

theorem matchBack_cons_of_not {c : Char} (h : isBrace c = false) (depth : Nat)
    (cs : List Char) : matchBack depth (c :: cs) = matchBack depth cs := by
  simp only [isBrace, Bool.or_eq_false_iff, beq_eq_false_iff_ne] at h
  cases depth <;> rw [matchBack, if_neg h.2, if_neg h.1]

theorem matchBack_closing (depth : Nat) (cs : List Char) :
    matchBack depth ('\x7d' :: cs) = matchBack (depth + 1) cs := by
  cases depth <;> rw [matchBack, if_pos rfl]

theorem matchBack_opening (depth : Nat) (cs : List Char) :
    matchBack (depth + 1) ('\x7b' :: cs) = matchBack depth cs := by
  rw [matchBack, if_neg (by decide), if_pos rfl]

theorem matchBack_opening_zero (cs : List Char) : matchBack 0 ('\x7b' :: cs) = none := by
  rw [matchBack, if_neg (by decide), if_pos rfl]

/-- A walk back over two texts is a walk over the first and then over the second. -/
theorem matchBack_append (depth : Nat) (a b : List Char) :
    matchBack depth (a ++ b) = (matchBack depth a).bind fun left => matchBack left b := by
  induction a generalizing depth with
  | nil => cases depth <;> rfl
  | cons c rest ih =>
    rw [List.cons_append]
    rcases brace_cases c with rfl | rfl | hOther
    · cases depth with
      | zero => rw [matchBack_opening_zero, matchBack_opening_zero]; rfl
      | succ depth => rw [matchBack_opening, matchBack_opening, ih]
    · rw [matchBack_closing, matchBack_closing, ih]
    · rw [matchBack_cons_of_not hOther, matchBack_cons_of_not hOther, ih]

/-- The walk looks at braces only. -/
theorem matchBack_braces (depth : Nat) (cs : List Char) :
    matchBack depth (braces cs) = matchBack depth cs := by
  induction cs generalizing depth with
  | nil => rfl
  | cons c rest ih =>
    rcases brace_cases c with rfl | rfl | hOther
    · rw [braces_cons_of_isBrace (by decide)]
      cases depth with
      | zero => rw [matchBack_opening_zero, matchBack_opening_zero]
      | succ depth => rw [matchBack_opening, matchBack_opening, ih]
    · rw [braces_cons_of_isBrace (by decide), matchBack_closing, matchBack_closing, ih]
    · rw [braces_cons_of_not hOther, matchBack_cons_of_not hOther, ih]

/-- Only the braces count. -/
theorem matchBack_congr {a b : List Char} (h : braces a = braces b) (depth : Nat) :
    matchBack depth a.reverse = matchBack depth b.reverse := by
  have hReverse : braces a.reverse = braces b.reverse := by
    rw [braces, List.filter_reverse, braces, List.filter_reverse]
    exact congrArg List.reverse h
  rw [← matchBack_braces, hReverse, matchBack_braces]

/-- Matched braces are passed over. -/
theorem matchBack_of_matched {cs : List Char} (h : Matched cs) (depth : Nat)
    (more : List Char) :
    matchBack depth (cs.reverse ++ more) = matchBack depth more := by
  induction h generalizing depth more with
  | nil => rfl
  | other hOther _ ih =>
    rw [List.reverse_cons, List.append_assoc, ih, List.singleton_append,
      matchBack_cons_of_not hOther]
  | @group inside rest _ _ ihInside ihRest =>
    have hReverse : ('\x7b' :: (inside ++ '\x7d' :: rest)).reverse ++ more =
        rest.reverse ++ '\x7d' :: (inside.reverse ++ '\x7b' :: more) := by
      simp
    rw [hReverse, ihRest, matchBack_closing, ihInside, matchBack_opening]

/-- Walking back over a matched text leaves the depth as it was. -/
theorem matchBack_reverse_of_matched {cs : List Char} (h : Matched (braces cs)) (depth : Nat) :
    matchBack depth cs.reverse = some depth := by
  have hBraces : braces cs = braces (braces cs) := by simp [braces]
  rw [matchBack_congr hBraces, ← List.append_nil (braces cs).reverse, matchBack_of_matched h]
  cases depth <;> rfl

-- ---------------------------------------------------------------------------
-- The search through the lines
-- ---------------------------------------------------------------------------

/-- Last lines that leave no brace open are passed over. -/
theorem enclosingBack_append {later : List (List Char)} {depth left : Nat}
    (h : matchBack depth (later.flatMap stripComment).reverse = some left)
    (earlier : List (List Char)) :
    enclosingBack depth (earlier ++ later).reverse = enclosingBack left earlier.reverse := by
  induction later using List.reverseRecOn generalizing depth with
  | nil =>
    obtain rfl : depth = left := by cases depth <;> exact Option.some.inj h
    rw [List.append_nil]
  | append_singleton later line ih =>
    rw [List.flatMap_append, List.reverse_append, matchBack_append] at h
    obtain ⟨between, hLine, hLater⟩ := Option.bind_eq_some_iff.mp h
    rw [List.flatMap_singleton, ← matchBack_congr (braces_trim _)] at hLine
    rw [← List.append_assoc, List.reverse_concat, enclosingBack, hLine]
    exact ih hLater

/-- The search ends on the line that leaves a brace open. -/
theorem enclosingElement_of_lines {text line : List Char} {earlier later : List (List Char)}
    {left : Nat} (hLines : lines text = earlier ++ line :: later)
    (hLater : matchBack 0 (later.flatMap stripComment).reverse = some left)
    (hLine : matchBack left (stripComment line).reverse = none) :
    enclosingElement text = elementOnLine (trim (stripComment line)) := by
  rw [← matchBack_congr (braces_trim _)] at hLine
  rw [enclosingElement, hLines, List.append_cons, enclosingBack_append hLater,
    List.reverse_concat, enclosingBack, hLine]

theorem stripComment_of_mem_lines {text line : List Char} (hCode : ¬['/', '/'] <:+: text)
    (h : line ∈ lines text) : stripComment line = line :=
  stripComment_eq_self fun hComment => hCode (hComment.trans (infix_of_mem_lines h))

/-- In a text without comments the lines stay as they are. -/
theorem flatMap_stripComment {text : List Char} {later : List (List Char)}
    (hCode : ¬['/', '/'] <:+: text) (h : ∀ line ∈ later, line ∈ lines text) :
    later.flatMap stripComment = later.flatten := by
  have hMap : later.map stripComment = later.map id :=
    List.map_congr_left fun line hLine => stripComment_of_mem_lines hCode (h line hLine)
  rw [List.flatMap_def, hMap, List.map_id]

/-- Where all braces have their partners, nothing is open. -/
theorem enclosingElement_of_matched {text : List Char} (hCode : ¬['/', '/'] <:+: text)
    (h : Matched (braces text)) : enclosingElement text = none := by
  have hAll : matchBack 0 ((lines text).flatMap stripComment).reverse = some 0 := by
    rw [flatMap_stripComment hCode fun _ => id, matchBack_congr (braces_lines text),
      matchBack_reverse_of_matched h]
  exact enclosingBack_append hAll []

/-- **The last open brace.** When all braces behind an opening brace have their
partners, the search ends on its line. -/
theorem enclosingElement_of_split {front back : List Char}
    (hCode : ¬['/', '/'] <:+: front ++ '\x7b' :: back) (h : Matched (braces back)) :
    ∃ line, (lines (front ++ '\x7b' :: back))[front.count '\n']? = some line ∧
      enclosingElement (front ++ '\x7b' :: back) = elementOnLine (trim line) := by
  obtain ⟨earlier, hEarlier, hLines⟩ := exists_lines_split front (c := '\x7b') (by decide) back
  -- the lines behind may leave some closing braces, and the rest of this line matches them
  have hBack : matchBack 0 (lines back).flatten.reverse = some 0 := by
    rw [matchBack_congr (braces_lines back), matchBack_reverse_of_matched h]
  rw [flatten_eq_headD_append, List.reverse_append, matchBack_append] at hBack
  obtain ⟨left, hLater, hRest⟩ := Option.bind_eq_some_iff.mp hBack
  have hMem : ∀ line ∈ (lines back).tail, line ∈ lines (front ++ '\x7b' :: back) := by
    intro line hMem
    rw [hLines]
    exact List.mem_append_right _ (List.mem_cons_of_mem _ hMem)
  have hStrip := @stripComment_of_mem_lines _ (lastLine front ++ '\x7b' :: (lines back).headD [])
    hCode (by simp [hLines])
  refine ⟨lastLine front ++ '\x7b' :: (lines back).headD [], ?_, ?_⟩
  · rw [hLines, ← hEarlier, List.getElem?_append_right (Nat.le_refl _), Nat.sub_self]
    rfl
  rw [@enclosingElement_of_lines _ _ _ _ left hLines, hStrip]
  · rwa [flatMap_stripComment hCode hMem]
  · rw [hStrip, List.reverse_append, List.reverse_cons, List.append_assoc, matchBack_append, hRest]
    exact matchBack_opening_zero _

-- ---------------------------------------------------------------------------
-- The first word of a line
-- ---------------------------------------------------------------------------

/-- The line begins with the name, at most opening braces at it, and then a blank or
the end. -/
def LeadsWith (name line : List Char) : Prop :=
  ∃ marks rest, trimStart line = name ++ marks ++ rest ∧ (∀ c ∈ marks, c = '\x7b') ∧
    ∀ c ∈ rest.head?, isBlank c = true

/-- The first word does not reach into blanks at the end. -/
theorem takeWhile_append_of_blank {front blanks : List Char}
    (h : ∀ c ∈ blanks, isBlank c = true) :
    (front ++ blanks).takeWhile (!isBlank ·) = front.takeWhile (!isBlank ·) := by
  induction front with
  | nil =>
    cases blanks with
    | nil => rfl
    | cons c rest => simp [h c List.mem_cons_self]
  | cons c rest ih => rw [List.cons_append, List.takeWhile_cons, List.takeWhile_cons, ih]

/-- Blanks at the end of a line belong to no word. -/
theorem elementOnLine_trim (line : List Char) : elementOnLine (trim line) = elementOnLine line := by
  have hWord : (trimStart (trim line)).takeWhile (!isBlank ·) =
      (trimStart line).takeWhile (!isBlank ·) := by
    unfold trim
    cases hStart : trimStart line with
    | nil => rfl
    | cons c rest =>
      have hBlank : isBlank c = false := by
        have hHead := List.head?_dropWhile_not isBlank line
        rw [show line.dropWhile isBlank = c :: rest from hStart] at hHead
        simpa using hHead
      -- the blanks at the end are behind the first word
      obtain ⟨blanks, hParts, hBlanks⟩ := exists_trimEnd_append (c :: rest)
      conv_rhs => rw [hParts, takeWhile_append_of_blank hBlanks]
      rw [trimEnd_cons_of_not_blank hBlank, trimStart_cons_of_not_blank hBlank]
  unfold elementOnLine
  rw [hWord]

/-- The first word of a line gives a name exactly when the line leads with it. -/
theorem elementOnLine_eq_some_iff {name : List Char} (hUpper : name.head?.any isUppercase = true)
    (hChars : ∀ c ∈ name, isBlank c = false ∧ c ≠ '\x7b') (line : List Char) :
    elementOnLine line = some name ↔ LeadsWith name line := by
  constructor
  · intro h
    unfold elementOnLine at h
    split at h
    · exact absurd h (by simp)
    · next c rest hWord =>
      split at h
      · -- the first word begins with a capital; what was cut off its end are the marks
        have hName : (c :: rest).rdropWhile (· == '\x7b') = name := Option.some.inj h
        refine ⟨(c :: rest).rtakeWhile (· == '\x7b'),
          (trimStart line).dropWhile (!isBlank ·), ?_, ?_, ?_⟩
        · rw [← hName, List.rdropWhile_append_rtakeWhile, ← hWord,
            List.takeWhile_append_dropWhile]
        · intro d hd
          simpa using List.mem_rtakeWhile_imp hd
        · intro d hd
          have hHead := List.head?_dropWhile_not (!isBlank ·) (trimStart line)
          rw [Option.mem_def.mp hd] at hHead
          simpa using hHead
      · exact absurd h (by simp)
  · rintro ⟨marks, rest, hLine, hMarks, hRest⟩
    have hWord : (trimStart line).takeWhile (!isBlank ·) = name ++ marks := by
      rw [hLine, List.takeWhile_append_of_pos]
      · cases rest with
        | nil => simp
        | cons d more => simp [hRest d rfl]
      · intro c hc
        rcases List.mem_append.mp hc with hName | hMark
        · simp [(hChars c hName).1]
        · rw [hMarks c hMark]
          decide
    obtain ⟨c, more, rfl⟩ : ∃ c more, name = c :: more :=
      List.exists_cons_of_ne_nil (by rintro rfl; simp at hUpper)
    -- only the marks are cut off: the name itself does not end with a brace
    have hCut : (c :: (more ++ marks)).rdropWhile (· == '\x7b') = c :: more := by
      rw [← List.cons_append, List.rdropWhile, List.reverse_append, List.dropWhile_append_of_pos]
      · refine List.rdropWhile_eq_self_iff.mpr fun hNil => ?_
        simpa using (hChars _ (List.getLast_mem hNil)).2
      · intro d hd
        simp [hMarks d (List.mem_reverse.mp hd)]
    have hCapital : isUppercase c = true := by simpa using hUpper
    unfold elementOnLine
    rw [hWord, List.cons_append]
    simp only [hCapital, if_true]
    exact congrArg some hCut

end Editor

end BindingMarkup
