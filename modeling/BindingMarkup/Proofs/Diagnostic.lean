import BindingMarkup.Editor.Diagnostic
import BindingMarkup.Proofs.Draft
import BindingMarkup.Proofs.Position
import Mathlib

/-!
# BindingMarkup — diagnostics point at their token

A problem does not know its column. The editor finds it again as the last
place in the line at which the context of the problem stands. Three facts
make this exact:

* `build_eq_error` — the line and the context of a problem are those of one
  of the tokens, and this token stands at an offset of the source.
* `getElem?_lines` — the line with the number of the token is what stands
  before the offset and, up to blanks at the end, the rest of the line
  behind it. Reading lines drops a carriage return and contexts drop all
  blanks, which comes to the same here.
* `beforeLast?_append_blank` — a text without blanks at its end occurs for
  the last time where only blanks follow: a later occurrence would have to
  end in one of them.

`diagnostics_at_token` puts them together.
-/

namespace BindingMarkup.Text

-- ---------------------------------------------------------------------------
-- The last occurrence
-- ---------------------------------------------------------------------------

/-- A text that does not occur is not found. -/
theorem beforeLast?_eq_none {pattern cs : List Char} (h : ¬pattern <:+: cs) :
    beforeLast? pattern cs = none := by
  cases hFront : beforeLast? pattern cs with
  | none => rfl
  | some front =>
    obtain ⟨back, hBack⟩ := beforeLast?_eq_some hFront
    exact absurd ⟨front, back, hBack⟩ h

/-- A trimmed text that occurs in another is no longer than the other when this is
trimmed. -/
theorem length_le_of_infix {pattern cs : List Char} (hNil : pattern ≠ [])
    (hTrim : trimEnd pattern = pattern) (h : pattern <:+: cs) :
    pattern.length ≤ (trimEnd cs).length := by
  obtain ⟨front, back, rfl⟩ := h
  have hFront : trimEnd (front ++ pattern) = front ++ pattern := by
    rw [trimEnd_append_of_ne_nil (by rwa [hTrim]), hTrim]
  have hPrefix := prefix_trimEnd hFront (List.prefix_append (front ++ pattern) back)
  have hLength := hPrefix.length_le
  rw [List.length_append] at hLength
  omega

/-- **The last occurrence.** A text without blanks at its end occurs for the last
time where only blanks follow. -/
theorem beforeLast?_append_blank {front pattern blanks : List Char} (hNil : pattern ≠ [])
    (hTrim : trimEnd pattern = pattern) (hBlanks : ∀ c ∈ blanks, isBlank c = true) :
    beforeLast? pattern (front ++ (pattern ++ blanks)) = some front := by
  induction front with
  | nil =>
    obtain ⟨c, rest, rfl⟩ := List.exists_cons_of_ne_nil hNil
    -- behind its first character there is no room for the text
    have hNone : ¬c :: rest <:+: rest ++ blanks := by
      intro hInfix
      have hLength := length_le_of_infix hNil hTrim hInfix
      rw [trimEnd_append_of_blank hBlanks] at hLength
      have hShort := (trimEnd_isPrefix rest).length_le
      rw [List.length_cons] at hLength
      omega
    rw [List.nil_append, List.cons_append, beforeLast?, beforeLast?_eq_none hNone]
    simp only
    rw [if_pos]
    rw [List.isPrefixOf_iff_prefix, ← List.cons_append]
    exact List.prefix_append _ _
  | cons d front ih => rw [List.cons_append, beforeLast?, ih]

-- ---------------------------------------------------------------------------
-- The line of an offset
-- ---------------------------------------------------------------------------

/-- What stands between the last line feed and the end of a text. -/
def lastLine (cs : List Char) : List Char :=
  cs.rtakeWhile (· != '\n')

theorem lastLine_of_not_mem {cs : List Char} (h : '\n' ∉ cs) : lastLine cs = cs := by
  refine List.rtakeWhile_eq_self_iff.mpr fun c hc => ?_
  exact bne_iff_ne.mpr fun hEq => h (hEq ▸ hc)

/-- A character belongs to the last line when no line feed follows it. -/
theorem lastLine_cons_of_mem {d : Char} {cs : List Char} (h : '\n' ∈ cs) :
    lastLine (d :: cs) = lastLine cs := by
  have hShort : ¬(cs.reverse.takeWhile (· != '\n')).length = cs.reverse.length := by
    intro hLength
    have hWhole := (List.takeWhile_prefix (· != '\n')).eq_of_length hLength
    have hMem : '\n' ∈ cs.reverse.takeWhile (· != '\n') := by
      rw [hWhole]
      exact List.mem_reverse.mpr h
    exact absurd (List.mem_takeWhile_imp hMem) (by simp)
  unfold lastLine List.rtakeWhile
  rw [List.reverse_cons, List.takeWhile_append, if_neg hShort]

/-- A line break at the beginning of a text is not on its last line. -/
theorem lastLine_break_cons (cs : List Char) : lastLine ('\n' :: cs) = lastLine cs := by
  by_cases hMem : '\n' ∈ cs
  · exact lastLine_cons_of_mem hMem
  · have hAll : ∀ c ∈ cs.reverse, (c != '\n') = true := fun c hc =>
      bne_iff_ne.mpr fun hEq => hMem (hEq ▸ List.mem_reverse.mp hc)
    unfold lastLine List.rtakeWhile
    rw [List.reverse_cons, List.takeWhile_append_of_pos hAll,
      ← List.append_nil cs.reverse, List.takeWhile_append_of_pos hAll]
    simp

/-- A character that is no line break belongs to the first line. -/
theorem lines_cons {c : Char} {cs : List Char} (hBreak : c ≠ '\n')
    (hReturn : c = '\r' → cs.head? ≠ some '\n') :
    lines (c :: cs) = (c :: (lines cs).headD []) :: (lines cs).tail := by
  rw [lines.eq_4 c cs hBreak]
  · cases lines cs <;> rfl
  · intro rest hc hRest
    exact hReturn hc (by rw [hRest]; rfl)

/-- Induction along the lines of a text: at a line feed, at a carriage return with
its line feed, and at any other character. -/
@[elab_as_elim]
theorem lines_induction {motive : List Char → Prop} (cs : List Char) (nil : motive [])
    (feed : ∀ rest, motive rest → motive ('\n' :: rest))
    (returnFeed : ∀ rest, motive rest → motive ('\r' :: '\n' :: rest))
    (other : ∀ c rest, c ≠ '\n' → (c = '\r' → rest.head? ≠ some '\n') → motive rest →
      motive (c :: rest)) : motive cs := by
  have hHead {c : Char} {rest : List Char}
      (hReturn : ∀ after, c = '\r' → rest = '\n' :: after → False) :
      c = '\r' → rest.head? ≠ some '\n' := by
    intro hc hFeed
    obtain ⟨after, hAfter⟩ := List.head?_eq_some_iff.mp hFeed
    exact hReturn after hc hAfter
  induction cs using lines.induct with
  | case1 => exact nil
  | case2 rest ih => exact feed rest ih
  | case3 rest ih => exact returnFeed rest ih
  | case4 c rest hBreak hReturn _ ih => exact other c rest hBreak (hHead hReturn) ih
  | case5 c rest hBreak hReturn _ _ _ ih => exact other c rest hBreak (hHead hReturn) ih

/-- The first line and the text up to the first line feed differ in blanks. -/
theorem exists_blank_firstLine (cs : List Char) :
    ∃ blanks, cs.takeWhile (· != '\n') = (lines cs).headD [] ++ blanks ∧
      ∀ c ∈ blanks, isBlank c = true := by
  induction cs using lines_induction with
  | nil => exact ⟨[], by simp⟩
  | feed rest => exact ⟨[], by simp [lines]⟩
  | returnFeed rest => exact ⟨['\r'], by simp [lines], by simp; decide⟩
  | other c rest hBreak hReturn ih =>
    obtain ⟨blanks, hLine, hBlanks⟩ := ih
    refine ⟨blanks, ?_, hBlanks⟩
    rw [List.takeWhile_cons_of_pos (by simpa using hBreak), hLine, lines_cons hBreak hReturn]
    rfl

/-- **The line of an offset.** The line with as many line feeds before it consists
of what stands before the offset on it and of the first line from there on. -/
theorem getElem?_lines (before : List Char) {c : Char} (hc : isBlank c = false)
    (after : List Char) :
    (lines (before ++ c :: after))[before.count '\n']? =
      some (lastLine before ++ (lines (c :: after)).headD []) := by
  have hFeed : c ≠ '\n' := by
    rintro rfl
    exact absurd hc (by decide)
  have hNoReturn : c ≠ '\r' := by
    rintro rfl
    exact absurd hc (by decide)
  induction before using lines_induction with
  | nil =>
    rw [List.nil_append, lines_cons hFeed fun h => absurd h hNoReturn]
    rfl
  | feed rest ih => rw [List.count_cons_self, lastLine_break_cons, ← ih]; rfl
  | returnFeed rest ih =>
    rw [List.count_cons_of_ne (by decide), List.count_cons_self,
      lastLine_cons_of_mem List.mem_cons_self, lastLine_break_cons, ← ih]
    rfl
  | other d rest hBreak hReturn ih =>
    have hHead : d = '\r' → (rest ++ c :: after).head? ≠ some '\n' := by
      intro hd
      cases rest with
      | nil => simpa using hFeed
      | cons e rest => exact hReturn hd
    rw [List.cons_append, lines_cons hBreak hHead, List.count_cons_of_ne hBreak]
    by_cases hMem : '\n' ∈ rest
    · -- the offset is on a later line
      obtain ⟨k, hk⟩ := Nat.exists_eq_succ_of_ne_zero (List.count_pos_iff.mpr hMem).ne'
      rw [hk] at ih ⊢
      rw [lastLine_cons_of_mem hMem, ← ih, List.getElem?_cons_succ, List.getElem?_tail]
    · have hZero : rest.count '\n' = 0 := List.count_eq_zero_of_not_mem hMem
      rw [hZero, lastLine_of_not_mem hMem] at ih
      have hAll : '\n' ∉ d :: rest := by simp [hMem, hBreak.symm]
      rw [hZero, lastLine_of_not_mem hAll, List.getElem?_cons_zero]
      rw [List.headD_eq_head?_getD, List.head?_eq_getElem?, ih]
      rfl

end BindingMarkup.Text

namespace BindingMarkup.Editor

open Text Token

-- ---------------------------------------------------------------------------
-- The marked part of a line
-- ---------------------------------------------------------------------------

/-- The line of a token, found by its number: it has the context of the token
behind what stands before it, and at most blanks after that. -/
theorem line_of_standsAt {source : List Char} {previous : Option Token} {t : Token} {p : Nat}
    (h : StandsAt source previous t p) :
    ∃ line blanks, (lines source)[t.line - 1]? = some line ∧
      line = lastLine (source.take p) ++ (t.context.toList ++ blanks) ∧
      t.context.toList ≠ [] ∧ ∀ c ∈ blanks, isBlank c = true := by
  obtain ⟨c, rest, hDrop, hBlank⟩ := h.exists_drop_eq_cons
  have hSource : source = source.take p ++ c :: rest := by
    rw [← hDrop, List.take_append_drop]
  have hLine := getElem?_lines (source.take p) hBlank rest
  rw [← hSource] at hLine
  obtain ⟨margin, hFirst, hMargin⟩ := exists_blank_firstLine (c :: rest)
  -- what the lines drop at their end, the context drops as well
  have hContext : t.context.toList = trimEnd ((lines (c :: rest)).headD []) := by
    rw [h.context_eq, hDrop, hFirst, trimEnd_append_of_blank hMargin]
  obtain ⟨blanks, hBack, hBlanks⟩ := exists_trimEnd_append ((lines (c :: rest)).headD [])
  refine ⟨lastLine (source.take p) ++ (lines (c :: rest)).headD [], blanks, ?_, ?_, ?_, hBlanks⟩
  · rw [h.line_eq, Nat.add_sub_cancel_left]
    exact hLine
  · rw [hContext, ← hBack]
  · have hFeed : c ≠ '\n' := by
      rintro rfl
      exact absurd hBlank (by decide)
    rw [h.context_eq, hDrop, List.takeWhile_cons_of_pos (by simpa using hFeed),
      trimEnd_cons_of_not_blank hBlank]
    simp

/-- The marked columns run from what stands before the context to the end of the
trimmed line. -/
theorem markedColumns_eq {front context blanks : List Char} (hNil : context ≠ [])
    (hTrim : trimEnd context = context) (hBlanks : ∀ c ∈ blanks, isBlank c = true) :
    markedColumns (front ++ (context ++ blanks)) context =
      (byteLength front, byteLength (trimEnd (front ++ (context ++ blanks)))) := by
  have hEnd : trimEnd (front ++ (context ++ blanks)) = front ++ context := by
    rw [trimEnd_append_of_ne_nil] <;> rw [trimEnd_append_of_blank hBlanks, hTrim]
    exact hNil
  unfold markedColumns
  rw [beforeLast?_append_blank hNil hTrim hBlanks, hEnd, byteLength_append front context]
  exact if_neg (by simpa using hNil)

theorem byteLength_trimEnd_le (line : List Char) : byteLength (trimEnd line) ≤ byteLength line := by
  obtain ⟨blanks, hLine, -⟩ := exists_trimEnd_append line
  have hLength := congrArg byteLength hLine
  rw [byteLength_append] at hLength
  omega

/-- **A diagnostic points at its token.** A text without an outline has one
diagnostic. It carries the line and the context of a token, starts where this
token starts and ends with the line; the search for the context finds the
token itself. -/
theorem diagnostics_at_token (text : String) (problem : Problem)
    (hError : Outline.parse text = .error problem)
    (hLines : (lines text.toList).length < UInt32.size)
    (hBytes : ∀ line ∈ lines text.toList, byteLength line < UInt32.size) :
    ∃ (offsets : List Nat) (i : Nat) (t : Token) (p : Nat) (line : List Char),
      Placed text.toList none 0 (tokenize text) offsets ∧
      (tokenize text)[i]? = some t ∧ offsets[i]? = some p ∧
      problem.line = t.line ∧ problem.context = t.context ∧ problem.context ≠ "" ∧
      (lines text.toList)[t.line - 1]? = some line ∧
      beforeLast? problem.context.toList line = some (lastLine (text.toList.take p)) ∧
      diagnostics text =
        [{ start := ⟨t.line - 1, byteLength (lastLine (text.toList.take p))⟩
           stop := ⟨t.line - 1, byteLength (trimEnd line)⟩
           code := problem.code
           message := problem.message }] := by
  obtain ⟨t, hMem, cause, hProblem⟩ := Outline.build_eq_error hError
  obtain ⟨⟨offsets, hPlaced⟩, -⟩ := placed_source text
  obtain ⟨i, hi⟩ := List.mem_iff_getElem?.mp hMem
  -- the problem names a token, and every token has its offset
  obtain ⟨p, hp⟩ : ∃ p, offsets[i]? = some p := by
    have hLength := (List.getElem?_eq_some_iff.mp hi).1
    rw [← hPlaced.length_eq] at hLength
    exact ⟨_, List.getElem?_eq_getElem hLength⟩
  have hAt := hPlaced.standsAt hi hp
  obtain ⟨line, blanks, hLine, hParts, hContext, hBlanks⟩ := line_of_standsAt hAt
  have hTrim : trimEnd t.context.toList = t.context.toList := by
    rw [hAt.context_eq, trimEnd_trimEnd]
  have hPlace : problem.line = t.line ∧ problem.context = t.context := by
    rw [hProblem]
    exact ⟨rfl, rfl⟩
  refine ⟨offsets, i, t, p, line, hPlaced, hi, hp, hPlace.1, hPlace.2, ?_, hLine, ?_, ?_⟩
  · rw [hPlace.2]
    rintro hEmpty
    exact hContext (String.toList_eq_nil_iff.mpr hEmpty)
  · rw [hPlace.2, hParts]
    exact beforeLast?_append_blank hContext hTrim hBlanks
  · -- the 32 bits of a published place hold the row and both columns
    have hRow : t.line - 1 < UInt32.size :=
      Nat.lt_trans (List.getElem?_eq_some_iff.mp hLine).1 hLines
    have hLineBytes := hBytes line (List.mem_of_getElem? hLine)
    have hStop : byteLength (trimEnd line) < UInt32.size :=
      Nat.lt_of_le_of_lt (byteLength_trimEnd_le line) hLineBytes
    have hStart : byteLength (lastLine (text.toList.take p)) < UInt32.size := by
      rw [hParts, byteLength_append] at hLineBytes
      omega
    have hColumns : markedColumns line t.context.toList =
        (byteLength (lastLine (text.toList.take p)), byteLength (trimEnd line)) := by
      rw [hParts]
      exact markedColumns_eq hContext hTrim hBlanks
    unfold diagnostics
    rw [hError]
    simp only [Diagnostic.ofProblem, hPlace.1, hPlace.2, hLine, Option.getD_some, hColumns,
      Position.published, Nat.mod_eq_of_lt hRow, Nat.mod_eq_of_lt hStop, Nat.mod_eq_of_lt hStart]

/-- Two braces on one line behind a character of two bytes: the mark starts at the
first of them. -/
theorem diagnostics_at_first_brace :
    ∃ (offsets : List Nat) (i : Nat) (t : Token) (p : Nat) (line : List Char),
      Placed "\n  é \x7d \x7d\r\n".toList none 0 (tokenize "\n  é \x7d \x7d\r\n") offsets ∧
      (tokenize "\n  é \x7d \x7d\r\n")[i]? = some t ∧ offsets[i]? = some p ∧
      2 = t.line ∧ "\x7d \x7d" = t.context ∧ "\x7d \x7d" ≠ "" ∧
      (lines "\n  é \x7d \x7d\r\n".toList)[t.line - 1]? = some line ∧
      beforeLast? "\x7d \x7d".toList line = some (lastLine ("\n  é \x7d \x7d\r\n".toList.take p)) ∧
      diagnostics "\n  é \x7d \x7d\r\n" =
        [{ start := ⟨t.line - 1, byteLength (lastLine ("\n  é \x7d \x7d\r\n".toList.take p))⟩
           stop := ⟨t.line - 1, byteLength (trimEnd line)⟩
           code := .generic
           message := "unmatched '\x7d'" }] :=
  diagnostics_at_token "\n  é \x7d \x7d\r\n"
    { cause := .unmatchedClose, line := 2, context := "\x7d \x7d" } (by cbv) (by decide) (by decide)

end BindingMarkup.Editor
