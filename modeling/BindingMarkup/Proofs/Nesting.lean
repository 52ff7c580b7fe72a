import BindingMarkup.Editor.Context
import BindingMarkup.Proofs.Clauses

/-!
# BindingMarkup — what brackets protect

Inside brackets a semicolon and a closing brace belong to the value they
stand in. A `Sheltered` value is one line of script without strings whose
brackets are nested and whose semicolons and double slashes all stand
inside brackets. By the rule of nesting such a value is one token, whatever
its brackets hold.

The reader keeps the rule for semicolons and braces and not for comments:
two slashes end a value at every depth.

* `expressionSpan_passes` — the reader passes over a text as long as no
  semicolon and no closing brace stands outside brackets and no comment
  begins.
* `tokensFrom_sheltered` — so the token of a sheltered value is the part
  before its first double slash. It is the whole value exactly when the
  value has no double slash; otherwise the rest of the line, the end of
  the value included, is skipped as a comment.

`f(a // b)` is cut off in this way (`tokenize_slashes`).
-/

namespace BindingMarkup

open Text

-- ---------------------------------------------------------------------------
-- Brackets around a place
-- ---------------------------------------------------------------------------

/-- The number of brackets that are open behind a text without strings. -/
def openBrackets (cs : List Char) : Nat :=
  cs.foldl bracketDepth 0

/-- Every occurrence of the mark stands inside brackets. -/
def OnlyInside (mark cs : List Char) : Prop :=
  ∀ i < cs.length, mark <+: cs.drop i → 0 < openBrackets (cs.take i)

instance (mark cs : List Char) : Decidable (OnlyInside mark cs) :=
  inferInstanceAs (Decidable (∀ i < cs.length, mark <+: cs.drop i → 0 < openBrackets (cs.take i)))

/-- Where a mark stands only inside brackets, one is open before it. -/
theorem OnlyInside.pos {mark cs front back : List Char} (h : OnlyInside mark cs)
    (hNil : mark ≠ []) (hSplit : cs = front ++ mark ++ back) : 0 < openBrackets front := by
  have hLength : front.length < cs.length := by
    have := List.length_pos_of_ne_nil hNil
    rw [hSplit, List.length_append, List.length_append]
    omega
  have hOpen := h front.length hLength (by simp [hSplit])
  simpa [hSplit] using hOpen

/-- Along a nested text the brackets that are due are as many as are open. -/
theorem exists_due {waiting front back : List Char}
    (h : nestedFrom waiting (front ++ back) = true) :
    ∃ due, nestedFrom due back = true ∧ due.length = front.foldl bracketDepth waiting.length := by
  induction front generalizing waiting with
  | nil => exact ⟨waiting, h, rfl⟩
  | cons c front ih =>
    rw [List.foldl_cons, Token.bracketDepth_eq]
    obtain ⟨d, hCloser, hRest⟩ | ⟨more, hClosing, rfl, hRest⟩ | ⟨hOpening, hClosing, hRest⟩ :=
      nestedFrom_cons h
    · have hOpening : isOpening c = true := by
        rw [isOpening_eq_isSome_closer?, hCloser]
        rfl
      simpa [hOpening] using ih hRest
    · simpa [hClosing, Token.isClosing_cases hClosing] using ih hRest
    · simpa [hOpening, hClosing] using ih hRest

/-- What closes a bracket in a nested text stands inside brackets. -/
theorem openBrackets_pos_of_closing {cs front back : List Char} {c : Char}
    (h : isNested cs = true) (hClosing : isClosing c = true) (hSplit : cs = front ++ c :: back) :
    0 < openBrackets front := by
  subst hSplit
  obtain ⟨due, hDue, hLength⟩ := @exists_due [] front (c :: back) h
  have hOpening : isOpening c = false := (Token.isClosing_cases hClosing).2
  rw [openBrackets, ← @List.length_nil Char, ← hLength]
  obtain ⟨d, hCloser, -⟩ | ⟨more, -, rfl, -⟩ | ⟨-, hNot, -⟩ := nestedFrom_cons hDue
  · rw [isOpening_eq_isSome_closer?, hCloser] at hOpening
    exact absurd hOpening (by simp)
  · simp
  · rw [hClosing] at hNot
    exact absurd hNot (by simp)

/-- Nested brackets are all closed in the end. -/
theorem openBrackets_of_isNested {cs : List Char} (h : isNested cs = true) :
    openBrackets cs = 0 := by
  obtain ⟨due, hDue, hLength⟩ := @exists_due [] cs [] (by rw [List.append_nil]; exact h)
  obtain rfl : due = [] := by simpa [nestedFrom] using hDue
  simpa [openBrackets] using hLength.symm

-- ---------------------------------------------------------------------------
-- Sheltered values
-- ---------------------------------------------------------------------------

/-- A value of one line without strings, with nested brackets, in which semicolons and
double slashes stand inside brackets only. It has no blanks at its ends and does not
start like a block, a mark, a comment or the name of a type. -/
structure Sheltered (value : List Char) : Prop where
  ne_nil : value ≠ []
  no_break : '\n' ∉ value
  no_quote : value.any isQuote = false
  nested : isNested value = true
  semicolons : OnlyInside [';'] value
  comments : OnlyInside ['/', '/'] value
  first_not_blank : value.head?.any isBlank = false
  first_not_upper : value.head?.any Char.isUpper = false
  first_not_mark : ∀ c ∈ ['\x7b', ':', '@', '/'], value.head? ≠ some c
  last_not_blank : value.getLast?.any isBlank = false

/-- What may stand behind a value and the blanks behind it: the end of the text or of the
line, the end of the node, a comment, or a semicolon that ends the value. -/
inductive EndsEntry : List Char → Prop where
  | nil : EndsEntry []
  | newline (rest : List Char) : EndsEntry ('\n' :: rest)
  | closing (rest : List Char) : EndsEntry ('\x7d' :: rest)
  | comment (rest : List Char) : EndsEntry ('/' :: '/' :: rest)
  | semicolon {rest : List Char} (hRest : Token.statementContinues rest = false) :
      EndsEntry (';' :: rest)

namespace Sheltered

variable {value : List Char}

/-- A semicolon or a brace that closes something stands inside brackets. -/
theorem openBrackets_pos (h : Sheltered value) {front back : List Char} {c : Char}
    (hSplit : value = front ++ c :: back) (hc : c = ';' ∨ c = '\x7d') :
    0 < openBrackets front := by
  rcases hc with rfl | rfl
  · exact h.semicolons.pos (by simp) (by simpa using hSplit)
  · exact openBrackets_pos_of_closing h.nested (by decide) hSplit

/-- A sheltered value does not end with a semicolon: no bracket is open at its end. -/
theorem last_ne_semicolon (h : Sheltered value) : value.getLast? ≠ some ';' := by
  intro hLast
  obtain ⟨front, rfl⟩ := List.getLast?_eq_some_iff.mp hLast
  have hOpen := h.openBrackets_pos rfl (.inl rfl)
  have hNone := openBrackets_of_isNested h.nested
  rw [openBrackets, List.foldl_append] at hNone
  have hSame : bracketDepth (openBrackets front) ';' = openBrackets front := by simp [bracketDepth]
  rw [List.foldl_cons, List.foldl_nil, ← openBrackets, hSame] at hNone
  omega

end Sheltered

namespace Token

-- ---------------------------------------------------------------------------
-- The extent of a sheltered value
-- ---------------------------------------------------------------------------

/-- **What the reader passes over.** Outside of strings a value goes on up to a line
break, a semicolon or a closing brace outside brackets, or a comment. -/
theorem expressionSpan_passes {depth : Nat} {front rest more after : List Char}
    (hQuote : ∀ c ∈ front, isQuote c = false) (hBreak : '\n' ∉ front)
    (hTop : ∀ a c b, front = a ++ c :: b → c = ';' ∨ c = '\x7d' → 0 < a.foldl bracketDepth depth)
    (hComment : ∀ a b, front ++ rest = a ++ '/' :: '/' :: b → front.length ≤ a.length)
    (hRest : expressionSpan true .outside (front.foldl bracketDepth depth) rest = (more, after)) :
    expressionSpan true .outside depth (front ++ rest) = (front ++ more, after) := by
  induction front generalizing depth with
  | nil => exact hRest
  | cons c front ih =>
    have hHere : isQuote c = false := hQuote c List.mem_cons_self
    have hEnds : endsExpression true .outside depth c (front ++ rest) = false := by
      refine endsExpression_eq_false_of_outside ?_ ?_ ?_
      · rintro rfl
        exact hBreak List.mem_cons_self
      · rintro ⟨rfl, hSlash⟩
        obtain ⟨b, hb⟩ := List.head?_eq_some_iff.mp hSlash
        have hLength := hComment [] b (by rw [List.cons_append, hb]; rfl)
        exact absurd hLength (by simp)
      · intro hDepth
        -- at the top neither a semicolon nor a brace stands here
        have hFirst (hc : c = ';' ∨ c = '\x7d') : False := by
          have hOpen : 0 < depth := hTop [] c front rfl hc
          omega
        exact ⟨fun hc => hFirst (.inr hc), fun hc => hFirst (.inl hc), fun _ => rfl⟩
    rw [List.cons_append, List.cons_append]
    refine expressionSpan_cons hEnds ?_
    simp only [Quote.next, hHere, Quote.depth, Bool.false_eq_true, if_false]
    refine ih (fun d hd => hQuote d (List.mem_cons_of_mem c hd))
      (fun hMem => hBreak (List.mem_cons_of_mem c hMem)) ?_ ?_ hRest
    · intro a d b hSplit hd
      exact hTop (c :: a) d b (by rw [hSplit]; rfl) hd
    · intro a b hSplit
      have hLength := hComment (c :: a) b (by rw [List.cons_append, hSplit]; rfl)
      simpa using hLength

theorem isInert_of_isBlank {c : Char} (h : isBlank c = true) (hBreak : c ≠ '\n') :
    isInert c = true :=
  isInert_eq_true_iff.mpr ⟨isQuote_of_isBlank h, isOpening_of_isBlank h, isClosing_of_isBlank h,
    hBreak, ne_of_class h (by decide)⟩

/-- An expression is over where its entry ends. -/
theorem expressionSpan_end {tail : List Char} (hEnd : EndsEntry tail) :
    expressionSpan true .outside 0 tail = ([], tail) := by
  cases hEnd with
  | nil => rfl
  | newline rest => simp [expressionSpan, endsExpression]
  | closing rest => simp [expressionSpan, endsExpression]
  | comment rest => simp [expressionSpan, endsExpression, startsComment]
  | semicolon hRest => simp [expressionSpan, endsExpression, hRest]

/-- Blanks before the end still belong to the span. -/
theorem expressionSpan_trail (trail : Indentation) {tail : List Char} (hEnd : EndsEntry tail) :
    expressionSpan true .outside 0 (trail.blanks ++ tail) = (trail.blanks, tail) := by
  have hBreak (c : Char) (hc : c ∈ trail.blanks) : c ≠ '\n' := by
    rintro rfl
    exact trail.no_break hc
  have hSpan := expressionSpan_inert
    (fun c hc => isInert_of_isBlank (trail.blank c hc) (hBreak c hc))
    (fun _ c hc => ⟨ne_of_class (trail.blank c hc) (by decide), fun _ => rfl⟩)
    (expressionSpan_end hEnd)
  simpa using hSpan

/-- The value and what follows it form no comment mark together. -/
def Apart (value rest : List Char) : Prop :=
  value.getLast? = some '/' → rest.head? ≠ some '/'

instance (value rest : List Char) : Decidable (Apart value rest) :=
  inferInstanceAs (Decidable (value.getLast? = some '/' → rest.head? ≠ some '/'))

/-- Two slashes in a text of two parts stand in the first part, begin in the second, or
lie across. -/
theorem length_le_of_slashes {value rest a b : List Char} (hNone : ¬['/', '/'] <:+: value)
    (hApart : Apart value rest) (hSplit : value ++ rest = a ++ '/' :: '/' :: b) :
    value.length ≤ a.length := by
  rcases List.append_eq_append_iff.mp hSplit with ⟨front, rfl, -⟩ | ⟨back, rfl, hBack⟩
  · simp
  · -- the first slash stands in the value, so the second is in it or opens the rest
    cases back with
    | nil => simp
    | cons c back =>
      rw [List.cons_append, List.cons.injEq] at hBack
      obtain ⟨rfl, hSecond⟩ := hBack
      cases back with
      | nil =>
        rw [List.nil_append] at hSecond
        exact absurd (by rw [← hSecond]; rfl) (hApart (by simp))
      | cons d back =>
        rw [List.cons_append, List.cons.injEq] at hSecond
        obtain ⟨rfl, -⟩ := hSecond
        exact absurd ⟨a, back, by simp⟩ hNone

/-- A sheltered value without double slashes is taken as a whole. -/
theorem expressionSpan_sheltered {value tail : List Char} (h : Sheltered value)
    (hNone : ¬['/', '/'] <:+: value) (trail : Indentation) (hEnd : EndsEntry tail)
    (hApart : Apart value (trail.blanks ++ tail)) :
    expressionSpan true .outside 0 (value ++ (trail.blanks ++ tail)) =
      (value ++ trail.blanks, tail) := by
  refine expressionSpan_passes ?_ h.no_break (fun a c b hSplit => h.openBrackets_pos hSplit)
    (fun a b => length_le_of_slashes hNone hApart) ?_
  · exact fun c hc => Bool.eq_false_iff.mpr (List.any_eq_false.mp h.no_quote c hc)
  · rw [← openBrackets, openBrackets_of_isNested h.nested]
    exact expressionSpan_trail trail hEnd

/-- A sheltered value with double slashes is taken up to the first of them. -/
theorem expressionSpan_slashes {value : List Char} (h : Sheltered value)
    (hSlashes : ['/', '/'] <:+: value) (rest : List Char) :
    ∃ comment, value = Editor.stripComment value ++ '/' :: '/' :: comment ∧
      expressionSpan true .outside 0 (value ++ rest) =
        (Editor.stripComment value, '/' :: '/' :: (comment ++ rest)) := by
  obtain ⟨comment, hValue⟩ := Editor.exists_comment hSlashes
  have hCut := Editor.stripComment_append hSlashes rest
  refine ⟨comment, hValue, ?_⟩
  generalize Editor.stripComment value = code at hValue hCut ⊢
  subst hValue
  rw [List.append_assoc, List.cons_append, List.cons_append] at hCut ⊢
  have hCode {c : Char} (hc : c ∈ code) : c ∈ code ++ '/' :: '/' :: comment :=
    List.mem_append_left _ hc
  -- two slashes end the span at any depth
  have hStop : expressionSpan true .outside (code.foldl bracketDepth 0)
      ('/' :: '/' :: (comment ++ rest)) = ([], '/' :: '/' :: (comment ++ rest)) := by
    simp [expressionSpan, endsExpression, startsComment]
  have hSpan : expressionSpan true .outside 0 (code ++ '/' :: '/' :: (comment ++ rest)) =
      (code ++ [], '/' :: '/' :: (comment ++ rest)) := by
    refine expressionSpan_passes ?_ (fun hc => h.no_break (hCode hc)) ?_ ?_ hStop
    · exact fun c hc => Bool.eq_false_iff.mpr (List.any_eq_false.mp h.no_quote c (hCode hc))
    · intro a c b hSplit
      exact h.openBrackets_pos (by rw [hSplit, List.append_assoc]; rfl)
    · intro a b hSplit
      have hLength := Editor.length_stripComment_le a b
      rwa [← hSplit, hCut] at hLength
  rwa [List.append_nil] at hSpan

-- ---------------------------------------------------------------------------
-- The token of a sheltered value
-- ---------------------------------------------------------------------------

/-- The reader on line `n` behind a colon. -/
def behindColon (n : Nat) : State where
  line := n
  colonOnLine := true
  valueNext := true

/-- A sheltered value starts an expression. -/
theorem startsText_of_sheltered {c : Char} {more : List Char} (h : Sheltered (c :: more))
    (rest : List Char) : StartsText c rest := by
  have hMark : c ≠ '\x7b' ∧ c ≠ ':' ∧ c ≠ '@' ∧ c ≠ '/' := by
    simpa using h.first_not_mark
  have hTop {d : Char} (hd : d = ';' ∨ d = '\x7d') : c ≠ d := by
    rintro rfl
    have hOpen := h.openBrackets_pos (List.nil_append (c :: more)).symm hd
    exact absurd hOpen (by simp [openBrackets])
  refine ⟨fun hc => h.no_break (hc ▸ List.mem_cons_self), fun hc => absurd hc hMark.2.2.2, ?_,
    h.first_not_blank⟩
  simp [Kind.ofMark?, hMark, hTop (.inl rfl), hTop (.inr rfl)]

/-- Behind a colon a text that does not start with a capital becomes an expression. -/
theorem tokensFrom_behindColon {c : Char} {rest taken after : List Char}
    (hStart : StartsText c rest) (hUpper : c.isUpper = false)
    (hSpan : expressionSpan true .outside 0 (c :: rest) = (taken, after))
    (hText : expressionText taken ≠ []) (n : Nat) :
    ∃ context, tokensFrom (behindColon n) (c :: rest) =
      { kind := .expression (String.ofList (expressionText taken)), line := n, context } ::
        tokensFrom (afterValue n after).1 (afterValue n after).2 := by
  have hExpression := @stepExpression_eq (behindColon n) (c :: rest)
  simp only [behindColon, hSpan] at hExpression
  have hStep := step_of_startsText hStart (behindColon n)
  simp only [behindColon, hUpper, Bool.false_and, Bool.false_eq_true, if_false, Bool.true_or,
    if_true, hExpression hText] at hStep
  have hState : State.terminate ⟨n, true, false⟩ after =
      ({ (State.terminate ⟨n, true, true⟩ after).1 with valueNext := false },
        (State.terminate ⟨n, true, true⟩ after).2) := by
    unfold State.terminate
    split <;> rfl
  rw [behindColon, tokensFrom_of_token hStep, afterValue, hState]
  exact ⟨_, rfl⟩

/-- Two slashes hide the rest of their line. -/
theorem tokensFrom_slashes (state : State) {comment : List Char} (hBreak : '\n' ∉ comment)
    (tail : List Char) :
    tokensFrom state ('/' :: '/' :: (comment ++ tail)) = tokensFrom state (afterFirstLine tail) := by
  have hSkip : afterFirstLine ('/' :: (comment ++ tail)) = afterFirstLine tail := by
    have hFront : ∀ c ∈ '/' :: comment, (c != '\n') = true := by
      intro c hc
      rcases List.mem_cons.mp hc with rfl | hMem
      · decide
      · exact bne_iff_ne.mpr fun hEq => hBreak (hEq ▸ hMem)
    rw [afterFirstLine, ← List.cons_append, List.dropWhile_append_of_pos hFront, afterFirstLine]
  rw [← hSkip]
  exact tokensFrom_of_silent (by simp [step])

/-- Blanks behind a value do not belong to its text. -/
theorem expressionText_append {value blanks : List Char} (hFirst : value.head?.any isBlank = false)
    (hNil : value ≠ []) (hBlanks : ∀ c ∈ blanks, isBlank c = true) :
    expressionText (value ++ blanks) = expressionText value := by
  obtain ⟨c, more, rfl⟩ := List.exists_cons_of_ne_nil hNil
  rw [expressionText, trim, List.cons_append, trimStart_cons_of_not_blank hFirst,
    ← List.cons_append, trimEnd_append_of_blank hBlanks, expressionText, trim,
    trimStart_cons_of_not_blank hFirst]

/-- A sheltered value is its own text. -/
theorem expressionText_sheltered {value : List Char} (h : Sheltered value) :
    expressionText value = value :=
  expressionText_eq_self (isBlank_of_any h.first_not_blank) (isBlank_of_any h.last_not_blank)
    h.last_ne_semicolon

/-- The text before the first double slash is there, and shorter than the value. -/
theorem expressionText_stripComment {value : List Char} (h : Sheltered value)
    (hSlashes : ['/', '/'] <:+: value) :
    expressionText (Editor.stripComment value) ≠ [] ∧
      expressionText (Editor.stripComment value) ≠ value := by
  obtain ⟨comment, hValue, -⟩ := expressionSpan_slashes h hSlashes []
  cases hCode : Editor.stripComment value with
  | nil =>
    rw [hCode, List.nil_append] at hValue
    exact absurd (by rw [hValue]; rfl) (h.first_not_mark '/' (by simp))
  | cons c more =>
    rw [hCode, List.cons_append] at hValue
    have hStart := startsText_of_sheltered (hValue ▸ h) []
    have hSemicolon : c ≠ ';' := by
      rintro rfl
      exact absurd hStart.no_mark (by decide)
    refine ⟨by rw [expressionText_cons hStart.not_blank hSemicolon]; simp, fun hEq => ?_⟩
    -- the text is at most as long as the code, which is shorter than the value
    have hLength := (expressionText_isPrefix hStart.not_blank more).length_le
    rw [hEq, hValue] at hLength
    simp only [List.length_cons, List.length_append] at hLength
    omega

/-- **What becomes of a sheltered value.** Behind a colon, a value in whose brackets there
may be semicolons, braces and double slashes becomes one token: the part before its first
double slash, without blanks and a semicolon at its end. This is the whole value exactly
when it has no double slash, and then the reader goes on behind the value. Otherwise it
goes on behind the line. -/
theorem tokensFrom_sheltered {value tail : List Char} (h : Sheltered value)
    (hEnd : EndsEntry tail) (gap trail : Indentation)
    (hApart : Apart value (trail.blanks ++ tail)) (n : Nat) :
    ∃ context rest,
      tokensFrom (behindColon n) (gap.blanks ++ (value ++ (trail.blanks ++ tail))) =
        { kind := .expression (String.ofList (expressionText (Editor.stripComment value)))
          line := n
          context } :: rest ∧
      (expressionText (Editor.stripComment value) = value ↔ ¬['/', '/'] <:+: value) ∧
      (¬['/', '/'] <:+: value →
        rest = tokensFrom (afterValue n tail).1 (afterValue n tail).2) ∧
      (['/', '/'] <:+: value → rest = tokensFrom ⟨n, true, false⟩ (afterFirstLine tail)) := by
  obtain ⟨c, more, hText⟩ := List.exists_cons_of_ne_nil h.ne_nil
  have hStart := startsText_of_sheltered (hText ▸ h) (more ++ (trail.blanks ++ tail))
  have hUpper : c.isUpper = false := by simpa [hText] using h.first_not_upper
  have hWhole : value ++ (trail.blanks ++ tail) = c :: (more ++ (trail.blanks ++ tail)) := by
    rw [hText, List.cons_append]
  rw [tokensFrom_indentation]
  by_cases hSlashes : ['/', '/'] <:+: value
  · -- the value is cut at its first two slashes; the rest of the line is passed over as a
    -- comment
    obtain ⟨comment, hValue, hSpan⟩ := expressionSpan_slashes h hSlashes (trail.blanks ++ tail)
    obtain ⟨hNil, hShort⟩ := expressionText_stripComment h hSlashes
    have hBreak : '\n' ∉ comment ++ trail.blanks := by
      have hComment : '\n' ∉ comment := fun hMem => h.no_break (by rw [hValue]; simp [hMem])
      simp [hComment, trail.no_break]
    rw [hWhole] at hSpan ⊢
    obtain ⟨context, hTokens⟩ := tokensFrom_behindColon hStart hUpper hSpan hNil n
    refine ⟨context, _, hTokens, by simp [hShort, hSlashes], fun hNone => absurd hSlashes hNone,
      fun _ => ?_⟩
    rw [← List.append_assoc]
    exact tokensFrom_slashes ⟨n, true, false⟩ hBreak tail
  · have hSpan := expressionSpan_sheltered h hSlashes trail hEnd hApart
    have hValue : expressionText (value ++ trail.blanks) = value := by
      rw [expressionText_append h.first_not_blank h.ne_nil trail.blank, expressionText_sheltered h]
    rw [hWhole] at hSpan ⊢
    obtain ⟨context, hTokens⟩ :=
      tokensFrom_behindColon hStart hUpper hSpan (by rw [hValue]; exact h.ne_nil) n
    rw [hValue] at hTokens
    rw [Editor.stripComment_eq_self hSlashes, expressionText_sheltered h]
    exact ⟨context, _, hTokens, by simp [hSlashes], fun _ => rfl,
      fun hHere => absurd hHere hSlashes⟩

/-- A call with a semicolon and braces in its arguments, and a choice behind it. -/
def guardedCall : List Char :=
  "each(\x7b go(); \x7d) ? a : b".toList

/-- A semicolon and braces inside brackets, and a colon outside of them. -/
theorem tokensFrom_guardedCall :
    Sheltered guardedCall ∧
    ∃ context, tokensFrom (behindColon 2) " each(\x7b go(); \x7d) ? a : b \n\x7d\n".toList =
      { kind := .expression "each(\x7b go(); \x7d) ? a : b", line := 2, context } ::
        tokensFrom (lineStart 3) "\x7d\n".toList := by
  have hFirst : guardedCall.head? = some 'e' := by decide +kernel
  have hValue : Sheltered guardedCall := by
    constructor
    case first_not_mark => simp [hFirst]
    all_goals decide +kernel
  have hEnd : EndsEntry "\n\x7d\n".toList := .newline _
  have hApart : Apart guardedCall ([' '] ++ "\n\x7d\n".toList) := by decide +kernel
  have hSpace : ∀ c ∈ [' '], isBlank c = true := List.forall_mem_singleton.mpr (by decide)
  have hNone : ¬['/', '/'] <:+: guardedCall := by decide +kernel
  obtain ⟨context, rest, hTokens, hWhole, hRest, -⟩ := tokensFrom_sheltered hValue
    hEnd ⟨[' '], hSpace, by decide⟩ ⟨[' '], hSpace, by decide⟩ hApart 2
  have hLine : " each(\x7b go(); \x7d) ? a : b \n\x7d\n".toList =
      [' '] ++ (guardedCall ++ ([' '] ++ "\n\x7d\n".toList)) := by
    decide +kernel
  have hText : String.ofList guardedCall = "each(\x7b go(); \x7d) ? a : b" := by decide +kernel
  rw [hWhole.mpr hNone, hRest hNone, ← hLine, hText] at hTokens
  exact ⟨hValue, context, hTokens.trans
    (congrArg _ (tokensFrom_afterValue_newline 2 "\x7d\n".toList))⟩

/-- A call with two slashes in its arguments. -/
def slashedCall : List Char :=
  "f(a // b)".toList

/-- Two slashes end a value also inside brackets, and the rest of the value is lost. -/
theorem tokenize_slashes :
    Sheltered slashedCall ∧
      "A \x7b\n  x: f(a // b)\n\x7d\n".toList =
        "A \x7b\n  x: ".toList ++ (slashedCall ++ "\n\x7d\n".toList) ∧
      (tokenize "A \x7b\n  x: f(a // b)\n\x7d\n").map kind =
        [.element "A", .scopeStart, .expression "x", .colon, .expression "f(a", .scopeEnd] := by
  have hFirst : slashedCall.head? = some 'f' := by decide +kernel
  have hValue : Sheltered slashedCall := by
    constructor
    case first_not_mark => simp [hFirst]
    all_goals decide +kernel
  exact ⟨hValue, by decide +kernel, by decide +kernel⟩

end Token

end BindingMarkup
