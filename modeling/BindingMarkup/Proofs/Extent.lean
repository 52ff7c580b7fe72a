import BindingMarkup.Proofs.Markup
import BindingMarkup.Proofs.Position

/-!
# BindingMarkup — how far written text is taken

The reader decides where a key or a value ends while it walks over it,
with a state for strings, a count of brackets and two looks ahead. For
text that obeys the rules of `Markup` the outcome can be said at once:

* `expressionSpan_key` — a key is taken up to its colon;
* `expressionSpan_balanced` — a value is taken up to what ends it, its line
  or a semicolon (`EndsValue`); more generally, the scan goes on behind a
  balanced text as if it started there (`expressionSpan_balanced_append`);
* `expressionText_eq_self` — nothing of it is trimmed away;
* `bareWordAhead_writable` — it counts as a type name alone exactly when
  it consists of nothing else.

The walk over a value follows the rules of `Balanced`, one case for each;
`balanced_head` is what all of them need: the first character of a
balanced text never ends it.
-/

namespace BindingMarkup.Token

open Text

-- ---------------------------------------------------------------------------
-- Spans over written text
-- ---------------------------------------------------------------------------

/-- An expression that does not end here takes the character and goes on. -/
theorem expressionSpan_cons {inValue : Bool} {quote : Quote} {depth : Nat} {c : Char}
    {rest more after : List Char} (hEnds : endsExpression inValue quote depth c rest = false)
    (hRest : expressionSpan inValue (quote.next c) (quote.depth depth c) rest = (more, after)) :
    expressionSpan inValue quote depth (c :: rest) = (c :: more, after) := by
  rw [expressionSpan, if_neg (by simp [hEnds]), hRest]

/-- Inside a string only a line break ends an expression. -/
theorem endsExpression_eq_false_of_quoted {inValue : Bool} {quote : Quote} {depth : Nat} {c : Char}
    {rest : List Char} (hQuote : quote ≠ .outside) (hBreak : c ≠ '\n') :
    endsExpression inValue quote depth c rest = false := by
  simp [endsExpression, hBreak, hQuote]

/-- A string is passed over up to its closing mark. -/
theorem expressionSpan_string {inValue : Bool} {mark : Char} {depth : Nat}
    {quoted tail more after : List Char} (h : StringEnd mark quoted) (hMark : mark ≠ '\\')
    (hBreak : '\n' ∉ quoted)
    (hTail : expressionSpan inValue .outside depth tail = (more, after)) :
    expressionSpan inValue (.inside mark) depth (quoted ++ tail) = (quoted ++ more, after) := by
  induction h with
  | close =>
    refine expressionSpan_cons (endsExpression_eq_false_of_quoted (by simp) ?_) ?_
    · rintro rfl
      exact hBreak List.mem_cons_self
    · simpa [Quote.next, Quote.depth, hMark] using hTail
  | @escape c rest _ ih =>
    simp only [List.mem_cons, not_or] at hBreak
    -- the backslash and the character behind it are taken together
    obtain ⟨-, hEscaped, hRest⟩ := hBreak
    refine expressionSpan_cons (endsExpression_eq_false_of_quoted (by simp) (by decide)) ?_
    refine expressionSpan_cons (endsExpression_eq_false_of_quoted (by simp [Quote.next])
      (Ne.symm hEscaped)) ?_
    exact ih hRest
  | @plain c rest hOther hEscape _ ih =>
    simp only [List.mem_cons, not_or] at hBreak
    obtain ⟨hHere, hRest⟩ := hBreak
    refine expressionSpan_cons (endsExpression_eq_false_of_quoted (by simp) (Ne.symm hHere)) ?_
    simpa [Quote.next, Quote.depth, hEscape, hOther] using ih hRest

/-- The depth of brackets in terms of their two classes. -/
theorem bracketDepth_eq (depth : Nat) (c : Char) :
    bracketDepth depth c =
      if isOpening c then depth + 1 else if isClosing c then depth - 1 else depth := by
  simp [bracketDepth, isOpening, isClosing, or_assoc]

/-- A run of inert characters is passed over. At the top it must not hold what
ends an expression there. -/
theorem expressionSpan_inert {inValue : Bool} {depth : Nat} {cs tail more after : List Char}
    (hInert : ∀ c ∈ cs, isInert c = true)
    (hTop : depth = 0 → ∀ c ∈ cs, c ≠ ';' ∧ (c = ':' → inValue = true))
    (hTail : expressionSpan inValue .outside depth tail = (more, after)) :
    expressionSpan inValue .outside depth (cs ++ tail) = (cs ++ more, after) := by
  induction cs with
  | nil => exact hTail
  | cons c rest ih =>
    obtain ⟨hQuote, hOpening, hClosing, hBreak, hSlash⟩ :=
      isInert_eq_true_iff.mp (hInert c List.mem_cons_self)
    have hRest := ih (fun d hd => hInert d (List.mem_cons_of_mem c hd))
      fun hDepth d hd => hTop hDepth d (List.mem_cons_of_mem c hd)
    refine expressionSpan_cons (endsExpression_eq_false_of_outside hBreak
      (fun hComment => hSlash hComment.1) fun hDepth => ⟨?_, hTop hDepth c List.mem_cons_self⟩) ?_
    · rintro rfl
      exact absurd hClosing (by decide)
    · simpa [Quote.next, Quote.depth, bracketDepth_eq, hQuote, hOpening, hClosing] using hRest

/-- A line feed ends comments and strings inside a block. -/
theorem blockSpan_break (comment : Bool) (quote : Quote) (depth : Nat) (rest : List Char) :
    blockSpan comment quote depth ('\n' :: rest) =
      ('\n' :: (blockSpan false .outside depth rest).1,
        (blockSpan false .outside depth rest).2) := by
  simp [blockSpan]

/-- Quotes, opening and closing brackets are different characters. -/
theorem isQuote_cases {c : Char} (h : isQuote c = true) :
    isOpening c = false ∧ isClosing c = false := by
  simp only [isQuote, Bool.or_eq_true, beq_iff_eq] at h
  rcases h with (rfl | rfl) | rfl <;> decide

theorem isOpening_cases {c : Char} (h : isOpening c = true) : isQuote c = false := by
  simp only [isOpening, Bool.or_eq_true, beq_iff_eq] at h
  rcases h with (rfl | rfl) | rfl <;> decide

theorem isClosing_cases {c : Char} (h : isClosing c = true) :
    isQuote c = false ∧ isOpening c = false := by
  simp only [isClosing, Bool.or_eq_true, beq_iff_eq] at h
  rcases h with (rfl | rfl) | rfl <;> decide

/-- Characters of different classes are different. -/
theorem ne_of_class {p : Char → Bool} {c d : Char} (hc : p c = true) (hd : p d = false) :
    c ≠ d := by
  rintro rfl
  rw [hc] at hd
  exact absurd hd (by simp)

/-- What may stand behind a value: the end of its line, or a semicolon and then
something that does not belong to the value. -/
inductive EndsValue : List Char → Prop where
  | newline (rest : List Char) : EndsValue ('\n' :: rest)
  | semicolon {rest : List Char} (hRest : statementContinues rest = false) :
      EndsValue (';' :: rest)

/-- What ends a value is a line break or a semicolon, so that any other character stands in
the value itself. -/
theorem head?_append_end {cs tail : List Char} {c : Char} (hEnd : EndsValue tail)
    (hBreak : c ≠ '\n') (hSemicolon : c ≠ ';') :
    (cs ++ tail).head? = some c ↔ cs.head? = some c := by
  cases cs with
  | nil =>
    cases hEnd with
    | newline rest => simpa using Ne.symm hBreak
    | semicolon hRest => simpa using Ne.symm hSemicolon
  | cons d more => rfl

theorem head?_append_ne {front back : List Char} {c : Char} (hFront : front.head? ≠ some c)
    (hBack : back.head? ≠ some c) : (front ++ back).head? ≠ some c := by
  cases front with
  | nil => exact hBack
  | cons d more => exact hFront

/-- The first character of a balanced text does not end it. -/
theorem balanced_head {depth : Nat} {c : Char} {more : List Char}
    (h : Balanced depth (c :: more)) :
    ¬(c = '/' ∧ more.head? = some '/') ∧ (depth = 0 → c ≠ '\x7d' ∧ c ≠ ';') := by
  cases h with
  | string hMark _ _ =>
    exact ⟨fun hComment => ne_of_class hMark (by decide) hComment.1,
      fun _ => ⟨ne_of_class hMark (by decide), ne_of_class hMark (by decide)⟩⟩
  | opening hOpening _ =>
    exact ⟨fun hComment => ne_of_class hOpening (by decide) hComment.1,
      fun _ => ⟨ne_of_class hOpening (by decide), ne_of_class hOpening (by decide)⟩⟩
  | closing hClosing _ =>
    exact ⟨fun hComment => ne_of_class hClosing (by decide) hComment.1,
      fun hDepth => absurd hDepth (Nat.succ_ne_zero _)⟩
  | plain _ _ hClosing hSemicolon hComment _ =>
    refine ⟨hComment, fun _ => ⟨?_, hSemicolon⟩⟩
    rintro rfl
    exact absurd hClosing (by decide)

/-- A balanced value does not end at any of its characters. -/
theorem endsExpression_eq_false_of_balanced {depth : Nat} {c : Char} {rest : List Char}
    (h : Balanced depth (c :: rest)) (hBreak : '\n' ∉ c :: rest) {tail : List Char}
    (hTail : tail.head? ≠ some '/') :
    endsExpression true .outside depth c (rest ++ tail) = false := by
  obtain ⟨hComment, hTop⟩ := balanced_head h
  refine endsExpression_eq_false_of_outside ?_ ?_ ?_
  · rintro rfl
    exact hBreak List.mem_cons_self
  · rintro ⟨hSlash, hHead⟩
    exact head?_append_ne (fun hHere => hComment ⟨hSlash, hHere⟩) hTail hHead
  · intro hDepth
    obtain ⟨hClose, hSemicolon⟩ := hTop hDepth
    exact ⟨hClose, hSemicolon, fun _ => rfl⟩

/-- A balanced text is passed over, and behind it the scan is at the top again. -/
theorem expressionSpan_balanced_append {depth : Nat} {cs tail more after : List Char}
    (h : Balanced depth cs) (hBreak : '\n' ∉ cs) (hSlash : tail.head? ≠ some '/')
    (hTail : expressionSpan true .outside 0 tail = (more, after)) :
    expressionSpan true .outside depth (cs ++ tail) = (cs ++ more, after) := by
  induction h with
  | nil => exact hTail
  | @string depth mark quoted rest hMark hQuoted hRest ih =>
    have hFirst := endsExpression_eq_false_of_balanced (.string hMark hQuoted hRest) hBreak hSlash
    simp only [List.mem_cons, List.mem_append, not_or] at hBreak
    have hSpan := expressionSpan_string hQuoted (ne_of_class hMark (by decide)) hBreak.2.1
      (ih hBreak.2.2)
    rw [List.cons_append, List.cons_append]
    refine expressionSpan_cons hFirst ?_
    rw [List.append_assoc, List.append_assoc]
    simpa [Quote.next, Quote.depth, bracketDepth_eq, hMark, isQuote_cases hMark] using hSpan
  | @opening depth c rest hOpening hRest ih =>
    refine expressionSpan_cons
      (endsExpression_eq_false_of_balanced (.opening hOpening hRest) hBreak hSlash) ?_
    have hSpan := ih fun hMem => hBreak (List.mem_cons_of_mem c hMem)
    simpa [Quote.next, Quote.depth, bracketDepth_eq, hOpening, isOpening_cases hOpening]
      using hSpan
  | @closing depth c rest hClosing hRest ih =>
    -- the bracket closes one that is open, so it does not end the value
    refine expressionSpan_cons
      (endsExpression_eq_false_of_balanced (.closing hClosing hRest) hBreak hSlash) ?_
    have hSpan := ih fun hMem => hBreak (List.mem_cons_of_mem c hMem)
    simpa [Quote.next, Quote.depth, bracketDepth_eq, hClosing, isClosing_cases hClosing]
      using hSpan
  | @plain depth c rest hQuote hOpening hClosing hSemicolon hComment hRest ih =>
    refine expressionSpan_cons (endsExpression_eq_false_of_balanced
      (.plain hQuote hOpening hClosing hSemicolon hComment hRest) hBreak hSlash) ?_
    have hSpan := ih fun hMem => hBreak (List.mem_cons_of_mem c hMem)
    simpa [Quote.next, Quote.depth, bracketDepth_eq, hQuote, hOpening, hClosing] using hSpan

/-- **A value is taken up to what ends it.** -/
theorem expressionSpan_balanced {depth : Nat} {cs tail : List Char} (h : Balanced depth cs)
    (hBreak : '\n' ∉ cs) (hEnd : EndsValue tail) :
    expressionSpan true .outside depth (cs ++ tail) = (cs, tail) := by
  have hSlash : tail.head? ≠ some '/' := by cases hEnd <;> simp
  have hStop : expressionSpan true .outside 0 tail = ([], tail) := by
    cases hEnd with
    | newline rest => simp [expressionSpan, endsExpression]
    | semicolon hRest => simp [expressionSpan, endsExpression, hRest]
  simpa using expressionSpan_balanced_append h hBreak hSlash hStop

/-- A string ends with its mark. -/
theorem getLast?_of_stringEnd {mark : Char} {quoted : List Char} (h : StringEnd mark quoted) :
    quoted.getLast? = some mark := by
  induction h with
  | close => rfl
  | escape _ ih => simp [List.getLast?_cons, ih]
  | plain _ _ _ ih => simp [List.getLast?_cons, ih]

theorem getLast?_cons_ne {c d : Char} {cs : List Char} (hc : c ≠ d)
    (hLast : cs.getLast? ≠ some d) : (c :: cs).getLast? ≠ some d := by
  rw [List.getLast?_cons]
  cases h : cs.getLast? with
  | none => simpa using hc
  | some e => simpa [h] using hLast

/-- The last character of a balanced text is no semicolon: outside of strings there
is none, and a string ends with its mark. -/
theorem getLast?_ne_semicolon {depth : Nat} {cs : List Char} (h : Balanced depth cs) :
    cs.getLast? ≠ some ';' := by
  induction h with
  | nil => simp
  | @string depth mark quoted rest hMark hQuoted _ ih =>
    have hSemicolon : mark ≠ ';' := ne_of_class hMark (by decide)
    refine getLast?_cons_ne hSemicolon ?_
    rw [List.getLast?_append, getLast?_of_stringEnd hQuoted]
    cases hRest : rest.getLast? with
    | none => simpa using hSemicolon
    | some d => simpa [hRest] using ih
  | opening hOpening _ ih => exact getLast?_cons_ne (ne_of_class hOpening (by decide)) ih
  | closing hClosing _ ih => exact getLast?_cons_ne (ne_of_class hClosing (by decide)) ih
  | plain _ _ _ hSemicolon _ _ ih => exact getLast?_cons_ne hSemicolon ih

/-- The text of an expression that needs no trimming is all of it. -/
theorem expressionText_eq_self {cs : List Char} (hFirst : ∀ c ∈ cs.head?, isBlank c = false)
    (hLast : ∀ c ∈ cs.getLast?, isBlank c = false) (hSemicolon : cs.getLast? ≠ some ';') :
    expressionText cs = cs := by
  have hTrim : trim cs = cs := by
    cases cs with
    | nil => rfl
    | cons c rest =>
      rw [trim, trimStart_cons_of_not_blank (hFirst c rfl), trimEnd_eq_self hLast]
  rw [expressionText, hTrim, stripBack_eq_self hSemicolon, trimEnd_eq_self hLast]

/-- A character that does nothing can be taken from the front of a balanced text. -/
theorem balanced_tail {depth : Nat} {c : Char} {cs : List Char} (h : Balanced depth (c :: cs))
    (hInert : isInert c = true) : Balanced depth cs := by
  obtain ⟨hQuote, hOpening, hClosing, -, -⟩ := isInert_eq_true_iff.mp hInert
  cases h with
  | string hMark _ _ => exact absurd rfl (ne_of_class hMark hQuote)
  | opening hHere _ => exact absurd rfl (ne_of_class hHere hOpening)
  | closing hHere _ => exact absurd rfl (ne_of_class hHere hClosing)
  | plain _ _ _ _ _ hRest => exact hRest

/-- What follows inert characters is as balanced as the whole. -/
theorem balanced_dropWhile {p : Char → Bool} (hp : ∀ c, p c = true → isInert c = true)
    {depth : Nat} {cs : List Char} (h : Balanced depth cs) : Balanced depth (cs.dropWhile p) := by
  induction cs with
  | nil => exact h
  | cons c rest ih =>
    rw [List.dropWhile_cons]
    split
    · next hc => exact ih (balanced_tail h (hp c hc))
    · exact h

theorem dropWhile_append_of_ne_nil {p : Char → Bool} {front back : List Char}
    (h : front.dropWhile p ≠ []) :
    (front ++ back).dropWhile p = front.dropWhile p ++ back := by
  rw [List.dropWhile_append, if_neg (by simpa using h)]

theorem isInert_of_isMargin {c : Char} (h : isMargin c = true) : isInert c = true := by
  simp only [isMargin, Bool.or_eq_true, beq_iff_eq] at h
  rcases h with (rfl | rfl) | rfl <;> decide

/-- A value does not end with blanks, and so no end of it is blank. -/
theorem dropWhile_isMargin_ne_nil {cs tail : List Char} (h : Writable cs) (hTail : tail <:+ cs)
    (hNil : tail ≠ []) : tail.dropWhile isMargin ≠ [] := by
  intro hDrop
  have hMargin := List.dropWhile_eq_nil_iff.mp hDrop _ (List.getLast_mem hNil)
  have hLast := h.last_not_blank _ (List.getLast_mem_getLast? h.ne_nil)
  rw [← hTail.getLast hNil, isBlank_of_isMargin hMargin] at hLast
  exact absurd hLast (by simp)

/-- A word in value position stands alone exactly when it is all of the value. -/
theorem bareWordAhead_writable {cs tail : List Char} (h : Writable cs) (hEnd : EndsValue tail) :
    bareWordAhead (cs ++ tail) = cs.all isElementChar := by
  unfold bareWordAhead
  by_cases hWord : cs.dropWhile isElementChar = []
  · have hAll : ∀ c ∈ cs, isElementChar c = true := List.dropWhile_eq_nil_iff.mp hWord
    rw [List.dropWhile_append_of_pos hAll, List.all_eq_true.mpr hAll]
    cases hEnd <;> rfl
  · -- the value goes on behind the word with something that does not end a statement
    have hSuffix : cs.dropWhile isElementChar <:+ cs := List.dropWhile_suffix _
    have hMargin := dropWhile_isMargin_ne_nil h hSuffix hWord
    have hBalanced : Balanced 0 ((cs.dropWhile isElementChar).dropWhile isMargin) :=
      balanced_dropWhile (fun c hc => isInert_of_isMargin hc) (balanced_dropWhile
        (fun c hc => isInert_of_isWordChar (isWordChar_of_isElementChar hc)) h.balanced)
    have hBreak : '\n' ∉ (cs.dropWhile isElementChar).dropWhile isMargin := fun hMem =>
      h.no_break (hSuffix.subset ((List.dropWhile_suffix _).subset hMem))
    rw [dropWhile_append_of_ne_nil hWord, dropWhile_append_of_ne_nil hMargin]
    obtain ⟨c, more, hMore⟩ := List.exists_cons_of_ne_nil hMargin
    rw [hMore] at hBalanced hBreak ⊢
    obtain ⟨hComment, hTop⟩ := balanced_head hBalanced
    obtain ⟨hClose, hSemicolon⟩ := hTop rfl
    have hHere : c ≠ '\n' := fun hEq => hBreak (hEq ▸ List.mem_cons_self)
    have hNoComment : startsComment (c :: (more ++ tail)) = false :=
      startsComment_eq_false (by rwa [head?_append_end hEnd (by decide) (by decide)])
    have hNotAll : cs.all isElementChar = false := by
      rw [← Bool.not_eq_true, List.all_eq_true, ← List.dropWhile_eq_nil_iff]
      exact hWord
    simp [hHere, hSemicolon, hClose, hNoComment, hNotAll]

theorem toList_keyText_some (name params : String) :
    (keyText name (some params)).toList = name.toList ++ '(' :: (params.toList ++ [')']) := by
  simp [keyText]

/-- A key is taken up to its colon. Colons and semicolons between parentheses do
not end it. -/
theorem expressionSpan_key {name : String} {params : Option String} (h : IsKey name params)
    (rest : List Char) :
    expressionSpan false .outside 0 ((keyText name params).toList ++ ':' :: rest) =
      ((keyText name params).toList, ':' :: rest) := by
  have hInert : ∀ c ∈ name.toList, isInert c = true := fun c hc =>
    isInert_of_isWordChar (h.isWordChar c hc)
  have hTop : 0 = 0 → ∀ c ∈ name.toList, c ≠ ';' ∧ (c = ':' → false = true) := by
    intro _ c hc
    have hSpecial := not_mem_specials (h.isWordChar c hc)
    exact ⟨fun hEq => absurd (hEq ▸ hSpecial) (by decide),
      fun hEq => absurd (hEq ▸ hSpecial) (by decide)⟩
  have hColon : expressionSpan false .outside 0 (':' :: rest) = ([], ':' :: rest) := by
    simp [expressionSpan, endsExpression]
  cases params with
  | none => simpa [keyText] using expressionSpan_inert hInert hTop hColon
  | some text =>
    -- inside the parentheses neither the colon nor anything else ends the key
    have hClose : expressionSpan false .outside 1 (')' :: ':' :: rest) = ([')'], ':' :: rest) :=
      expressionSpan_cons
        (endsExpression_eq_false_of_outside (by decide) (by simp) (by simp)) hColon
    have hText := expressionSpan_inert (List.all_eq_true.mp (h.params_chars text rfl))
      (fun hDepth => absurd hDepth (by decide)) hClose
    have hOpen : expressionSpan false .outside 0 ('(' :: (text.toList ++ ')' :: ':' :: rest)) =
        ('(' :: (text.toList ++ [')']), ':' :: rest) :=
      expressionSpan_cons
        (endsExpression_eq_false_of_outside (by decide) (by simp) (by simp)) hText
    rw [toList_keyText_some, List.append_assoc]
    simpa using expressionSpan_inert hInert hTop hOpen

end BindingMarkup.Token
