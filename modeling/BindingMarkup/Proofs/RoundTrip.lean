import BindingMarkup.Proofs.Extent

/-!
# BindingMarkup — reading back what was written

A document is written with a header, an entry or a closing brace on each
line, and every line is indented at will. Reading and building it gives
the outline that the document stands for: nothing is lost, nothing is
taken for something else, and every node, property and delegate carries
the number of its line.

The proof goes line by line. At the start of a line the reader remembers
nothing but its number (`lineStart`), and a written line brings it to the
start of the next one, whatever follows there:

* `tokensFrom_title`, `tokensFrom_statement`, `tokensFrom_closing` — the
  tokens of the three kinds of lines;
* `Markup.derives_contents` — by induction on the document, its tokens
  derive its contents;
* `Markup.parse_print` — with the grammar of the builder, the round trip.
-/

namespace BindingMarkup.Token

open Text

-- ---------------------------------------------------------------------------
-- Reading the parts of a line
-- ---------------------------------------------------------------------------

/-- The reader at the start of a line. -/
def lineStart (n : Nat) : State where
  line := n

/-- A step without a token leads on to the rest. -/
theorem tokensFrom_of_silent {state after : State} {c : Char} {rest tail : List Char}
    (h : step state c rest = { event := none, state := after, rest := tail }) :
    tokensFrom state (c :: rest) = tokensFrom after tail := by
  rw [tokensFrom_cons, h]
  rfl

/-- A step with a token, and the tokens behind it. -/
theorem tokensFrom_of_token {state after : State} {c : Char} {rest tail : List Char} {kind : Kind}
    (h : step state c rest = stepToken after kind state.line (c :: rest) tail) :
    tokensFrom state (c :: rest) =
      { kind, line := state.line, context := contextOf (c :: rest) } ::
        tokensFrom { after with valueNext := kind == .colon } tail := by
  rw [tokensFrom_cons, h]
  rfl

/-- A blank inside a line is passed over. -/
theorem tokensFrom_blank {c : Char} (hBlank : isBlank c = true) (hBreak : c ≠ '\n')
    (state : State) (rest : List Char) :
    tokensFrom state (c :: rest) = tokensFrom state rest := by
  have hSlash : c ≠ '/' := ne_of_class hBlank (by decide)
  have hMark : Kind.ofMark? c = none := by
    cases hMark : Kind.ofMark? c with
    | none => rfl
    | some kind =>
      rw [(begins_of_ofMark? hMark True rest).1] at hBlank
      exact absurd hBlank (by simp)
  have hBrace : c ≠ '\x7b' := ne_of_class hBlank (by decide)
  refine tokensFrom_of_silent ?_
  simp [step, hBreak, hSlash, hBrace, hMark, hBlank]

/-- Indentation is passed over. -/
theorem tokensFrom_indentation (indentation : Indentation) (state : State) (rest : List Char) :
    tokensFrom state (indentation.blanks ++ rest) = tokensFrom state rest := by
  obtain ⟨blanks, hBlank, hBreak⟩ := indentation
  induction blanks with
  | nil => rfl
  | cons c more ih =>
    have hHere : c ≠ '\n' := fun hEq => hBreak (hEq ▸ List.mem_cons_self)
    rw [List.cons_append, tokensFrom_blank (hBlank c List.mem_cons_self) hHere]
    exact ih (fun d hd => hBlank d (List.mem_cons_of_mem c hd))
      fun hMem => hBreak (List.mem_cons_of_mem c hMem)

/-- A line break leads to the start of the next line, whatever stood before. -/
theorem tokensFrom_break {state : State} (hValue : state.valueNext = false) (rest : List Char) :
    tokensFrom state ('\n' :: rest) = tokensFrom (lineStart (state.line + 1)) rest := by
  refine tokensFrom_of_silent ?_
  simp [step, State.pass, lineStart, hValue]

theorem tokensFrom_newline (n : Nat) (rest : List Char) :
    tokensFrom (lineStart n) ('\n' :: rest) = tokensFrom (lineStart (n + 1)) rest :=
  tokensFrom_break rfl rest

/-- A mark is read as such, unless it opens a block in the place of a value. -/
theorem step_of_mark {state : State} {c : Char} {kind : Kind}
    (hMark : Kind.ofMark? c = some kind) (hBlock : c = '\x7b' → state.valueNext = false)
    (rest : List Char) : step state c rest = stepMark state kind c rest := by
  have hBreak : c ≠ '\n' := by
    rintro rfl
    simp [Kind.ofMark?] at hMark
  have hSlash : c ≠ '/' := by
    rintro rfl
    simp [Kind.ofMark?] at hMark
  have hNoBlock : ¬(c = '\x7b' ∧ state.valueNext = true) := by
    rintro ⟨hBrace, hValue⟩
    rw [hBlock hBrace] at hValue
    exact absurd hValue (by simp)
  rw [step, if_neg hBreak, if_neg (by simp [hSlash]), if_neg (by simp [hSlash]),
    if_neg hNoBlock, hMark]

/-- A mark is one token. -/
theorem tokensFrom_mark {state : State} {c : Char} {kind : Kind}
    (hMark : Kind.ofMark? c = some kind) (hBlock : c = '\x7b' → state.valueNext = false)
    (rest : List Char) :
    tokensFrom state (c :: rest) =
      { kind, line := state.line, context := contextOf (c :: rest) } ::
        tokensFrom (stepMark state kind c rest).state rest := by
  rw [tokensFrom_cons, step_of_mark hMark hBlock]
  rfl

/-- What the first character of an element or an expression is not: a line break,
the start of a comment, a mark or a blank. -/
structure StartsText (c : Char) (rest : List Char) : Prop where
  no_break : c ≠ '\n'
  no_comment : c = '/' → rest.head? ≠ some '/' ∧ rest.head? ≠ some '*'
  no_mark : Kind.ofMark? c = none
  not_blank : isBlank c = false

/-- What happens at the beginning of a name or an expression. -/
theorem step_of_startsText {c : Char} {rest : List Char} (h : StartsText c rest) (state : State) :
    step state c rest =
      if c.isUpper && (!state.valueNext || bareWordAhead (c :: rest)) then
        stepElement state (c :: rest)
      else if state.valueNext || startsExpression c then stepExpression state (c :: rest)
      else { event := some (.skipped state.line c), state, rest } := by
  have hLine : ¬(c = '/' ∧ rest.head? = some '/') := fun hHere => (h.no_comment hHere.1).1 hHere.2
  have hBlock : ¬(c = '/' ∧ rest.head? = some '*') := fun hHere => (h.no_comment hHere.1).2 hHere.2
  have hBrace : ¬(c = '\x7b' ∧ state.valueNext = true) := by
    rintro ⟨rfl, -⟩
    exact absurd h.no_mark (by simp [Kind.ofMark?])
  rw [step, if_neg h.no_break, if_neg hLine, if_neg hBlock, if_neg hBrace, h.no_mark]
  simp [h.not_blank]

/-- A letter of a word begins a name or an expression. -/
theorem startsText_of_isWordChar {c : Char} (hWord : isWordChar c = true) (rest : List Char) :
    StartsText c rest := by
  have hSpecial := not_mem_specials hWord
  simp only [specials, List.mem_cons, List.not_mem_nil, not_or, or_false] at hSpecial
  refine ⟨by simp [hSpecial], fun hEq => absurd hEq (by simp [hSpecial]), ?_,
    isBlank_of_isWordChar hWord⟩
  simp [Kind.ofMark?, hSpecial]

/-- A value does not start like anything else. -/
theorem startsText_of_writable {c : Char} {more tail : List Char} (h : Writable (c :: more))
    (hEnd : EndsValue tail) : StartsText c (more ++ tail) := by
  obtain ⟨hSlashes, hTop⟩ := balanced_head h.balanced
  obtain ⟨hClose, hSemicolon⟩ := hTop rfl
  obtain ⟨hBrace, hColon, hAt⟩ := h.not_mark c rfl
  refine ⟨fun hEq => h.no_break (hEq ▸ List.mem_cons_self), ?_, ?_, h.not_blank c rfl⟩
  · rintro rfl
    rw [ne_eq, ne_eq, head?_append_end hEnd (by decide) (by decide),
      head?_append_end hEnd (by decide) (by decide)]
    refine ⟨fun hHead => hSlashes ⟨rfl, hHead⟩, fun hHead => h.no_comment ?_⟩
    cases more with
    | nil => exact absurd hHead (by simp)
    | cons d more => simpa using Eq.symm hHead
  · simp [Kind.ofMark?, hBrace, hClose, hColon, hAt, hSemicolon]

/-- An element name stands before a character that does not continue it. -/
theorem stepElement_of_isTypeName {cs tail : List Char} (h : isTypeName cs = true)
    (hTail : ∀ c ∈ tail.head?, isElementChar c = false) (state : State) :
    stepElement state (cs ++ tail) =
      stepToken (state.terminate tail).1 (.element (String.ofList cs)) state.line (cs ++ tail)
        (state.terminate tail).2 := by
  simp only [isTypeName, Bool.and_eq_true, List.all_eq_true] at h
  have hTake : tail.takeWhile isElementChar = [] := by
    cases tail with
    | nil => rfl
    | cons c rest => exact List.takeWhile_cons_of_neg (by simp [hTail c rfl])
  have hDrop : tail.dropWhile isElementChar = tail := by
    cases tail with
    | nil => rfl
    | cons c rest => exact List.dropWhile_cons_of_neg (by simp [hTail c rfl])
  rw [stepElement_eq, List.takeWhile_append_of_pos h.2, List.dropWhile_append_of_pos h.2, hTake,
    hDrop, List.append_nil]

/-- The name of a type is read up to the blank behind it. -/
theorem tokensFrom_typeName (name : TypeName) (n : Nat) (rest : List Char) :
    ∃ context, tokensFrom (lineStart n) (name.text.toList ++ ' ' :: rest) =
      { kind := .element name.text, line := n, context } :: tokensFrom (lineStart n) rest := by
  obtain ⟨c, more, hText⟩ := List.exists_cons_of_ne_nil name.writable.ne_nil
  have hElement : stepElement (lineStart n) (name.text.toList ++ ' ' :: rest) = _ :=
    stepElement_of_isTypeName name.valid (by simp; decide) (lineStart n)
  have hValid := name.valid
  simp only [isTypeName, hText, Bool.and_eq_true, List.all_eq_true, List.head?_cons,
    Option.any_some] at hValid
  have hWord : isWordChar c = true :=
    isWordChar_of_isElementChar (hValid.2 c List.mem_cons_self)
  rw [String.ofList_toList, hText, List.cons_append] at hElement
  have hStep : step (lineStart n) c (more ++ ' ' :: rest) =
      stepToken (lineStart n) (.element name.text) n (c :: (more ++ ' ' :: rest))
        (' ' :: rest) := by
    rw [step_of_startsText (startsText_of_isWordChar hWord _),
      if_pos (by simp [hValid.1, lineStart])]
    exact hElement
  rw [hText, List.cons_append, tokensFrom_of_token hStep, tokensFrom_blank (by decide) (by decide)]
  exact ⟨_, rfl⟩

/-- An expression that its span and its text leave whole. -/
theorem stepExpression_of_span {state : State} {text : String} {tail : List Char}
    (hNil : text.toList ≠ [])
    (hSpan : expressionSpan state.colonOnLine .outside 0 (text.toList ++ tail) =
      (text.toList, tail))
    (hText : expressionText text.toList = text.toList) :
    stepExpression state (text.toList ++ tail) =
      stepToken (state.terminate tail).1 (.expression text) state.line (text.toList ++ tail)
        (state.terminate tail).2 := by
  rw [stepExpression_eq state (by rwa [hSpan, hText]), hSpan, hText, String.ofList_toList]

/-- A key starts with a character of its own and ends with one that is not
trimmed. -/
theorem keyText_ends {name : String} {params : Option String} (h : IsKey name params) :
    ∃ c more, (keyText name params).toList = c :: more ∧ isKeyStart c = true ∧
      isWordChar c = true ∧
      ∀ d ∈ (keyText name params).toList.getLast?, isBlank d = false ∧ d ≠ ';' := by
  have hStart := h.start
  obtain ⟨c, more, hText⟩ : ∃ c more, name.toList = c :: more := by
    refine List.exists_cons_of_ne_nil fun hNil => ?_
    rw [hNil] at hStart
    exact absurd hStart (by simp)
  rw [hText, List.head?_cons, Option.any_some] at hStart
  have hWord : isWordChar c = true := h.isWordChar c (hText ▸ List.mem_cons_self)
  cases params with
  | none =>
    refine ⟨c, more, hText, hStart, hWord, fun d hd => ?_⟩
    have hLast : isWordChar d = true := h.isWordChar d (List.mem_of_getLast? hd)
    exact ⟨isBlank_of_isWordChar hLast, fun hEq =>
      absurd (hEq ▸ not_mem_specials hLast) (by decide)⟩
  | some text =>
    refine ⟨c, _, by rw [toList_keyText_some, hText]; rfl, hStart, hWord, fun d hd => ?_⟩
    obtain rfl : ')' = d := by simpa [toList_keyText_some, List.getLast?_cons] using hd
    decide

/-- A key starts like an expression, and not like an element or a number. -/
theorem startsExpression_of_isKeyStart {c : Char} (h : isKeyStart c = true) :
    startsExpression c = true ∧ c.isUpper = false ∧ c.isDigit = false := by
  simp only [isKeyStart, Bool.or_eq_true, beq_iff_eq] at h
  rcases h with hLower | rfl
  · have hSmall : 'a'.val ≤ c.val := of_decide_eq_true (Bool.and_eq_true_iff.mp hLower).1
    have hFirst : 97 ≤ c.val.toNat := UInt32.le_iff_toNat_le.mp hSmall
    refine ⟨by simp [startsExpression, hLower], ?_, ?_⟩
    · refine Bool.eq_false_iff.mpr fun hUpper => ?_
      have hCapital : 'A'.val ≤ c.val ∧ c.val ≤ 'Z'.val := of_decide_eq_true hUpper
      have hLast : c.val.toNat ≤ 90 := UInt32.le_iff_toNat_le.mp hCapital.2
      omega
    · refine Bool.eq_false_iff.mpr fun hDigit => ?_
      have hNumber : c.val ≤ '9'.val := of_decide_eq_true (Bool.and_eq_true_iff.mp hDigit).2
      have hLast : c.val.toNat ≤ 57 := UInt32.le_iff_toNat_le.mp hNumber
      omega
  · decide

/-- A key is read up to its colon, with its parameters. -/
theorem tokensFrom_key {name : String} {params : Option String} (h : IsKey name params) (n : Nat)
    (rest : List Char) :
    ∃ context, tokensFrom (lineStart n) ((keyText name params).toList ++ ':' :: rest) =
      { kind := .expression (keyText name params), line := n, context } ::
        tokensFrom (lineStart n) (':' :: rest) := by
  obtain ⟨c, more, hText, hFirst, hWord, hLast⟩ := keyText_ends h
  have hWhole : expressionText (keyText name params).toList = (keyText name params).toList := by
    refine expressionText_eq_self ?_ (fun d hd => (hLast d hd).1) fun hd => (hLast ';' hd).2 rfl
    simpa [hText] using isBlank_of_isWordChar hWord
  have hExpression : stepExpression (lineStart n) ((keyText name params).toList ++ ':' :: rest) =
      stepToken (lineStart n) (.expression (keyText name params)) n
        ((keyText name params).toList ++ ':' :: rest) (':' :: rest) :=
    stepExpression_of_span (by simp [hText]) (expressionSpan_key h rest) hWhole
  obtain ⟨hStarts, hUpper, -⟩ := startsExpression_of_isKeyStart hFirst
  rw [hText, List.cons_append] at hExpression ⊢
  have hStep : step (lineStart n) c (more ++ ':' :: rest) =
      stepToken (lineStart n) (.expression (keyText name params)) n
        (c :: (more ++ ':' :: rest)) (':' :: rest) := by
    rw [step_of_startsText (startsText_of_isWordChar hWord _), hUpper, hStarts, ← hExpression]
    simp
  rw [tokensFrom_of_token hStep]
  exact ⟨_, rfl⟩

/-- How the text behind a colon is read: a type name alone is an element. -/
def valueKind (text : String) : Kind :=
  if isTypeName text.toList then .element text else .expression text

theorem valueKind_ne_colon (text : String) : (valueKind text == .colon) = false := by
  unfold valueKind
  split <;> rfl

/-- What ends a value ends a name. -/
theorem isElementChar_of_endsValue {tail : List Char} (hEnd : EndsValue tail) :
    ∀ c ∈ tail.head?, isElementChar c = false := by
  cases hEnd with
  | newline rest => simp; decide
  | semicolon hRest => simp; decide

/-- The state behind a value on line `n`, and what is read next: a semicolon is
taken along. -/
def afterValue (n : Nat) (tail : List Char) : State × List Char :=
  State.terminate ⟨n, true, false⟩ tail

/-- A value is read up to its end, as a type if it is a capitalised word and as an
expression otherwise. -/
theorem step_value {text : String} (h : Writable text.toList) {c : Char} {more tail : List Char}
    (hText : text.toList = c :: more) (hEnd : EndsValue tail) (n : Nat) :
    step ⟨n, true, true⟩ c (more ++ tail) =
      stepToken (afterValue n tail).1 (valueKind text) n (c :: (more ++ tail))
        (afterValue n tail).2 := by
  have hType : (c.isUpper && text.toList.all isElementChar) = isTypeName text.toList := by
    rw [hText]
    rfl
  have hStep := step_of_startsText (startsText_of_writable (hText ▸ h) hEnd) ⟨n, true, true⟩
  rw [← List.cons_append, ← hText, bareWordAhead_writable h hEnd] at hStep
  simp only [Bool.not_true, Bool.false_or, Bool.true_or, if_true, hType] at hStep
  rw [hStep, ← List.cons_append, ← hText, valueKind]
  split
  · next hElement =>
    rw [stepElement_of_isTypeName hElement (isElementChar_of_endsValue hEnd),
      String.ofList_toList]
    cases hEnd <;> rfl
  · rw [stepExpression_of_span h.ne_nil (expressionSpan_balanced h.balanced h.no_break hEnd)
      (expressionText_eq_self h.not_blank h.last_not_blank (getLast?_ne_semicolon h.balanced))]
    cases hEnd <;> rfl

/-- **A value is read as one token.** -/
theorem tokensFrom_value {text : String} (h : Writable text.toList) {tail : List Char}
    (hEnd : EndsValue tail) (n : Nat) :
    ∃ context, tokensFrom ⟨n, true, true⟩ (text.toList ++ tail) =
      { kind := valueKind text, line := n, context } ::
        tokensFrom (afterValue n tail).1 (afterValue n tail).2 := by
  obtain ⟨c, more, hText⟩ := List.exists_cons_of_ne_nil h.ne_nil
  have hState : { (afterValue n tail).1 with valueNext := false } = (afterValue n tail).1 := by
    cases hEnd <;> rfl
  rw [hText, List.cons_append, tokensFrom_of_token (step_value h hText hEnd n),
    valueKind_ne_colon, hState]
  exact ⟨_, rfl⟩

-- ---------------------------------------------------------------------------
-- Reading titles, entries and closing braces
-- ---------------------------------------------------------------------------

theorem tokensFrom_closing (n : Nat) (rest : List Char) :
    ∃ stop : Token, stop.kind = .scopeEnd ∧
      tokensFrom (lineStart n) ('\x7d' :: rest) = stop :: tokensFrom (lineStart n) rest := by
  have hMark : Kind.ofMark? '\x7d' = some .scopeEnd := rfl
  rw [tokensFrom_mark hMark (fun _ => rfl)]
  exact ⟨_, rfl, rfl⟩

theorem tokensFrom_opening (n : Nat) (rest : List Char) :
    ∃ context, tokensFrom (lineStart n) ('\x7b' :: rest) =
      { kind := .scopeStart, line := n, context } :: tokensFrom (lineStart n) rest := by
  have hMark : Kind.ofMark? '\x7b' = some .scopeStart := rfl
  rw [tokensFrom_mark hMark (fun _ => rfl)]
  exact ⟨_, rfl⟩

theorem tokensFrom_isA (n : Nat) (rest : List Char) :
    ∃ context, tokensFrom (lineStart n) ('@' :: ' ' :: rest) =
      { kind := .isA, line := n, context } :: tokensFrom (lineStart n) rest := by
  have hMark : Kind.ofMark? '@' = some .isA := rfl
  rw [tokensFrom_mark hMark (fun _ => rfl), tokensFrom_blank (by decide) (by decide)]
  exact ⟨_, rfl⟩

theorem tokensFrom_colon (n : Nat) (rest : List Char) :
    ∃ context, tokensFrom (lineStart n) (':' :: ' ' :: rest) =
      { kind := .colon, line := n, context } :: tokensFrom ⟨n, true, true⟩ rest := by
  have hMark : Kind.ofMark? ':' = some .colon := rfl
  rw [tokensFrom_mark hMark (fun _ => rfl), tokensFrom_blank (by decide) (by decide)]
  exact ⟨_, rfl⟩

/-- A header is read up to its opening brace. -/
theorem tokensFrom_title (title : Title) (n : Nat) (rest : List Char) :
    ∃ header start, title.header.Derives header ∧ start.kind = .scopeStart ∧ start.line = n ∧
      tokensFrom (lineStart n) (title.text.toList ++ rest) =
        header ++ start :: tokensFrom (lineStart n) rest := by
  obtain ⟨_, hOpening⟩ := tokensFrom_opening n rest
  cases title with
  | element name =>
    obtain ⟨_, hName⟩ := tokensFrom_typeName name n ('\x7b' :: rest)
    have hText : (Title.element name).text.toList ++ rest =
        name.text.toList ++ ' ' :: '\x7b' :: rest := by
      simp [Title.text]
    rw [hText, hName, hOpening]
    exact ⟨[_], _, .element rfl .nil, rfl, rfl, rfl⟩
  | definition name base =>
    obtain ⟨_, hBase⟩ := tokensFrom_typeName base n ('\x7b' :: rest)
    obtain ⟨_, hIsA⟩ := tokensFrom_isA n (base.text.toList ++ ' ' :: '\x7b' :: rest)
    obtain ⟨_, hName⟩ := tokensFrom_typeName name n
      ('@' :: ' ' :: (base.text.toList ++ ' ' :: '\x7b' :: rest))
    have hText : (Title.definition name base).text.toList ++ rest =
        name.text.toList ++ ' ' :: '@' :: ' ' ::
          (base.text.toList ++ ' ' :: '\x7b' :: rest) := by
      simp [Title.text]
    rw [hText, hName, hIsA, hBase, hOpening]
    -- no semicolon stands in any of the three gaps
    exact ⟨_, _, @Header.Derives.definition _ _ _ [] [] [] _ _ rfl .nil rfl .nil rfl .nil, rfl, rfl,
      rfl⟩

/-- The token of its value makes the entry of a statement. -/
theorem made_entry (statement : Statement) (n : Nat) (context : String) :
    (statement.entry n).Made statement.key
      { kind := valueKind statement.value, line := n, context } := by
  cases statement with
  | id name =>
    refine .id rfl ?_ name.valid
    simp only [valueKind]
    split <;> rfl
  | property key value =>
    exact .property key.not_id (if_neg (by simp [Statement.value, value.not_typeName]))
  | delegate key target =>
    exact .delegate key.not_id (if_pos target.valid)

/-- No key starts with a digit. -/
theorem isDigit_head_key (statement : Statement) :
    statement.key.toList.head?.any Char.isDigit = false := by
  obtain ⟨name, params, hKey, hValid⟩ := statement.exists_key
  obtain ⟨c, more, hText, hFirst, -⟩ := keyText_ends hValid
  rw [hKey, hText]
  exact (startsExpression_of_isKeyStart hFirst).2.2

/-- An entry is read up to what ends its value. -/
theorem tokensFrom_statement (statement : Statement) (n : Nat) {tail : List Char}
    (hEnd : EndsValue tail) :
    ∃ ts, (statement.entry n).Derives ts ∧
      tokensFrom (lineStart n) (statement.text.toList ++ tail) =
        ts ++ tokensFrom (afterValue n tail).1 (afterValue n tail).2 := by
  obtain ⟨name, params, hKey, hValid⟩ := statement.exists_key
  obtain ⟨_, hValue⟩ := tokensFrom_value statement.writable hEnd n
  obtain ⟨_, hColon⟩ := tokensFrom_colon n (statement.value.toList ++ tail)
  obtain ⟨_, hTokens⟩ := tokensFrom_key hValid n (' ' :: (statement.value.toList ++ tail))
  have hText : statement.text.toList ++ tail =
      statement.key.toList ++ ':' :: ' ' :: (statement.value.toList ++ tail) := by
    simp [Statement.text]
  rw [hText, hKey, hTokens, hColon, hValue, ← hKey]
  exact ⟨[_, _, _], .mk rfl (isDigit_head_key statement) rfl (made_entry statement n _), rfl⟩

/-- Behind an entry that ends with its line, the reader is at the start of the next. -/
theorem tokensFrom_afterValue_newline (n : Nat) (rest : List Char) :
    tokensFrom (afterValue n ('\n' :: rest)).1 (afterValue n ('\n' :: rest)).2 =
      tokensFrom (lineStart (n + 1)) rest :=
  tokensFrom_break rfl rest

end BindingMarkup.Token

namespace BindingMarkup

open Token

/-- The first line is read behind its indentation. -/
theorem tokensFrom_layOut_cons (indent : Nat → Indentation) (n : Nat) (line : String)
    (more : List String) (rest : List Char) (state : State) :
    tokensFrom state (layOut indent n (line :: more) ++ rest) =
      tokensFrom state (line.toList ++ '\n' :: (layOut indent (n + 1) more ++ rest)) := by
  have hText : layOut indent n (line :: more) ++ rest =
      (indent n).blanks ++ (line.toList ++ '\n' :: (layOut indent (n + 1) more ++ rest)) := by
    simp [layOut]
  rw [hText, tokensFrom_indentation]

/-- **Written lines derive their contents.** The reader starts at the beginning of
a line and comes out at the beginning of another, whatever follows there. -/
theorem Markup.derives_contents {scope : Scope} (markup : Markup scope)
    (indent : Nat → Indentation) (n : Nat) (rest : List Char) :
    ∃ ts, (markup.contents n).Derives scope ts ∧
      tokensFrom (lineStart n) (layOut indent n markup.lines ++ rest) =
        ts ++ tokensFrom (lineStart (n + markup.lines.length)) rest := by
  induction markup generalizing n rest with
  | nil => exact ⟨[], .nil, rfl⟩
  | entry statement more ih =>
    obtain ⟨es, hEntry, hLine⟩ :=
      tokensFrom_statement statement n (.newline (layOut indent (n + 1) more.lines ++ rest))
    obtain ⟨ts, hMore, hRest⟩ := ih (n + 1) rest
    refine ⟨es ++ ts, .entry hEntry hMore, ?_⟩
    have hNext : n + (entry statement more).lines.length = n + 1 + more.lines.length := by
      simp only [lines, List.length_cons]
      omega
    rw [hNext, lines, tokensFrom_layOut_cons, hLine, tokensFrom_afterValue_newline, hRest,
      List.append_assoc]
  | @node scope title inside more ihInside ihMore =>
    -- the line of the closing brace, and the one behind it
    obtain ⟨m, hm⟩ : ∃ m, m = n + 1 + inside.lines.length := ⟨_, rfl⟩
    obtain ⟨ts, hMore, hRest⟩ := ihMore (m + 1) rest
    obtain ⟨stop, hEnd, hStop⟩ :=
      tokensFrom_closing m ('\n' :: (layOut indent (m + 1) more.lines ++ rest))
    obtain ⟨body, hInside, hBody⟩ :=
      ihInside (n + 1) (layOut indent m ("\x7d" :: more.lines) ++ rest)
    obtain ⟨header, start, hHeader, hKind, hStart, hTitle⟩ := tokensFrom_title title n
      ('\n' :: (layOut indent (n + 1) (inside.lines ++ "\x7d" :: more.lines) ++ rest))
    have hNext : n + (node title inside more).lines.length = m + 1 + more.lines.length := by
      simp only [lines, List.length_cons, List.length_append]
      omega
    refine ⟨header ++ start :: (body ++ stop :: ts), ?_, ?_⟩
    · rw [contents, ← hm, ← hStart]
      exact .node hHeader hKind (hStart ▸ hInside) hEnd hMore
    · rw [hNext, lines, tokensFrom_layOut_cons, hTitle, tokensFrom_newline, layOut_append,
        List.append_assoc, ← hm, hBody, ← hm, tokensFrom_layOut_cons]
      have hBrace : "\x7d".toList ++ '\n' :: (layOut indent (m + 1) more.lines ++ rest) =
          '\x7d' :: '\n' :: (layOut indent (m + 1) more.lines ++ rest) := rfl
      rw [hBrace, hStop, tokensFrom_newline, hRest]
      simp

theorem tokensFrom_nil (state : State) : tokensFrom state [] = [] := by
  simp [tokensFrom, events]

/-- A source whose tokens derive contents has the outline of these contents. -/
theorem parse_of_derives {contents : Contents} {source : List Char}
    (h : contents.Derives .document (tokensFrom (lineStart 1) source)) :
    Outline.parse (String.ofList source) = .ok contents.outline := by
  have hSource : tokenize (String.ofList source) = tokensFrom (lineStart 1) source := by
    show tokensFrom {} (String.ofList source).toList = _
    rw [String.toList_ofList]
    rfl
  rw [Outline.parse, hSource]
  exact Outline.build_of_derives h

/-- **Documents can be read back.** Whatever the indentation of its lines, a
written document has the outline it stands for. -/
theorem Markup.parse_print (document : Markup .document) (indent : Nat → Indentation) :
    Outline.parse (document.print indent) = .ok (document.contents 1).outline := by
  obtain ⟨ts, hDerives, hTokens⟩ := document.derives_contents indent 1 []
  rw [tokensFrom_nil, List.append_nil, List.append_nil] at hTokens
  exact parse_of_derives (hTokens ▸ hDerives)

example :
    Markup.print
        (.node (.definition ⟨"Row", rfl⟩ ⟨"Item", rfl⟩)
          (.entry (.id ⟨"first", rfl⟩)
            (.node (.element ⟨"Label", rfl⟩) .nil
              (.entry (.delegate ⟨"cell", none, ⟨rfl, rfl, by simp⟩, by decide⟩ ⟨"Cell", rfl⟩)
                .nil)))
          .nil)
        (fun _ => ⟨[' '], by simp [Text.isBlank], by decide⟩) =
      " Row @ Item \x7b\n id: first\n Label \x7b\n \x7d\n cell: Cell\n \x7d\n" := by
  rfl

end BindingMarkup
