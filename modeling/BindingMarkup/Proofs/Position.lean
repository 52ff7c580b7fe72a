import BindingMarkup.Proofs.Trim
import BindingMarkup.Token.Lexer
import Mathlib.Tactic.SplitIfs

/-!
# BindingMarkup — where tokens stand

A token carries a line and a context, but no offset. Every token has one
all the same: an offset into the source from which its line, its context
and the text of its kind can be read off again.

Two laws of a single step carry this, and `faithful_step` has both:

* the line of the state and the line feeds still to come add up to the
  same number before and after a step. Line feeds are consumed by three
  kinds of steps, at a line feed, in a block comment and in a block; the
  law says that no other step swallows one.
* a step that notes a token notes it for the text in front of it, and
  remembers whether it was a colon.

`placed_events` follows the reader through the whole source, and
`exists_offsets` is the statement about `tokenize`.
-/

namespace BindingMarkup.Token

open Text

-- ---------------------------------------------------------------------------
-- Line feeds in the parts of a text
-- ---------------------------------------------------------------------------

/-- An expression stays on its line. -/
theorem not_mem_expressionSpan (inValue : Bool) (quote : Quote) (depth : Nat) (cs : List Char) :
    '\n' ∉ (expressionSpan inValue quote depth cs).1 := by
  induction cs generalizing quote depth with
  | nil => simp [expressionSpan]
  | cons c rest ih =>
    unfold expressionSpan
    split
    · simp
    · next hEnds =>
      have hBreak : '\n' ≠ c := by
        rintro rfl
        exact hEnds (by simp [endsExpression])
      simp [hBreak, ih]

/-- All line breaks are behind an expression. -/
theorem count_expressionSpan (inValue : Bool) (quote : Quote) (depth : Nat) (cs : List Char) :
    (expressionSpan inValue quote depth cs).2.count '\n' = cs.count '\n' := by
  have hAppend := congrArg (List.count '\n') (expressionSpan_append inValue quote depth cs)
  rw [List.count_append,
    List.count_eq_zero_of_not_mem (not_mem_expressionSpan inValue quote depth cs)] at hAppend
  omega

/-- A block leaves out its comments, and no comment holds a line feed. -/
theorem count_blockSpan (comment : Bool) (quote : Quote) (depth : Nat) (cs : List Char) :
    (blockSpan comment quote depth cs).1.count '\n' +
      (blockSpan comment quote depth cs).2.count '\n' = cs.count '\n' := by
  induction cs generalizing comment quote depth with
  | nil => rfl
  | cons c rest ih =>
    unfold blockSpan
    split
    · next hBreak =>
      -- a line break is kept, in a comment as well
      have := ih false .outside depth
      simp only [hBreak, List.count_cons_self]
      omega
    next hBreak =>
    have hSkip : (c :: rest).count '\n' = rest.count '\n' := List.count_cons_of_ne hBreak
    split
    · rw [hSkip, ih]
    split
    · rw [hSkip, ih]
    split
    · simp [hBreak]
    · have := ih false (quote.next c) (braceDepth quote depth c)
      simp only [List.count_cons_of_ne hBreak]
      omega

theorem count_commentSpan (cs : List Char) :
    (commentSpan cs).1.count '\n' + (commentSpan cs).2.count '\n' = cs.count '\n' := by
  rw [← List.count_append, commentSpan_append]

/-- Passing over characters of a class without the line break loses no line. -/
theorem count_dropWhile {p : Char → Bool} (hp : p '\n' = false) (cs : List Char) :
    (cs.dropWhile p).count '\n' = cs.count '\n' := by
  have hAppend := congrArg (List.count '\n') (List.takeWhile_append_dropWhile (p := p) (l := cs))
  have hNone : (cs.takeWhile p).count '\n' = 0 := by
    refine List.count_eq_zero_of_not_mem fun hMem => ?_
    rw [List.mem_takeWhile_imp hMem] at hp
    exact absurd hp (by simp)
  rw [List.count_append, hNone] at hAppend
  omega

/-- The end of a statement is on its line. -/
theorem count_terminate (state : State) (cs : List Char) :
    (state.terminate cs).2.count '\n' = cs.count '\n' := by
  unfold State.terminate
  split
  · rw [List.count_cons_of_ne (by decide)]
  · rfl

@[simp] theorem line_terminate (state : State) (cs : List Char) :
    (state.terminate cs).1.line = state.line := by
  unfold State.terminate
  split <;> rfl

/-- A semicolon behind a block is on the line where the block ends. -/
theorem count_skipTerminator (cs : List Char) :
    (skipTerminator cs).count '\n' = cs.count '\n' := by
  unfold skipTerminator
  split
  · next after hDrop =>
    have hCount := count_dropWhile (p := fun c => c == ' ' || c == '\t') (by decide) cs
    rw [hDrop, List.count_cons_of_ne (by decide)] at hCount
    exact hCount
  · rfl

-- ---------------------------------------------------------------------------
-- What a token says about the text in front of the reader
-- ---------------------------------------------------------------------------

/-- The text `cs` begins with a token of the kind. Only behind a colon, which
`afterColon` says, an expression may be a block. -/
def Kind.Begins (afterColon : Prop) (cs : List Char) : Kind → Prop
  | .element name => name ≠ "" ∧ name.toList = cs.takeWhile isElementChar
  | .expression text =>
    (text ≠ "" ∧ '\n' ∉ text.toList ∧ text.toList <+: cs ∧
        text.toList <+: trimEnd (cs.takeWhile (· != '\n'))) ∨
      (afterColon ∧ cs.head? = some '\x7b')
  | .scopeStart => cs.head? = some '\x7b'
  | .scopeEnd => cs.head? = some '\x7d'
  | .colon => cs.head? = some ':'
  | .isA => cs.head? = some '@'
  | .semicolon => cs.head? = some ';'

/-- What holds of a step of the reader at the text `start`. -/
structure Step.Faithful (state : State) (start : List Char) (next : Step) : Prop where
  line : next.state.line + next.rest.count '\n' = state.line + start.count '\n'
  token : ∀ t, next.event = some (.token t) →
    t.line = state.line ∧ t.context = contextOf start ∧
      (∀ c ∈ start.head?, isBlank c = false) ∧
      t.kind.Begins (state.valueNext = true) start ∧
      next.state.valueNext = (t.kind == .colon)
  silent : (∀ t, next.event ≠ some (.token t)) → next.state.valueNext = state.valueNext

/-- A step without a token is faithful when it counts its line feeds. -/
theorem faithful_of_silent {state : State} {start : List Char} {next : Step}
    (hEvent : ∀ t, next.event ≠ some (.token t))
    (hValue : next.state.valueNext = state.valueNext)
    (hLine : next.state.line + next.rest.count '\n' = state.line + start.count '\n') :
    next.Faithful state start where
  line := hLine
  token t ht := absurd ht (hEvent t)
  silent _ := hValue

/-- A step that notes a token at its start is faithful when the text begins with
such a token and the line feeds are counted. -/
theorem faithful_stepToken {state after : State} {kind : Kind} {c : Char}
    {more rest : List Char} (hBlank : isBlank c = false)
    (hBegins : kind.Begins (state.valueNext = true) (c :: more))
    (hLine : after.line + rest.count '\n' = state.line + (c :: more).count '\n') :
    (stepToken after kind state.line (c :: more) rest).Faithful state (c :: more) where
  line := hLine
  token t ht := by
    obtain rfl : _ = t := Event.token.inj (Option.some.inj ht)
    exact ⟨rfl, rfl, by simpa using hBlank, hBegins, rfl⟩
  silent h := absurd rfl (h _)

/-- A mark begins its token. -/
theorem begins_of_ofMark? {kind : Kind} {c : Char} (hMark : Kind.ofMark? c = some kind)
    (afterColon : Prop) (rest : List Char) :
    isBlank c = false ∧ kind.Begins afterColon (c :: rest) := by
  unfold Kind.ofMark? at hMark
  split_ifs at hMark with h h h h h <;>
    cases hMark <;>
    exact ⟨by rw [h]; decide, congrArg some h⟩

/-- A mark is noted where it stands. -/
theorem faithful_stepMark {state : State} {kind : Kind} {c : Char} (rest : List Char)
    (hMark : Kind.ofMark? c = some kind) :
    (stepMark state kind c rest).Faithful state (c :: rest) := by
  have hBreak : c ≠ '\n' := by
    rintro rfl
    simp [Kind.ofMark?] at hMark
  obtain ⟨hBlank, hBegins⟩ := begins_of_ofMark? hMark (state.valueNext = true) rest
  exact faithful_stepToken hBlank hBegins (by rw [List.count_cons_of_ne hBreak])

theorem stepElement_eq (state : State) (start : List Char) :
    stepElement state start =
      stepToken (state.terminate (start.dropWhile isElementChar)).1
        (.element (String.ofList (start.takeWhile isElementChar))) state.line start
        (state.terminate (start.dropWhile isElementChar)).2 := rfl

/-- The name of a type is noted where it begins. -/
theorem faithful_stepElement (state : State) {c : Char} (hBlank : isBlank c = false)
    (hUpper : c.isUpper = true) (rest : List Char) :
    (stepElement state (c :: rest)).Faithful state (c :: rest) := by
  have hChar : isElementChar c = true := isElementChar_of_isUpper hUpper
  rw [stepElement_eq]
  refine faithful_stepToken hBlank ⟨?_, String.toList_ofList⟩ ?_
  · rw [List.takeWhile_cons_of_pos hChar]
    intro hEmpty
    simpa using congrArg String.toList hEmpty
  · rw [line_terminate, count_terminate, count_dropWhile (by decide)]

theorem stepBlock_eq (state : State) (start : List Char) :
    stepBlock state start =
      stepToken { state.pass (blockSpan false .outside 0 start).1 with colonOnLine := false }
        (.expression (String.ofList (blockValue (blockSpan false .outside 0 start).1))) state.line
        start (skipTerminator (blockSpan false .outside 0 start).2) := rfl

/-- A block is noted on the line where it begins, and the state goes on to the line where
it ends. -/
theorem faithful_stepBlock {state : State} (hValue : state.valueNext = true) (rest : List Char) :
    (stepBlock state ('\x7b' :: rest)).Faithful state ('\x7b' :: rest) := by
  have hCount := count_blockSpan false .outside 0 ('\x7b' :: rest)
  rw [stepBlock_eq]
  refine faithful_stepToken (by decide) (.inr ⟨hValue, rfl⟩) ?_
  rw [count_skipTerminator]
  simp only [State.pass]
  omega

/-- An expression takes the character it starts with, and its text begins with
it. -/
theorem expressionText_cons {c : Char} (hBlank : isBlank c = false) (hSemicolon : c ≠ ';')
    (more : List Char) :
    expressionText (c :: more) = c :: trimEnd (stripBack ';' (trimEnd more)) := by
  unfold expressionText trim
  rw [trimStart_cons_of_not_blank hBlank, trimEnd_cons_of_not_blank hBlank,
    stripBack_cons_of_ne hSemicolon, trimEnd_cons_of_not_blank hBlank]

/-- The text of an expression begins with its first character: only its end is trimmed. -/
theorem expressionText_isPrefix {c : Char} (hBlank : isBlank c = false) (more : List Char) :
    expressionText (c :: more) <+: c :: more := by
  unfold expressionText trim
  rw [trimStart_cons_of_not_blank hBlank]
  exact ((trimEnd_isPrefix _).trans (stripBack_isPrefix ';' _)).trans (trimEnd_isPrefix _)

theorem stepExpression_eq (state : State) {start : List Char}
    (hText : expressionText (expressionSpan state.colonOnLine .outside 0 start).1 ≠ []) :
    stepExpression state start =
      stepToken (state.terminate (expressionSpan state.colonOnLine .outside 0 start).2).1
        (.expression (String.ofList
          (expressionText (expressionSpan state.colonOnLine .outside 0 start).1))) state.line start
        (state.terminate (expressionSpan state.colonOnLine .outside 0 start).2).2 := by
  unfold stepExpression
  exact if_neg (by simpa using hText)

/-- An expression takes a first character that does not end it. -/
theorem exists_expressionSpan_eq_cons {inValue : Bool} {c : Char} {rest : List Char}
    (hEnds : endsExpression inValue .outside 0 c rest = false) :
    ∃ more, (expressionSpan inValue .outside 0 (c :: rest)).1 = c :: more := by
  rw [expressionSpan, if_neg (by simp [hEnds])]
  exact ⟨_, rfl⟩

/-- An expression is noted where it begins. -/
theorem faithful_stepExpression (state : State) {c : Char} {rest : List Char}
    (hBlank : isBlank c = false) (hSemicolon : c ≠ ';')
    (hEnds : endsExpression state.colonOnLine .outside 0 c rest = false) :
    (stepExpression state (c :: rest)).Faithful state (c :: rest) := by
  have hAppend := expressionSpan_append state.colonOnLine .outside 0 (c :: rest)
  have hBreak := not_mem_expressionSpan state.colonOnLine .outside 0 (c :: rest)
  obtain ⟨more, hTaken⟩ := exists_expressionSpan_eq_cons hEnds
  -- the text is what the span took less its end, so it stands where the token does
  have hPrefix : expressionText (c :: more) <+: c :: rest := by
    refine (expressionText_isPrefix hBlank more).trans ?_
    rw [← hTaken]
    exact ⟨_, hAppend⟩
  have hNoBreak : '\n' ∉ expressionText (c :: more) := fun hMem =>
    hBreak (hTaken ▸ (expressionText_isPrefix hBlank more).subset hMem)
  have hText := expressionText_cons hBlank hSemicolon more
  rw [stepExpression_eq state (by rw [hTaken, hText]; simp), hTaken]
  refine faithful_stepToken hBlank (.inl ⟨?_, ?_, ?_, ?_⟩) ?_
  · rw [hText]
    intro hEmpty
    simpa using congrArg String.toList hEmpty
  · rwa [String.toList_ofList]
  · rwa [String.toList_ofList]
  · rw [String.toList_ofList]
    -- the context is cut at the line break, and no line break is in the text
    refine prefix_trimEnd (trimEnd_trimEnd _) ?_
    obtain ⟨after, hAfter⟩ := hPrefix
    rw [← hAfter, List.takeWhile_append_of_pos]
    · exact List.prefix_append _ _
    · intro d hd
      exact bne_iff_ne.mpr fun hEq => hNoBreak (hEq ▸ hd)
  · rw [line_terminate, count_terminate, count_expressionSpan]

/-- **Every step is faithful.** -/
theorem faithful_step (state : State) (c : Char) (rest : List Char) :
    (step state c rest).Faithful state (c :: rest) := by
  unfold step
  split
  · next hBreak =>
    refine faithful_of_silent (by simp) rfl ?_
    simp only [State.pass, hBreak, List.count_cons_self, List.count_nil]
    omega
  next hBreak =>
  have hSkip : (c :: rest).count '\n' = rest.count '\n' := List.count_cons_of_ne hBreak
  split
  · refine faithful_of_silent (by simp) rfl ?_
    rw [hSkip]
    exact congrArg (state.line + ·) (count_dropWhile (by decide) rest)
  next hComment =>
  split
  · next hBlock =>
    -- the mark that opens the comment holds no line feed
    refine faithful_of_silent (by simp) rfl ?_
    obtain ⟨after, rfl⟩ : ∃ after, rest = '*' :: after := by
      cases rest with
      | nil => exact absurd hBlock.2 (by simp)
      | cons d after => exact ⟨after, by simpa using hBlock.2⟩
    have hCount := count_commentSpan after
    simp only [State.pass, List.drop_succ_cons, List.drop_zero]
    rw [hSkip, List.count_cons_of_ne (by decide)]
    omega
  split
  · next hBrace =>
    rw [hBrace.1]
    exact faithful_stepBlock hBrace.2 rest
  split
  · next hMark => exact faithful_stepMark rest hMark
  next hMark =>
  split
  · exact faithful_of_silent (by simp) rfl (by rw [hSkip])
  next hNoBlank =>
  have hBlank : isBlank c = false := by simpa using hNoBlank
  split
  · next hUpper =>
    rw [Bool.and_eq_true] at hUpper
    exact faithful_stepElement state hBlank hUpper.1 rest
  split
  · have hSemicolon : c ≠ ';' := by
      rintro rfl
      simp [Kind.ofMark?] at hMark
    exact faithful_stepExpression state hBlank hSemicolon
      (endsExpression_eq_false hBreak hComment hMark)
  · exact faithful_of_silent (by simp) rfl (by rw [hSkip])

-- ---------------------------------------------------------------------------
-- Offsets
-- ---------------------------------------------------------------------------

/-- The token stands at the offset `p` of the source; `previous` is the token
before it. -/
structure StandsAt (source : List Char) (previous : Option Token) (t : Token) (p : Nat) :
    Prop where
  line_eq : t.line = 1 + (source.take p).count '\n'
  context_eq : t.context.toList = trimEnd ((source.drop p).takeWhile (· != '\n'))
  not_blank : ∀ c ∈ (source.drop p).head?, isBlank c = false
  begins : t.kind.Begins (previous.map kind = some .colon) (source.drop p)

/-- A token does not begin at the end of the text. -/
theorem Kind.Begins.ne_nil {afterColon : Prop} {cs : List Char} {kind : Kind}
    (h : kind.Begins afterColon cs) : cs ≠ [] := by
  rintro rfl
  cases kind with
  | element name =>
    obtain ⟨hName, hNil⟩ := h
    exact hName (String.toList_eq_nil_iff.mp hNil)
  | expression text =>
    rcases h with ⟨hText, -, hPrefix, -⟩ | ⟨-, hHead⟩
    · exact hText (String.toList_eq_nil_iff.mp (List.prefix_nil.mp hPrefix))
    · exact absurd hHead (by simp)
  | _ => exact absurd h (by simp [Kind.Begins])

/-- A token starts with a character that is no blank. -/
theorem StandsAt.exists_drop_eq_cons {source : List Char} {previous : Option Token} {t : Token}
    {p : Nat} (h : StandsAt source previous t p) :
    ∃ c rest, source.drop p = c :: rest ∧ isBlank c = false := by
  obtain ⟨c, rest, hDrop⟩ := List.exists_cons_of_ne_nil h.begins.ne_nil
  exact ⟨c, rest, hDrop, h.not_blank c (by rw [hDrop]; rfl)⟩

/-- The tokens stand at the offsets, one by one, the first at `bound` or later. -/
inductive Placed (source : List Char) : Option Token → Nat → List Token → List Nat → Prop where
  | nil {previous : Option Token} {bound : Nat} : Placed source previous bound [] []
  | cons {previous : Option Token} {bound p : Nat} {t : Token} {ts : List Token} {ps : List Nat}
      (hBound : bound ≤ p) (hAt : StandsAt source previous t p)
      (hRest : Placed source (some t) (p + 1) ts ps) :
      Placed source previous bound (t :: ts) (p :: ps)

/-- A bound can be lowered. -/
theorem Placed.mono {source : List Char} {previous : Option Token} {bound lower : Nat}
    {ts : List Token} {ps : List Nat} (h : Placed source previous bound ts ps)
    (hLower : lower ≤ bound) : Placed source previous lower ts ps := by
  cases h with
  | nil => exact .nil
  | cons hBound hAt hRest => exact .cons (Nat.le_trans hLower hBound) hAt hRest

/-- Every token has one offset. -/
theorem Placed.length_eq {source : List Char} {previous : Option Token} {bound : Nat}
    {ts : List Token} {ps : List Nat} (h : Placed source previous bound ts ps) :
    ps.length = ts.length := by
  induction h with
  | nil => rfl
  | cons _ _ _ ih => rw [List.length_cons, List.length_cons, ih]

/-- All offsets are behind the bound. -/
theorem Placed.bound_le {source : List Char} {previous : Option Token} {bound : Nat}
    {ts : List Token} {ps : List Nat} (h : Placed source previous bound ts ps) :
    ∀ p ∈ ps, bound ≤ p := by
  induction h with
  | nil => simp
  | cons hBound _ _ ih =>
    intro q hq
    rcases List.mem_cons.mp hq with rfl | hMem
    · exact hBound
    · have := ih q hMem
      omega

/-- The offsets increase. -/
theorem Placed.pairwise {source : List Char} {previous : Option Token} {bound : Nat}
    {ts : List Token} {ps : List Nat} (h : Placed source previous bound ts ps) :
    ps.Pairwise (· < ·) := by
  induction h with
  | nil => exact .nil
  | cons _ _ hRest ih => exact .cons (fun q hq => hRest.bound_le q hq) ih

/-- Every token of the list stands at its offset, behind the token before it. -/
theorem Placed.standsAt {source : List Char} {previous : Option Token} {bound : Nat}
    {ts : List Token} {ps : List Nat} (h : Placed source previous bound ts ps) {i : Nat}
    {t : Token} {p : Nat} (ht : ts[i]? = some t) (hp : ps[i]? = some p) :
    StandsAt source ((ts.take i).getLast?.or previous) t p := by
  induction h generalizing i with
  | nil => simp at ht
  | cons _ hAt _ ih =>
    cases i with
    | zero =>
      obtain rfl := Option.some.inj ht
      obtain rfl := Option.some.inj hp
      exact hAt
    | succ i =>
      have hPrevious := ih ht hp
      rw [List.take_succ_cons, List.getLast?_cons]
      cases hLast : (List.take i _).getLast? with
      | none => simpa [hLast] using hPrevious
      | some last => simpa [hLast] using hPrevious

theorem events_cons (state : State) (c : Char) (rest : List Char) :
    events state (c :: rest) =
      ((step state c rest).event.toList ++
          (events (step state c rest).state (step state c rest).rest).1,
        (events (step state c rest).state (step state c rest).rest).2) := by
  rw [events]

/-- The tokens of a text that is read from the given state on. -/
def tokensFrom (state : State) (cs : List Char) : List Token :=
  (events state cs).1.filterMap Event.token?

/-- The tokens of a text are that of the next step, if there is one, and those of the rest.
-/
theorem tokensFrom_cons (state : State) (c : Char) (rest : List Char) :
    tokensFrom state (c :: rest) =
      (step state c rest).event.toList.filterMap Event.token? ++
        tokensFrom (step state c rest).state (step state c rest).rest := by
  unfold tokensFrom
  rw [events_cons, List.filterMap_append]

/-- The reader moves from one place of the source to the next: it leaves at least
one character behind and knows its line. -/
theorem exists_taken {state : State} {before : List Char} (c : Char) (rest : List Char)
    (hLine : state.line = 1 + before.count '\n') :
    ∃ taken, c :: rest = c :: taken ++ (step state c rest).rest ∧
      (step state c rest).state.line = 1 + (before ++ c :: taken).count '\n' := by
  obtain ⟨taken, hTaken⟩ := step_rest_suffix state c rest
  refine ⟨taken, by rw [List.cons_append, hTaken], ?_⟩
  have hStep := (faithful_step state c rest).line
  have hCount : (c :: rest).count '\n' =
      (c :: taken).count '\n' + (step state c rest).rest.count '\n' := by
    rw [← List.count_append, List.cons_append, hTaken]
  rw [List.count_append]
  omega

/-- The run of the reader from a place of the source on. -/
theorem placed_events {source before cs : List Char} {state : State} {previous : Option Token}
    (hSource : source = before ++ cs) (hLine : state.line = 1 + before.count '\n')
    (hValue : state.valueNext = true ↔ previous.map kind = some .colon) :
    (∃ ps, Placed source previous before.length (tokensFrom state cs) ps) ∧
      (events state cs).2.line = 1 + source.count '\n' := by
  induction hLength : cs.length using Nat.strong_induction_on
    generalizing before cs state previous with
  | _ n ih =>
  cases cs with
  | nil =>
    simp only [List.append_nil] at hSource
    refine ⟨⟨[], ?_⟩, ?_⟩
    · rw [tokensFrom, events]
      exact .nil
    · rw [events, hLine, hSource]
  | cons c rest =>
    obtain ⟨taken, hTaken, hNextLine⟩ := exists_taken c rest hLine
    have hShorter : (step state c rest).rest.length < n := by
      have := length_step_rest_le state c rest
      rw [← hLength, List.length_cons]
      omega
    have hNextSource : source = before ++ c :: taken ++ (step state c rest).rest := by
      rw [hSource, hTaken, List.append_assoc]
    have hStep := faithful_step state c rest
    -- a step takes at least one character, so that offsets increase
    have hFar : before.length + 1 ≤ (before ++ c :: taken).length := by
      simp
    rw [tokensFrom_cons, events_cons]
    by_cases hToken : ∃ t, (step state c rest).event = some (.token t)
    · obtain ⟨t, ht⟩ := hToken
      obtain ⟨hLineEq, hContext, hBlank, hBegins, hColon⟩ := hStep.token t ht
      have hNextValue : (step state c rest).state.valueNext = true ↔
          (some t).map kind = some .colon := by
        rw [hColon, beq_iff_eq, Option.map_some, Option.some.injEq]
      obtain ⟨⟨ps, hPlaced⟩, hLast⟩ := ih _ hShorter hNextSource hNextLine hNextValue rfl
      refine ⟨⟨before.length :: ps, ?_⟩, hLast⟩
      rw [ht]
      refine .cons (Nat.le_refl _) ⟨?_, ?_, ?_, ?_⟩ (hPlaced.mono hFar)
      · rw [hLineEq, hLine, hSource, List.take_left]
      · rw [hContext, hSource, List.drop_left, contextOf, String.toList_ofList]
        rfl
      · rwa [hSource, List.drop_left]
      · rw [hSource, List.drop_left]
        rw [← propext hValue]
        exact hBegins
    · -- nothing is noted, and the last token stays what it was
      have hSilent : ∀ t, (step state c rest).event ≠ some (.token t) := fun t ht => hToken ⟨t, ht⟩
      have hNextValue : (step state c rest).state.valueNext = true ↔
          previous.map kind = some .colon := by
        rw [hStep.silent hSilent, hValue]
      have hNone : (step state c rest).event.toList.filterMap Event.token? = [] := by
        cases hEvent : (step state c rest).event with
        | none => rfl
        | some event =>
          cases event with
          | token t => exact absurd hEvent (hSilent t)
          | skipped line d => rfl
      obtain ⟨⟨ps, hPlaced⟩, hLast⟩ := ih _ hShorter hNextSource hNextLine hNextValue rfl
      refine ⟨⟨ps, ?_⟩, hLast⟩
      rw [hNone, List.nil_append]
      exact hPlaced.mono (by omega)

/-- The run of the reader over a whole source. -/
theorem placed_source (source : String) :
    (∃ ps, Placed source.toList none 0 (tokenize source) ps) ∧
      (read source).lines = 1 + source.toList.count '\n' :=
  @placed_events source.toList [] source.toList {} none rfl rfl (by simp)

/-- **Token positions are exact.** Every source has a strictly increasing
sequence of offsets, one for each of its tokens, at which the tokens stand, and
the last line is counted. -/
theorem exists_offsets (source : String) :
    ∃ offsets : List Nat,
      offsets.length = (tokenize source).length ∧
      offsets.Pairwise (· < ·) ∧
      (∀ i t p, (tokenize source)[i]? = some t → offsets[i]? = some p →
        StandsAt source.toList ((tokenize source).take i).getLast? t p) ∧
      (read source).lines = 1 + source.toList.count '\n' := by
  obtain ⟨⟨offsets, hPlaced⟩, hLines⟩ := placed_source source
  refine ⟨offsets, hPlaced.length_eq, hPlaced.pairwise, ?_, hLines⟩
  intro i t p ht hp
  simpa using hPlaced.standsAt ht hp

end BindingMarkup.Token
