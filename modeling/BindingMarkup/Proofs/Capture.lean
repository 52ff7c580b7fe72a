import BindingMarkup.Proofs.RoundTrip

/-!
# BindingMarkup — the capture of braced values

A block behind a colon is taken whole, up to the brace that closes it, and
becomes one expression. Which brace that is depends on what counts as text
and what as a comment, and there are two views of it:

* `Items` — the view of the reader. Strings are closed on their line, line
  comments hold anything, and every other brace counts.
* `Written` — the view of an author, who also writes block comments. The
  reader does not know block comments inside a block: it reads what they
  hold like the rest of the block. `Written` therefore asks that their
  content is made of items itself, and then both views agree on the end of
  the block (`Written.items`).

`tokensFrom_braced` says what the reader makes of a block, from every state
in which a value is due. Behind the block the reader is at the start of a
statement, on a later line; what it notes from there on differs from the
tokens of a document of its own in the lines only (`tokensFrom_shift`).
`tokenize_written` is the statement about documents: the kinds of their
tokens do not depend on what the comments of a block hold.
-/

namespace BindingMarkup.Token

open Text

-- ---------------------------------------------------------------------------
-- What stands between braces
-- ---------------------------------------------------------------------------

/-- What may stand between the braces of a block, with what is kept of it: blocks,
strings that are closed on their line, line comments, which fall away, and
characters that are no quote and no brace and start no line comment. -/
inductive Items : List Char → List Char → Prop where
  | nil : Items [] []
  | block {inner kept rest more : List Char} (hInner : Items inner kept)
      (hRest : Items rest more) :
      Items ('\x7b' :: (inner ++ '\x7d' :: rest)) ('\x7b' :: (kept ++ '\x7d' :: more))
  | string {mark : Char} {quoted rest more : List Char} (hMark : isQuote mark = true)
      (hQuoted : StringEnd mark quoted) (hBreak : '\n' ∉ quoted) (hRest : Items rest more) :
      Items (mark :: (quoted ++ rest)) (mark :: (quoted ++ more))
  | comment {text rest more : List Char} (hBreak : '\n' ∉ text)
      (hRest : Items ('\n' :: rest) more) : Items ('/' :: '/' :: (text ++ '\n' :: rest)) more
  | plain {c : Char} {rest more : List Char} (hQuote : isQuote c = false) (hOpen : c ≠ '\x7b')
      (hClose : c ≠ '\x7d') (hComment : ¬(c = '/' ∧ rest.head? = some '/'))
      (hRest : Items rest more) : Items (c :: rest) (c :: more)

/-- The same as an author sees it, with block comments. What a block comment holds is
made of items, and no slash follows it. -/
inductive Written : List Char → List Char → Prop where
  | nil : Written [] []
  | block {inner kept rest more : List Char} (hInner : Written inner kept)
      (hRest : Written rest more) :
      Written ('\x7b' :: (inner ++ '\x7d' :: rest)) ('\x7b' :: (kept ++ '\x7d' :: more))
  | string {mark : Char} {quoted rest more : List Char} (hMark : isQuote mark = true)
      (hQuoted : StringEnd mark quoted) (hBreak : '\n' ∉ quoted) (hRest : Written rest more) :
      Written (mark :: (quoted ++ rest)) (mark :: (quoted ++ more))
  | lineComment {text rest more : List Char} (hBreak : '\n' ∉ text)
      (hRest : Written ('\n' :: rest) more) :
      Written ('/' :: '/' :: (text ++ '\n' :: rest)) more
  | blockComment {text kept rest more : List Char} (hClosed : ¬['*', '/'] <:+: text)
      (hText : Items text kept) (hNext : rest.head? ≠ some '/') (hRest : Written rest more) :
      Written ('/' :: '*' :: (text ++ '*' :: '/' :: rest))
        ('/' :: '*' :: (kept ++ '*' :: '/' :: more))
  | plain {c : Char} {rest more : List Char} (hQuote : isQuote c = false) (hOpen : c ≠ '\x7b')
      (hClose : c ≠ '\x7d')
      (hComment : c = '/' → rest.head? ≠ some '/' ∧ rest.head? ≠ some '*')
      (hRest : Written rest more) : Written (c :: rest) (c :: more)

/-- Items of a block can be put behind each other, unless two slashes meet. -/
theorem Items.append {front kept back more : List Char} (h : Items front kept)
    (hBack : Items back more) (hSlash : back.head? ≠ some '/') :
    Items (front ++ back) (kept ++ more) := by
  induction h with
  | nil => exact hBack
  | block hInner _ _ ih => simpa using Items.block hInner ih
  | string hMark hQuoted hBreak _ ih => simpa using Items.string hMark hQuoted hBreak ih
  | comment hBreak _ ih => simpa using Items.comment hBreak ih
  | plain hQuote hOpen hClose hComment _ ih =>
    refine .plain hQuote hOpen hClose (fun hHere => ?_) ih
    exact head?_append_ne (fun hHead => hComment ⟨hHere.1, hHead⟩) hSlash hHere.2

/-- **Both views agree.** -/
theorem Written.items {text kept : List Char} (h : Written text kept) : Items text kept := by
  induction h with
  | nil => exact .nil
  | block _ _ ihInner ihRest => exact .block ihInner ihRest
  | string hMark hQuoted hBreak _ ih => exact .string hMark hQuoted hBreak ih
  | lineComment hBreak _ ih => exact .comment hBreak ih
  | blockComment _ hText hNext _ ih =>
    -- the two marks are plain characters to the reader
    have hEnd : Items ('*' :: '/' :: _) ('*' :: '/' :: _) :=
      .plain (by decide) (by decide) (by decide) (by simp)
        (.plain (by decide) (by decide) (by decide) (fun hHere => hNext hHere.2) ih)
    exact .plain (by decide) (by decide) (by decide) (by simp)
      (.plain (by decide) (by decide) (by decide) (by simp) (hText.append hEnd (by simp)))
  | plain hQuote hOpen hClose hComment _ ih =>
    exact .plain hQuote hOpen hClose (fun hHere => (hComment hHere.1).1 hHere.2) ih

-- ---------------------------------------------------------------------------
-- The span of a block
-- ---------------------------------------------------------------------------

/-- A block keeps a plain character and goes on. -/
theorem blockSpan_plain {c : Char} {rest : List Char} (hQuote : isQuote c = false)
    (hOpen : c ≠ '\x7b') (hClose : c ≠ '\x7d') (hComment : ¬(c = '/' ∧ rest.head? = some '/'))
    (depth : Nat) :
    blockSpan false .outside depth (c :: rest) =
      (c :: (blockSpan false .outside depth rest).1, (blockSpan false .outside depth rest).2) := by
  by_cases hBreak : c = '\n'
  · rw [hBreak, blockSpan_break]
  · simp [blockSpan, braceDepth, Quote.next, hBreak, hQuote, hOpen, hClose,
      startsComment_eq_false hComment]

/-- A string is passed over up to its closing mark. -/
theorem blockSpan_string {mark : Char} {quoted : List Char} (h : StringEnd mark quoted)
    (hMark : mark ≠ '\\') (hBreak : '\n' ∉ quoted) (depth : Nat) (tail : List Char) :
    blockSpan false (.inside mark) depth (quoted ++ tail) =
      (quoted ++ (blockSpan false .outside depth tail).1,
        (blockSpan false .outside depth tail).2) := by
  induction h with
  | close =>
    have hHere : mark ≠ '\n' := fun hEq => hBreak (hEq ▸ List.mem_cons_self)
    simp [blockSpan, braceDepth, Quote.next, hHere, hMark]
  | @escape c rest _ ih =>
    simp only [List.mem_cons, not_or] at hBreak
    have hHere : c ≠ '\n' := Ne.symm hBreak.2.1
    simp [blockSpan, braceDepth, Quote.next, hHere, ih hBreak.2.2]
  | @plain c rest hOther hEscape _ ih =>
    simp only [List.mem_cons, not_or] at hBreak
    have hHere : c ≠ '\n' := Ne.symm hBreak.1
    simp [blockSpan, braceDepth, Quote.next, hHere, hOther, hEscape, ih hBreak.2]

/-- A comment falls away up to the end of its line. -/
theorem blockSpan_comment {text : List Char} (h : '\n' ∉ text) (depth : Nat) (rest : List Char) :
    blockSpan true .outside depth (text ++ '\n' :: rest) =
      blockSpan false .outside depth ('\n' :: rest) := by
  induction text with
  | nil => rw [List.nil_append, blockSpan_break, blockSpan_break]
  | cons c more ih =>
    simp only [List.mem_cons, not_or] at h
    have hHere : c ≠ '\n' := Ne.symm h.1
    simpa [blockSpan, hHere] using ih h.2

/-- **Items are passed over**, whatever depth they stand at. -/
theorem blockSpan_items {text kept : List Char} (h : Items text kept) (depth : Nat)
    {tail : List Char} (hSlash : tail.head? ≠ some '/') :
    blockSpan false .outside (depth + 1) (text ++ tail) =
      (kept ++ (blockSpan false .outside (depth + 1) tail).1,
        (blockSpan false .outside (depth + 1) tail).2) := by
  induction h generalizing depth tail with
  | nil => simp
  | @block inner kept rest more _ _ ihInner ihRest =>
    -- the closing brace finds one more than its own open, so the scan goes on behind it
    have hBrace : ('\x7d' :: (rest ++ tail)).head? ≠ some '/' := by simp
    have hInner := ihInner (depth + 1) hBrace
    have hRest := ihRest depth hSlash
    simp [blockSpan, braceDepth, Quote.next, isQuote, startsComment, hInner, hRest]
  | @string mark quoted rest more hMark hQuoted hBreak _ ih =>
    have hString := blockSpan_string hQuoted (ne_of_class hMark (by decide)) hBreak (depth + 1)
      (rest ++ tail)
    have hHere : mark ≠ '\n' := ne_of_class hMark (by decide)
    have hNoComment : startsComment (mark :: (quoted ++ (rest ++ tail))) = false :=
      startsComment_eq_false fun hSlash => ne_of_class hMark (by decide) hSlash.1
    have hOpen : mark ≠ '\x7b' := ne_of_class hMark (by decide)
    have hClose : mark ≠ '\x7d' := ne_of_class hMark (by decide)
    simp [blockSpan, braceDepth, Quote.next, hHere, hNoComment, hOpen, hClose, hMark, hString,
      ih depth hSlash]
  | @comment text rest more hBreak _ ih =>
    have hStart : blockSpan false .outside (depth + 1)
          ('/' :: '/' :: (text ++ '\n' :: (rest ++ tail))) =
        blockSpan true .outside (depth + 1) (text ++ '\n' :: (rest ++ tail)) := by
      simp [blockSpan, startsComment]
    have hRest := ih depth hSlash
    rw [List.cons_append] at hRest
    simp only [List.cons_append, List.append_assoc]
    rw [hStart, blockSpan_comment hBreak, hRest]
  | @plain c rest more hQuote hOpen hClose hComment _ ih =>
    have hNext : ¬(c = '/' ∧ (rest ++ tail).head? = some '/') := fun hHere =>
      head?_append_ne (fun hHead => hComment ⟨hHere.1, hHead⟩) hSlash hHere.2
    rw [List.cons_append, blockSpan_plain hQuote hOpen hClose hNext, ih depth hSlash]
    rfl

/-- A block is taken up to the brace that closes it. -/
theorem blockSpan_braced {inner kept : List Char} (h : Items inner kept) (after : List Char) :
    blockSpan false .outside 0 ('\x7b' :: (inner ++ '\x7d' :: after)) =
      ('\x7b' :: (kept ++ ['\x7d']), after) := by
  have hBrace : ('\x7d' :: after).head? ≠ some '/' := by simp
  have hInner := blockSpan_items h 0 hBrace
  have hClose : blockSpan false .outside 1 ('\x7d' :: after) = (['\x7d'], after) := by
    simp [blockSpan, startsComment]
  rw [Nat.zero_add, hClose] at hInner
  simp [blockSpan, braceDepth, Quote.next, isQuote, startsComment, hInner]

/-- Comments fall away without a line feed. -/
theorem count_items {inner kept : List Char} (h : Items inner kept) :
    kept.count '\n' = inner.count '\n' := by
  have hCount := count_blockSpan false .outside 0 ('\x7b' :: (inner ++ ['\x7d']))
  rw [blockSpan_braced h []] at hCount
  simpa using hCount

/-- How a block is read of which the given text is kept. -/
def blockKind (kept : List Char) : Kind :=
  .expression (String.ofList (blockValue ('\x7b' :: (kept ++ ['\x7d']))))

theorem label_blockKind (kept : List Char) : (blockKind kept).label = "EXPRESSION" := rfl

/-- **Where a value is due, a block becomes one expression**, and the reader goes on
behind it at the start of a statement. -/
theorem tokensFrom_braced {inner kept : List Char} (h : Items inner kept) (after : List Char)
    {state : State} (hValue : state.valueNext = true) :
    tokensFrom state ('\x7b' :: (inner ++ '\x7d' :: after)) =
      { kind := blockKind kept, line := state.line,
        context := contextOf ('\x7b' :: (inner ++ '\x7d' :: after)) } ::
        tokensFrom (lineStart (state.line + inner.count '\n')) (skipTerminator after) := by
  have hStep : step state '\x7b' (inner ++ '\x7d' :: after) =
      stepBlock state ('\x7b' :: (inner ++ '\x7d' :: after)) := by
    simp [step, hValue]
  rw [stepBlock_eq, blockSpan_braced h] at hStep
  rw [tokensFrom_of_token hStep]
  have hCount : ('\x7b' :: (kept ++ ['\x7d'])).count '\n' = inner.count '\n' := by
    simp [count_items h]
  simp only [State.pass, hCount]
  rfl

-- ---------------------------------------------------------------------------
-- Documents further down
-- ---------------------------------------------------------------------------

/-- The token `k` lines further down. -/
def shift (k : Nat) (t : Token) : Token :=
  { t with line := t.line + k }

def State.shift (k : Nat) (state : State) : State :=
  { state with line := state.line + k }

def Event.shift (k : Nat) : Event → Event
  | .token t => .token (t.shift k)
  | .skipped line c => .skipped (line + k) c

def Step.shift (k : Nat) (next : Step) : Step where
  event := next.event.map (Event.shift k)
  state := next.state.shift k
  rest := next.rest

/-- Passing over a text does not look at the number of the line. -/
theorem State.pass_shift (k : Nat) (state : State) (text : List Char) :
    (state.shift k).pass text = (state.pass text).shift k := by
  simp [State.pass, State.shift, Nat.add_right_comm]

theorem State.terminate_shift (k : Nat) (state : State) (cs : List Char) :
    (state.shift k).terminate cs =
      ((state.terminate cs).1.shift k, (state.terminate cs).2) := by
  unfold State.terminate
  split <;> rfl

/-- A name is read the same on every line. -/
theorem stepElement_shift (k : Nat) (state : State) (start : List Char) :
    stepElement (state.shift k) start = (stepElement state start).shift k := by
  rw [stepElement_eq, stepElement_eq, State.terminate_shift]
  rfl

/-- An expression is read the same on every line. -/
theorem stepExpression_shift (k : Nat) (state : State) (start : List Char) :
    stepExpression (state.shift k) start = (stepExpression state start).shift k := by
  have hColon : (state.shift k).colonOnLine = state.colonOnLine := rfl
  unfold stepExpression
  simp only [hColon, State.terminate_shift]
  split <;> rfl

/-- A block is read the same on every line, and it passes over its own lines. -/
theorem stepBlock_shift (k : Nat) (state : State) (start : List Char) :
    stepBlock (state.shift k) start = (stepBlock state start).shift k := by
  rw [stepBlock_eq, stepBlock_eq, State.pass_shift]
  rfl

/-- A step looks at no line number. -/
theorem step_shift (k : Nat) (state : State) (c : Char) (rest : List Char) :
    step (state.shift k) c rest = (step state c rest).shift k := by
  have hValue : (state.shift k).valueNext = state.valueNext := rfl
  -- no test of the step looks at the line
  unfold step
  rw [hValue]
  split
  · rw [State.pass_shift]
    rfl
  split
  · rfl
  split
  · simp only [State.pass_shift]
    rfl
  split
  · exact stepBlock_shift k state (c :: rest)
  split
  · rfl
  split
  · rfl
  split
  · exact stepElement_shift k state (c :: rest)
  split
  · exact stepExpression_shift k state (c :: rest)
  · rfl

/-- **Further down the tokens are the same**, but for their lines. -/
theorem tokensFrom_shift (k : Nat) (state : State) (cs : List Char) :
    tokensFrom (state.shift k) cs = (tokensFrom state cs).map (shift k) := by
  induction state, cs using events.induct with
  | case1 state => rw [tokensFrom_nil, tokensFrom_nil, List.map_nil]
  | case2 state c rest next _ _ _ ih =>
    have hNoted : (next.event.map (Event.shift k)).toList.filterMap Event.token? =
        (next.event.toList.filterMap Event.token?).map (shift k) := by
      rcases next.event with - | ⟨t⟩ | ⟨line, d⟩ <;> rfl
    rw [tokensFrom_cons, tokensFrom_cons, step_shift, List.map_append, ← ih, ← hNoted]
    rfl

/-- The kinds of the tokens of a text that is read from the given state on. -/
def kindsFrom (state : State) (cs : List Char) : List Kind :=
  (tokensFrom state cs).map kind

/-- At the start of a line the kinds do not depend on which line it is. -/
theorem kindsFrom_lineStart (n : Nat) (cs : List Char) :
    kindsFrom (lineStart n) cs = kindsFrom (lineStart 0) cs := by
  have hState : lineStart n = (lineStart 0).shift n := by
    simp [lineStart, State.shift]
  have hKind : kind ∘ shift n = kind := rfl
  rw [kindsFrom, hState, tokensFrom_shift, List.map_map, hKind, kindsFrom]

-- ---------------------------------------------------------------------------
-- Blocks in documents
-- ---------------------------------------------------------------------------

/-- Behind `front` a value is due, and up to there tokens of the given kinds are
noted, whatever block the value is. -/
def LeadsToValue (front : List Char) (kinds : List Kind) : Prop :=
  ∃ state : State, state.valueNext = true ∧
    ∀ rest, kindsFrom {} (front ++ '\x7b' :: rest) = kinds ++ kindsFrom state ('\x7b' :: rest)

/-- A value is due behind a key and its colon, if `front` leads to the start of a
statement. -/
theorem leadsToValue_key {front : List Char} {kinds : List Kind} {n : Nat}
    (hFront : ∀ rest, kindsFrom {} (front ++ rest) = kinds ++ kindsFrom (lineStart n) rest)
    {name : String} {params : Option String} (hKey : IsKey name params) :
    LeadsToValue (front ++ ((keyText name params).toList ++ [':', ' ']))
      (kinds ++ [.expression (keyText name params), .colon]) := by
  refine ⟨⟨n, true, true⟩, rfl, fun rest => ?_⟩
  obtain ⟨_, hName⟩ := tokensFrom_key hKey n (' ' :: '\x7b' :: rest)
  obtain ⟨_, hColon⟩ := tokensFrom_colon n ('\x7b' :: rest)
  have hStatement := hFront ((keyText name params).toList ++ ':' :: ' ' :: '\x7b' :: rest)
  rw [kindsFrom, kindsFrom, hName, hColon] at hStatement
  simpa [kindsFrom] using hStatement

/-- A block is one expression of its document, and what follows it is read as on its
own. -/
theorem kindsFrom_braced {front inner kept : List Char} {kinds : List Kind}
    (hFront : LeadsToValue front kinds) (h : Items inner kept) (after : List Char) :
    kindsFrom {} (front ++ '\x7b' :: (inner ++ '\x7d' :: after)) =
      kinds ++ blockKind kept :: kindsFrom {} (skipTerminator after) := by
  obtain ⟨state, hValue, hReads⟩ := hFront
  have hStart : kindsFrom {} (skipTerminator after) =
      kindsFrom (lineStart (state.line + inner.count '\n')) (skipTerminator after) :=
    (kindsFrom_lineStart 1 _).trans (kindsFrom_lineStart _ _).symm
  rw [hReads, hStart, kindsFrom, tokensFrom_braced h after hValue]
  rfl

/-- The kinds of the tokens of a text. -/
theorem map_kind_tokenize (cs : List Char) :
    (tokenize (String.ofList cs)).map kind = kindsFrom {} cs := by
  show kindsFrom {} (String.ofList cs).toList = kindsFrom {} cs
  rw [String.toList_ofList]

/-- What a document is made of, without texts, lines and contexts. -/
def labels (source : List Char) : List String :=
  (tokenize (String.ofList source)).map fun t => t.kind.label

theorem labels_eq (cs : List Char) : labels cs = (kindsFrom {} cs).map Kind.label := by
  rw [← map_kind_tokenize, List.map_map]
  rfl

/-- **Comments do not change the structure of a document.** Where a value is due, a
block becomes one expression; the other tokens are those of the text before and behind
it, whatever the block and its comments hold. -/
theorem tokenize_written {inner kept : List Char} (h : Written inner kept) (after : List Char) :
    (∀ state : State, state.valueNext = true →
      tokensFrom state ('\x7b' :: (inner ++ '\x7d' :: after)) =
        { kind := blockKind kept, line := state.line,
          context := contextOf ('\x7b' :: (inner ++ '\x7d' :: after)) } ::
          tokensFrom (lineStart (state.line + inner.count '\n')) (skipTerminator after)) ∧
    ∀ front kinds, LeadsToValue front kinds →
      (tokenize (String.ofList (front ++ '\x7b' :: (inner ++ '\x7d' :: after)))).map kind =
          kinds ++ blockKind kept :: (tokenize (String.ofList (skipTerminator after))).map kind ∧
        ∀ inner' kept', Written inner' kept' →
          labels (front ++ '\x7b' :: (inner ++ '\x7d' :: after)) =
            labels (front ++ '\x7b' :: (inner' ++ '\x7d' :: after)) := by
  refine ⟨fun state hValue => tokensFrom_braced h.items after hValue, fun front kinds hFront => ?_⟩
  rw [map_kind_tokenize, map_kind_tokenize]
  refine ⟨kindsFrom_braced hFront h.items after, fun inner' kept' h' => ?_⟩
  rw [labels_eq, labels_eq, kindsFrom_braced hFront h.items, kindsFrom_braced hFront h'.items,
    List.map_append, List.map_append, List.map_cons, List.map_cons, label_blockKind,
    label_blockKind]

/-- A line comment with a quote and a brace, a string with a brace, a block comment
with balanced braces and an empty block. -/
def commented : List Char :=
  ['/', '/', '\x27', '\x7d', '\n', '"', '\x7d', '"', '/', '*', '\x7b', '\x7d', '*', '/', '\x7b',
    '\x7d']

theorem tokenize_commented :
    Written commented (commented.drop 4) ∧
      LeadsToValue "A \x7b\nx: ".toList [.element "A", .scopeStart, .expression "x", .colon] ∧
      (tokenize (String.ofList
          ("A \x7b\nx: ".toList ++ '\x7b' :: (commented ++ '\x7d' :: [';', '\n', '\x7d'])))).map
            kind =
        [.element "A", .scopeStart, .expression "x", .colon] ++ blockKind (commented.drop 4) ::
          (tokenize (String.ofList (skipTerminator [';', '\n', '\x7d']))).map kind := by
  have hBlocks : Written ('/' :: '*' :: (['\x7b', '\x7d'] ++ '*' :: '/' :: ['\x7b', '\x7d']))
      ('/' :: '*' :: (['\x7b', '\x7d'] ++ '*' :: '/' :: ['\x7b', '\x7d'])) :=
    .blockComment (by decide) (.block .nil .nil) (by simp) (.block .nil .nil)
  have hString : StringEnd '"' ['\x7d', '"'] := .plain (by decide) (by decide) .close
  -- a comment with a quote and a brace, a string with a brace, and a block comment with braces
  have hWritten : Written ('/' :: '/' :: (['\x27', '\x7d'] ++ '\n' :: '"' :: (['\x7d', '"'] ++ _)))
      ('\n' :: '"' :: (['\x7d', '"'] ++ _)) :=
    .lineComment (by decide) (.plain (by decide) (by decide) (by decide) (by decide)
      (.string (by decide) hString (by decide) hBlocks))
  have hTitle : ∀ rest, kindsFrom {} ("A \x7b\n".toList ++ rest) =
      [.element "A", .scopeStart] ++ kindsFrom (lineStart 2) rest := by
    intro rest
    obtain ⟨_, hName⟩ := tokensFrom_typeName ⟨"A", by decide⟩ 1 ('\x7b' :: '\n' :: rest)
    obtain ⟨_, hOpening⟩ := tokensFrom_opening 1 ('\n' :: rest)
    rw [hOpening, tokensFrom_newline] at hName
    exact congrArg (List.map kind) hName
  have hKey : IsKey "x" none := ⟨by decide, by decide, by simp⟩
  have hFront := leadsToValue_key hTitle hKey
  exact ⟨hWritten, hFront, ((tokenize_written hWritten [';', '\n', '\x7d']).2 _ _ hFront).1⟩

-- the reader does not know block comments inside a block, and a brace in one closes it
example : (tokenize "A \x7b\n  x: \x7b /* \x7d */ \x7d\n\x7d\n").map kind =
    [.element "A", .scopeStart, .expression "x", .colon, .expression "/*", .scopeEnd,
      .scopeEnd] := by
  decide +kernel

end BindingMarkup.Token
