import BindingMarkup.Compile
import BindingMarkup.Proofs.Braces
import BindingMarkup.Proofs.RoundTrip
import BindingMarkup.Proofs.Vocabulary

/-!
# BindingMarkup — the node that is open at the end

A document that ends inside a node has two answers to the question which
node this is. The builder knows the innermost open node of its draft. The
editor finds the last open brace and takes the first word of its line.

Both look at the same brace, in every text without comments whose
expressions leave no brace open and are no blocks (`Token.IsLevel`):

* `braces_tokensFrom` — the braces of such a text are those of its tokens,
  and `exists_split` cuts the text at the brace of a given token.
* `Outline.Opened` — the tokens behind the brace of an open node are
  matched. Every move of a draft keeps this, and so does a run
  (`tracks_of_foldlM_step`).

The answers still differ where the line of the brace does not begin with
the name of the node, and `enclosingElement_of_parse` says exactly that.
-/

namespace BindingMarkup

open Text

/-- A text without the marks of comments. -/
structure Text.Uncommented (cs : List Char) : Prop where
  line : ¬['/', '/'] <:+: cs
  block : ¬['/', '*'] <:+: cs

/-- The rest of a text without comments has none. -/
theorem Text.Uncommented.of_suffix {cs after : List Char} (h : Uncommented cs)
    (hSuffix : after <:+ cs) : Uncommented after where
  line hComment := h.line (hComment.trans hSuffix.isInfix)
  block hComment := h.block (hComment.trans hSuffix.isInfix)

theorem Text.not_slash_of_not_infix {c d : Char} {rest : List Char}
    (h : ¬['/', d] <:+: c :: rest) : ¬(c = '/' ∧ rest.head? = some d) := by
  rintro ⟨rfl, hNext⟩
  obtain ⟨after, rfl⟩ := List.head?_eq_some_iff.mp hNext
  exact h (List.prefix_append ['/', d] after).isInfix

namespace Token

-- ---------------------------------------------------------------------------
-- The braces of tokens
-- ---------------------------------------------------------------------------

/-- The braces that a token stands for. -/
def Kind.braces : Kind → List Char
  | .scopeStart => ['\x7b']
  | .scopeEnd => ['\x7d']
  | .expression text => Text.braces text.toList
  | _ => []

/-- The braces of a list of tokens. -/
def bracesOf (ts : List Token) : List Char :=
  ts.flatMap (·.kind.braces)

theorem bracesOf_append (ts us : List Token) : bracesOf (ts ++ us) = bracesOf ts ++ bracesOf us :=
  List.flatMap_append

/-- A token that is no expression, or an expression whose braces have their partners
and that is no block. -/
def IsLevel (t : Token) : Prop :=
  ∀ text, t.kind = .expression text →
    Matched text.toList ∧ t.context.toList.head? ≠ some '\x7b'

/-- A token with matched braces opens and closes nothing. -/
theorem matched_of_isLevel {t : Token} (h : t.IsLevel) (hStart : t.kind ≠ .scopeStart)
    (hEnd : t.kind ≠ .scopeEnd) : Matched (bracesOf [t]) := by
  rw [bracesOf, List.flatMap_singleton]
  cases hKind : t.kind with
  | scopeStart => exact absurd hKind hStart
  | scopeEnd => exact absurd hKind hEnd
  | expression text => exact (h text hKind).1.braces
  | _ => exact .nil

/-- Taking off another character keeps the braces. -/
theorem braces_stripBack {c : Char} (h : isBrace c = false) (cs : List Char) :
    Text.braces (stripBack c cs) = Text.braces cs := by
  have hFront (cs : List Char) : Text.braces (stripFront c cs) = Text.braces cs := by
    cases cs with
    | nil => rfl
    | cons d rest =>
      rw [stripFront]
      split
      · next hEq => rw [hEq, braces_cons_of_not h]
      · rfl
  have hReverse (cs : List Char) : Text.braces cs.reverse = (Text.braces cs).reverse :=
    List.filter_reverse ..
  rw [stripBack, hReverse, hFront, hReverse, List.reverse_reverse]

theorem braces_expressionText (taken : List Char) :
    Text.braces (expressionText taken) = Text.braces taken := by
  rw [expressionText, braces_trimEnd, braces_stripBack (by decide), braces_trim]

/-- The end of a statement has no braces. -/
theorem braces_terminate (state : State) (cs : List Char) :
    Text.braces (state.terminate cs).2 = Text.braces cs := by
  unfold State.terminate
  split
  · rw [braces_cons_of_not (by decide)]
  · rfl

/-- A character that is no mark is no brace. -/
theorem isBrace_of_ofMark? {c : Char} (h : Kind.ofMark? c = none) : isBrace c = false := by
  rcases brace_cases c with rfl | rfl | hOther
  · exact absurd h (by decide)
  · exact absurd h (by decide)
  · exact hOther

/-- A mark has the brace that its token stands for. -/
theorem braces_of_ofMark? {kind : Kind} {c : Char} (h : Kind.ofMark? c = some kind) :
    kind.braces = Text.braces [c] := by
  unfold Kind.ofMark? at h
  split_ifs at h with hc hc hc hc hc <;> cases h <;> rw [hc] <;> rfl

/-- No character of a type name is a brace. -/
theorem isBrace_of_isElementChar {c : Char} (h : isElementChar c = true) : isBrace c = false := by
  rcases brace_cases c with rfl | rfl | hOther
  · exact absurd h (by decide)
  · exact absurd h (by decide)
  · exact hOther

-- ---------------------------------------------------------------------------
-- The braces of a text are those of its tokens
-- ---------------------------------------------------------------------------

/-- The braces that a step notes. -/
def Step.braces (next : Step) : List Char :=
  bracesOf (next.event.toList.filterMap Event.token?)

theorem braces_stepToken (state : State) (kind : Kind) (line : Nat) (start rest : List Char) :
    (stepToken state kind line start rest).braces = kind.braces := by
  simp [Step.braces, bracesOf, stepToken, Event.token?]

/-- A step that reads a type name passes over no brace. -/
theorem braces_stepElement (state : State) (start : List Char) :
    Text.braces start =
      (stepElement state start).braces ++ Text.braces (stepElement state start).rest := by
  have hName : Text.braces (start.takeWhile isElementChar) = [] :=
    braces_eq_nil fun c hc => isBrace_of_isElementChar (List.mem_takeWhile_imp hc)
  rw [stepElement_eq, braces_stepToken]
  simp only [stepToken, Kind.braces, braces_terminate, List.nil_append]
  conv_lhs =>
    rw [← List.takeWhile_append_dropWhile (p := isElementChar) (l := start), braces_append, hName,
      List.nil_append]

/-- The braces of an expression are those of the text it is read from. -/
theorem braces_stepExpression (state : State) (start : List Char) :
    Text.braces start =
      (stepExpression state start).braces ++ Text.braces (stepExpression state start).rest := by
  have hText := braces_expressionText (expressionSpan state.colonOnLine .outside 0 start).1
  have hStart : Text.braces start =
      Text.braces (expressionText (expressionSpan state.colonOnLine .outside 0 start).1) ++
        Text.braces (state.terminate (expressionSpan state.colonOnLine .outside 0 start).2).2 := by
    rw [hText, braces_terminate, ← braces_append, expressionSpan_append]
  rw [hStart]
  unfold stepExpression
  dsimp only
  split
  · next hEmpty =>
    rw [List.isEmpty_iff.mp hEmpty]
    rfl
  · rw [braces_stepToken, Kind.braces, String.toList_ofList]
    rfl

/-- A braced value is no level token. -/
theorem not_isLevel_of_block {state : State} (hValue : state.valueNext = true) (rest : List Char)
    (hLevel : ∀ t, (step state '\x7b' rest).event = some (.token t) → t.IsLevel) : False := by
  have hStep : step state '\x7b' rest = stepBlock state ('\x7b' :: rest) := by
    rw [step, if_neg (by decide), if_neg (by simp), if_neg (by simp), if_pos ⟨rfl, hValue⟩]
  rw [hStep, stepBlock_eq] at hLevel
  refine (hLevel _ rfl _ rfl).2 ?_
  simp only [contextOf, String.toList_ofList, firstLine]
  rw [List.takeWhile_cons_of_pos (by decide), trimEnd_cons_of_not_blank (by decide)]
  rfl

/-- The step lemma: the braces in front of the reader are those that it notes and those
that it leaves. -/
theorem braces_step {state : State} {c : Char} {rest : List Char}
    (hCode : Uncommented (c :: rest))
    (hLevel : ∀ t, (step state c rest).event = some (.token t) → t.IsLevel) :
    Text.braces (c :: rest) =
      (step state c rest).braces ++ Text.braces (step state c rest).rest := by
  -- a value in braces would be a token of another kind than the level's
  have hBlock : ¬(c = '\x7b' ∧ state.valueNext = true) := by
    rintro ⟨rfl, hValue⟩
    exact not_isLevel_of_block hValue rest hLevel
  have hLine := not_slash_of_not_infix hCode.line
  have hComment := not_slash_of_not_infix hCode.block
  by_cases hBreak : c = '\n'
  · rw [step, if_pos hBreak, hBreak]
    rfl
  rw [step, if_neg hBreak, if_neg hLine, if_neg hComment, if_neg hBlock]
  split
  · next kind hMark =>
    rw [← List.singleton_append, braces_append, ← braces_of_ofMark? hMark]
    exact congrArg (· ++ Text.braces rest) (braces_stepToken ..).symm
  next hMark =>
  have hOther : Text.braces (c :: rest) = Text.braces rest :=
    braces_cons_of_not (isBrace_of_ofMark? hMark) rest
  split
  · exact hOther
  split
  · exact braces_stepElement state (c :: rest)
  split
  · exact braces_stepExpression state (c :: rest)
  · exact hOther

/-- The braces of the tokens, step by step. -/
theorem bracesOf_tokensFrom_cons (state : State) (c : Char) (rest : List Char) :
    bracesOf (tokensFrom state (c :: rest)) = (step state c rest).braces ++
      bracesOf (tokensFrom (step state c rest).state (step state c rest).rest) := by
  rw [tokensFrom_cons, bracesOf, List.flatMap_append]
  rfl

/-- The run lemma: the braces of a text are those of its tokens. -/
theorem braces_tokensFrom {state : State} {cs : List Char} (hCode : Uncommented cs)
    (hLevel : ∀ t ∈ tokensFrom state cs, t.IsLevel) :
    Text.braces cs = bracesOf (tokensFrom state cs) := by
  induction state, cs using events.induct with
  | case1 state => rw [tokensFrom, events]; rfl
  | case2 state c rest next _ _ _ ih =>
    rw [tokensFrom_cons] at hLevel
    have hNoted (t : Token) (ht : (step state c rest).event = some (.token t)) : t.IsLevel :=
      hLevel t (List.mem_append_left _ (by simp [ht, Event.token?]))
    have hRest : Uncommented (step state c rest).rest :=
      hCode.of_suffix ((step_rest_suffix state c rest).trans (List.suffix_cons c rest))
    rw [braces_step hCode hNoted, bracesOf_tokensFrom_cons,
      ih hRest fun t ht => hLevel t (List.mem_append_right _ ht)]

/-- A place behind a step is a place of the text before it. -/
theorem exists_split_of_step {state : State} {c : Char} {rest front back : List Char}
    (hRest : (step state c rest).rest = front ++ back) :
    ∃ taken, c :: rest = taken ++ back ∧
      (step state c rest).state.line + front.count '\n' = state.line + taken.count '\n' := by
  obtain ⟨passed, hPassed⟩ := step_rest_suffix state c rest
  have hText : c :: rest = c :: (passed ++ front) ++ back := by
    rw [List.cons_append, List.append_assoc, ← hRest, hPassed]
  refine ⟨c :: (passed ++ front), hText, ?_⟩
  have hLine := (faithful_step state c rest).line
  rw [hRest, hText, List.count_append, List.count_append] at hLine
  omega

/-- An opening token is one brace. -/
theorem rest_of_scopeStart {state : State} {c : Char} {rest : List Char} {t : Token}
    (h : (step state c rest).event = some (.token t)) (hKind : t.kind = .scopeStart) :
    c = '\x7b' ∧ (step state c rest).rest = rest := by
  have hNoted := noted_of_step h
  rw [hKind] at hNoted
  cases hNoted with
  | mark hMark hBlock =>
    rw [step_of_mark hMark hBlock]
    exact ⟨Option.some.inj (begins_of_ofMark? hMark True rest).2, rfl⟩

/-- **The brace of a token.** A text can be cut at the brace of each opening token. What
stands behind it has the braces of the later tokens. -/
theorem exists_split {state : State} {cs : List Char} {before behind : List Token} {start : Token}
    (hTokens : tokensFrom state cs = before ++ start :: behind)
    (hKind : start.kind = .scopeStart) (hCode : Uncommented cs)
    (hLevel : ∀ t ∈ tokensFrom state cs, t.IsLevel) :
    ∃ front back, cs = front ++ '\x7b' :: back ∧ start.line = state.line + front.count '\n' ∧
      Text.braces back = bracesOf behind := by
  induction state, cs using events.induct generalizing before with
  | case1 state =>
    rw [tokensFrom, events] at hTokens
    exact absurd hTokens (by simp)
  | @case2 state c rest next _ _ _ ih =>
    rw [tokensFrom_cons] at hTokens hLevel
    have hRest : Uncommented (step state c rest).rest :=
      hCode.of_suffix ((step_rest_suffix state c rest).trans (List.suffix_cons c rest))
    have hLater : ∀ t ∈ tokensFrom (step state c rest).state (step state c rest).rest, t.IsLevel :=
      fun t ht => hLevel t (List.mem_append_right _ ht)
    -- the brace belongs to a later step, and this step has only moved its place
    have hFurther {before : List Token}
        (h : tokensFrom (step state c rest).state (step state c rest).rest =
          before ++ start :: behind) :
        ∃ front back, c :: rest = front ++ '\x7b' :: back ∧
          start.line = state.line + front.count '\n' ∧ Text.braces back = bracesOf behind := by
      obtain ⟨front, back, hFront, hLine, hBack⟩ := ih h hRest hLater
      obtain ⟨taken, hTaken, hCount⟩ := exists_split_of_step hFront
      exact ⟨taken, back, hTaken, hLine.trans hCount, hBack⟩
    cases hEvent : (step state c rest).event with
    | none =>
      rw [hEvent] at hTokens
      exact hFurther hTokens
    | some event =>
      rw [hEvent] at hTokens
      cases event with
      | skipped line d => exact hFurther hTokens
      | token t =>
        cases before with
        | cons first before => exact hFurther (List.cons.inj hTokens).2
        | nil =>
          obtain ⟨rfl, hBehind⟩ := List.cons.inj hTokens
          obtain ⟨rfl, hStep⟩ := rest_of_scopeStart hEvent hKind
          have hBraces : Text.braces (step state '\x7b' rest).rest = bracesOf behind :=
            (braces_tokensFrom hRest hLater).trans (congrArg bracesOf hBehind)
          rw [hStep] at hBraces
          exact ⟨[], rest, rfl, ((faithful_step state _ rest).token t hEvent).1, hBraces⟩

end Token

-- ---------------------------------------------------------------------------
-- The open nodes of a draft
-- ---------------------------------------------------------------------------

open Token (bracesOf)

/-- What a node has from its header on. -/
def Node.front (node : Node) : String × Option Nat × Nat :=
  (node.typeName, node.parent, node.line)

/-- The node at a place was opened by a token among the given ones, behind which all
braces have their partners, and so were the nodes around it. -/
inductive Outline.Opened (outline : Outline) : Nat → List Token → Prop where
  | root {ts : List Token} (hMatched : Matched (bracesOf ts)) : Opened outline 0 ts
  | node {i parent : Nat} {before behind : List Token} {start : Token}
      (hPlace : i < outline.nodes.size) (hParent : (outline.node i).parent = some parent)
      (hName : isTypeName (outline.node i).typeName.toList = true)
      (hStart : start.kind = .scopeStart) (hLine : (outline.node i).line = start.line)
      (hOuter : Opened outline parent before) (hMatched : Matched (bracesOf behind)) :
      Opened outline i (before ++ start :: behind)

namespace Outline.Opened

variable {outline later : Outline} {i : Nat} {ts us : List Token}

/-- Matched tokens keep open what is open. -/
theorem append (h : outline.Opened i ts) (hMatched : Matched (bracesOf us)) :
    outline.Opened i (ts ++ us) := by
  cases h with
  | root hTokens =>
    refine .root ?_
    rw [Token.bracesOf_append]
    exact hTokens.append hMatched
  | @node _ parent before behind start hPlace hParent hName hStart hLine hOuter hBehind =>
    rw [List.append_assoc, List.cons_append]
    refine .node hPlace hParent hName hStart hLine hOuter ?_
    rw [Token.bracesOf_append]
    exact hBehind.append hMatched

/-- Nothing but the front of the nodes that are there matters. -/
theorem of_nodes (h : outline.Opened i ts) (hSize : outline.nodes.size ≤ later.nodes.size)
    (hNodes : ∀ j < outline.nodes.size, (later.node j).front = (outline.node j).front) :
    later.Opened i ts := by
  induction h with
  | root hMatched => exact .root hMatched
  | node hPlace hParent hName hStart hLine _ hMatched ih =>
    obtain ⟨hNameEq, hParentEq, hLineEq⟩ :
        _ ∧ _ ∧ _ := by simpa only [Node.front, Prod.mk.injEq] using hNodes _ hPlace
    exact .node (Nat.lt_of_lt_of_le hPlace hSize) (hParentEq.trans hParent) (hNameEq ▸ hName) hStart
      (hLineEq.trans hLine) ih hMatched

end Outline.Opened

/-- The value of an entry is a text. -/
theorem Entry.Made.isSome_text? {name : String} {t : Token} {entry : Entry}
    (h : entry.Made name t) : t.kind.text?.isSome = true := by
  cases h with
  | id _ hText _ => rw [hText]; rfl
  | property _ hKind => rw [hKind]; rfl
  | delegate _ hKind => rw [hKind]; rfl

namespace Draft

variable {draft next : Draft} {t : Token} {ts : List Token}

/-- A draft and the tokens that led to it. -/
structure Tracks (draft : Draft) (ts : List Token) : Prop extends draft.Nested where
  opened : draft.outline.Opened draft.current ts
  header : ∀ name ∈ draft.pending.header?, isTypeName name.toList = true

/-- Nothing is open at the beginning. -/
theorem tracks_empty : empty.Tracks [] where
  toNested := nested_empty
  opened := .root .nil
  header name h := absurd h (by simp [empty, Pending.header?])

/-- A node that opens is the innermost open brace. -/
theorem opened_openNode {name : String} (role : Role) (h : draft.Tracks ts)
    (hName : isTypeName name.toList = true) (hKind : t.kind = .scopeStart) :
    (draft.openNode name role t.line).outline.Opened (draft.openNode name role t.line).current
      (ts ++ [t]) := by
  have hNew : (draft.openNode name role t.line).outline.node draft.outline.nodes.size =
      { typeName := name, role, parent := some draft.current, line := t.line } :=
    Outline.node_push_size (by simp)
  refine @Outline.Opened.node _ _ draft.current ts [] t (by simp [openNode]) ?_ ?_ hKind ?_ ?_ .nil
  · exact congrArg Node.parent hNew
  · exact (congrArg Node.typeName hNew).symm ▸ hName
  · exact congrArg Node.line hNew
  · refine h.opened.of_nodes (by simp [openNode]) fun j hj => ?_
    simp only [openNode]
    rw [Outline.node_push_lt (by simpa using hj)]
    refine Outline.field_node_modify (fun node => ?_) j
    cases role <;> rfl

/-- A closing brace and the brace of the node that it closes make up a group. -/
theorem opened_close {parent : Nat} (h : draft.Tracks ts) (hKind : t.kind = .scopeEnd)
    (hParent : (draft.outline.node draft.current).parent = some parent) :
    draft.outline.Opened parent (ts ++ [t]) := by
  obtain ⟨depth, hDepth⟩ := h.exists_depth
  have hOpened := h.opened
  generalize draft.current = i at hOpened hParent
  cases hOpened with
  | root => exact absurd (hDepth.parent_root.symm.trans hParent) (by simp)
  | @node _ outer before behind start _ hOuterParent _ hStart _ hOuter hMatched =>
    obtain rfl : outer = parent := Option.some.inj (hOuterParent.symm.trans hParent)
    rw [List.append_assoc]
    refine hOuter.append ?_
    have hGroup : bracesOf (start :: behind ++ [t]) = '\x7b' :: (bracesOf behind ++ ['\x7d']) := by
      simp [bracesOf, hStart, hKind, Token.Kind.braces]
    rw [hGroup]
    exact .group hMatched .nil

/-- The step lemma: a move follows its token. -/
theorem Move.tracks (hMove : draft.Move t next) (h : draft.Tracks ts) (hLevel : t.IsLevel)
    (hName : ∀ name, t.kind = .element name → isTypeName name.toList = true) :
    next.Tracks (ts ++ [t]) := by
  -- every token but the two braces leaves the open nodes as they are
  have hSame (hStart : t.kind ≠ .scopeStart) (hEnd : t.kind ≠ .scopeEnd) :
      draft.outline.Opened draft.current (ts ++ [t]) :=
    h.opened.append (Token.matched_of_isLevel hLevel hStart hEnd)
  refine ⟨hMove.nested h.toNested, ?_, ?_⟩
  · cases hMove with
    | openElement hPending hKind =>
      exact opened_openNode _ h (h.header _ (by simp [hPending, Pending.header?])) hKind
    | openDefinition hPending hKind =>
      exact opened_openNode _ h (h.header _ (by simp [hPending, Pending.header?])) hKind
    | close _ hKind hParent =>
      have hClosed := opened_close h hKind hParent
      exact hClosed
    | @entry _ entry _ hMade =>
      have hText := hMade.isSome_text?
      have hValue := hSame (by rintro hKind; simp [hKind, Token.Kind.text?] at hText)
        (by rintro hKind; simp [hKind, Token.Kind.text?] at hText)
      refine hValue.of_nodes (by simp [enter]) fun j _ => Outline.field_node_modify ?_ j
      intro node
      cases entry <;> rfl
    | semicolon _ hKind => exact hSame (by simp [hKind]) (by simp [hKind])
    | header _ hKind => exact hSame (by simp [hKind]) (by simp [hKind])
    | isA _ hKind => exact hSame (by simp [hKind]) (by simp [hKind])
    | base _ hKind => exact hSame (by simp [hKind]) (by simp [hKind])
    | key _ hKind => exact hSame (by simp [hKind]) (by simp [hKind])
    | colon _ hKind => exact hSame (by simp [hKind]) (by simp [hKind])
  · -- a header keeps its name until its brace comes
    have hBefore {name : String} (hPending : draft.pending.header? = some name) :
        ∀ other ∈ some name, isTypeName other.toList = true := by
      rintro other ⟨⟩
      exact h.header name hPending
    cases hMove with
    | semicolon => exact h.header
    | header _ hKind =>
      rintro _ ⟨⟩
      exact hName _ hKind
    | isA hPending => exact hBefore (by rw [hPending]; rfl)
    | base hPending => exact hBefore (by rw [hPending]; rfl)
    | close hPending => exact h.header
    | _ => exact fun name h => absurd h (by simp [Pending.header?, openNode, enter])

/-- With nothing open, all braces have their partners. -/
theorem Tracks.matched (h : draft.Tracks ts) (hRoot : draft.current = 0) :
    Matched (bracesOf ts) := by
  obtain ⟨depth, hDepth⟩ := h.exists_depth
  have hOpened := h.opened
  rw [hRoot] at hOpened
  cases hOpened with
  | root hMatched => exact hMatched
  | node _ hParent => exact absurd (hDepth.parent_root.symm.trans hParent) (by simp)

/-- The innermost open node was opened by a token behind which all braces have their
partners. -/
theorem Tracks.exists_start (h : draft.Tracks ts) (hInside : draft.current ≠ 0) :
    ∃ before start behind, ts = before ++ start :: behind ∧ start.kind = .scopeStart ∧
      (draft.outline.node draft.current).line = start.line ∧
      isTypeName (draft.outline.node draft.current).typeName.toList = true ∧
      Matched (bracesOf behind) := by
  have hOpened := h.opened
  generalize draft.current = i at hOpened hInside ⊢
  cases hOpened with
  | root => exact absurd rfl hInside
  | @node _ _ before behind start _ _ hName hStart hLine _ hMatched =>
    exact ⟨before, start, behind, rfl, hStart, hLine, hName, hMatched⟩

/-- The run lemma: a draft follows the tokens that led to it. -/
theorem tracks_of_foldlM_step {last : Draft} {us : List Token} (h : draft.Tracks ts)
    (hRun : us.foldlM step draft = .ok last) (hLevel : ∀ t ∈ us, t.IsLevel)
    (hNames : ∀ t ∈ us, ∀ name, t.kind = .element name → isTypeName name.toList = true) :
    last.Tracks (ts ++ us) := by
  induction us generalizing draft ts with
  | nil =>
    obtain rfl : draft = last := by simpa [pure, Except.pure] using hRun
    rwa [List.append_nil]
  | cons t us ih =>
    obtain ⟨next, hMove, hRest⟩ := foldlM_step_cons_eq_ok_iff.mp hRun
    obtain ⟨hFirst, hLater⟩ := List.forall_mem_cons.mp hLevel
    obtain ⟨hName, hLaterNames⟩ := List.forall_mem_cons.mp hNames
    rw [List.append_cons]
    exact ih (hMove.tracks h hFirst hName) hRest hLater hLaterNames

end Draft

theorem Problem.cause_atEnd (cause : Cause) (last : Option Token) :
    (Problem.atEnd cause last).cause = cause := by
  cases last <;> rfl

/-- A draft that lacks only closing braces has an open node. -/
theorem Draft.open_of_finish {draft : Draft} {last : Option Token} {problem : Problem}
    {typeName : String} {line : Nat} (h : draft.finish last = .error problem)
    (hCause : problem.cause = .unclosed typeName line) :
    draft.current ≠ 0 ∧ (draft.outline.node draft.current).typeName = typeName ∧
      (draft.outline.node draft.current).line = line := by
  unfold finish at h
  split at h
  case h_1 =>
    obtain rfl := Except.error.inj h
    exact absurd hCause (by simp [Problem.atToken])
  case h_6 =>
    split at h
    · exact absurd h (by simp)
    · next hInside =>
      obtain rfl := Except.error.inj h
      rw [Problem.cause_atEnd] at hCause
      exact ⟨hInside, Cause.unclosed.inj hCause⟩
  all_goals
    obtain rfl := Except.error.inj h
    rw [Problem.cause_atEnd] at hCause
    exact absurd hCause (by simp)

/-- A document that lacks only closing braces leads to a draft with an open node. -/
theorem Outline.exists_open_of_unclosed {ts : List Token} {problem : Problem} {typeName : String}
    {line : Nat} (h : Outline.build ts = .error problem)
    (hCause : problem.cause = .unclosed typeName line) :
    ∃ draft, ts.foldlM Draft.step Draft.empty = .ok draft ∧ draft.current ≠ 0 ∧
      (draft.outline.node draft.current).typeName = typeName ∧
      (draft.outline.node draft.current).line = line := by
  unfold build at h
  cases hRun : ts.foldlM Draft.step Draft.empty with
  | error first =>
    obtain rfl : first = problem := by simpa [hRun, bind, Except.bind] using h
    obtain ⟨place, cause, rfl, hCode, -⟩ := Draft.foldlM_step_eq_error hRun
    obtain rfl : cause = .unclosed typeName line := hCause
    exact absurd rfl hCode
  | ok draft =>
    have hFinish : draft.finish ts.getLast? = .error problem := by
      simpa [hRun, bind, Except.bind] using h
    exact ⟨draft, rfl, Draft.open_of_finish hFinish hCause⟩

namespace Editor

open Token

-- ---------------------------------------------------------------------------
-- The two answers
-- ---------------------------------------------------------------------------

/-- The name of a type can be the first word of a line. -/
theorem elementOnLine_of_isTypeName {name : List Char}
    (h : BindingMarkup.isTypeName name = true) (line : List Char) :
    elementOnLine line = some name ↔ LeadsWith name line := by
  obtain ⟨hUpper, hChars⟩ := Bool.and_eq_true_iff.mp h
  refine elementOnLine_eq_some_iff ?_ (fun c hc => ?_) line
  · cases name with
    | nil => exact absurd hUpper (by simp)
    | cons c rest => exact isUppercase_of_isUpper hUpper
  · have hChar : isElementChar c = true := List.all_eq_true.mp hChars c hc
    refine ⟨isBlank_of_isWordChar (isWordChar_of_isElementChar hChar), ?_⟩
    rintro rfl
    exact absurd hChar (by decide)

/-- **The node around the cursor.** Take a text without comments whose expressions leave
no brace open and are no blocks. If it has an outline, the search finds nothing. If
it ends in an open node, the search finds the first word of the line on which
the node opens; this is the name of the node exactly when the line leads with
it. -/
theorem enclosingElement_of_parse (text : String) (hCode : Uncommented text.toList)
    (hLevel : ∀ t ∈ tokenize text, t.IsLevel) :
    (∀ outline, Outline.parse text = .ok outline → enclosingElement text.toList = none) ∧
    ∀ problem typeName line, Outline.parse text = .error problem →
      problem.cause = .unclosed typeName line →
      ∃ written, (lines text.toList)[line - 1]? = some written ∧
        enclosingElement text.toList = elementOnLine written ∧
        (enclosingElement text.toList = some typeName.toList ↔
          LeadsWith typeName.toList written) := by
  have hNames : ∀ t ∈ tokenize text, ∀ name, t.kind = .element name →
      BindingMarkup.isTypeName name.toList = true :=
    fun t ht name hKind => (fitsFrom_tokenize text).isTypeName_of_mem ht hKind
  constructor
  · intro outline hParse
    obtain ⟨draft, hRun, hFinish⟩ := Outline.build_eq_ok_iff_run.mp hParse
    obtain ⟨-, hRoot, -⟩ := Draft.finish_eq_ok_iff.mp hFinish
    have hTracks := Draft.tracks_of_foldlM_step Draft.tracks_empty hRun hLevel hNames
    -- no node is open at the end, so every brace of the tokens has its partner
    refine enclosingElement_of_matched hCode.line ?_
    rw [@braces_tokensFrom {} _ hCode hLevel]
    exact hTracks.matched hRoot
  · intro problem typeName line hParse hCause
    obtain ⟨draft, hRun, hInside, rfl, rfl⟩ := Outline.exists_open_of_unclosed hParse hCause
    have hTracks := Draft.tracks_of_foldlM_step Draft.tracks_empty hRun hLevel hNames
    obtain ⟨before, start, behind, hTokens, hStart, hLine, hName, hMatched⟩ :=
      hTracks.exists_start hInside
    -- from the tokens to the text: the open brace cuts it where only matched ones follow
    obtain ⟨front, back, hText, hCount, hBack⟩ :=
      @exists_split {} text.toList before behind start hTokens hStart hCode hLevel
    rw [← hBack] at hMatched
    obtain ⟨written, hWritten, hAnswer⟩ := enclosingElement_of_split (hText ▸ hCode.line) hMatched
    rw [elementOnLine_trim] at hAnswer
    rw [← hText] at hWritten hAnswer
    refine ⟨written, ?_, hAnswer, ?_⟩
    · rw [hLine, hCount, Nat.add_sub_cancel_left]
      exact hWritten
    · rw [hAnswer]
      exact elementOnLine_of_isTypeName hName written

/-- A document that ends in a node whose brace stands at its name. -/
def openSource : String :=
  "Card @ Item \x7b\n  Row \x7b x: f(\x7ba: 1\x7d) \x7d\n  Button\x7b\n    label: go\n"

/-- All braces in the values of the source are matched. -/
theorem isLevel_openSource : ∀ t ∈ tokenize openSource, t.IsLevel := by
  have hCheck : (tokenize openSource).all (fun t => t.kind.text?.all fun text =>
      (text == "f(\x7ba: 1\x7d)" || text.toList.all (!isBrace ·)) &&
        t.context.toList.head? != some '\x7b') = true := by
    decide +kernel
  intro t ht text hKind
  have hToken := List.all_eq_true.mp hCheck t ht
  rw [hKind] at hToken
  simp only [Kind.text?, Option.all_some, Bool.and_eq_true, Bool.or_eq_true, beq_iff_eq,
    bne_iff_ne] at hToken
  obtain ⟨rfl | hPlain, hContext⟩ := hToken
  · have hGroup : Matched ('\x7b' :: (['a', ':', ' ', '1'] ++ '\x7d' :: [')'])) :=
      .group (.of_not_isBrace (by simp [isBrace])) (.of_not_isBrace (by simp [isBrace]))
    exact ⟨.other (by decide) (.other (by decide) hGroup), hContext⟩
  · refine ⟨.of_not_isBrace fun c hc => ?_, hContext⟩
    simpa using List.all_eq_true.mp hPlain c hc

/-- The end of the source is inside `Button`. -/
theorem enclosingElement_of_parse_button :
    Uncommented openSource.toList ∧ (∀ t ∈ tokenize openSource, t.IsLevel) ∧
      Outline.parse openSource =
        .error { cause := .unclosed "Button" 3, line := 4, context := "go" } ∧
      enclosingElement openSource.toList = some "Button".toList := by
  have hCode : Uncommented openSource.toList := ⟨by decide +kernel, by decide +kernel⟩
  have hParse : Outline.parse openSource =
      .error { cause := .unclosed "Button" 3, line := 4, context := "go" } := by
    decide +kernel
  obtain ⟨-, hOpen⟩ := enclosingElement_of_parse openSource hCode isLevel_openSource
  obtain ⟨written, hWritten, -, hAnswer⟩ := hOpen _ _ _ hParse rfl
  have hLine : (lines openSource.toList)[2]? = some "  Button\x7b".toList := by decide +kernel
  obtain rfl := Option.some.inj (hLine.symm.trans hWritten)
  have hLeads : LeadsWith "Button".toList "  Button\x7b".toList :=
    ⟨['\x7b'], [], by decide +kernel, by simp, by simp⟩
  exact ⟨hCode, isLevel_openSource, hParse, hAnswer.mpr hLeads⟩

/-- Two nodes that open on one line. -/
def crowdedSource : String :=
  "A \x7b B \x7b"

/-- The inner node is open, and the search finds the outer one. -/
theorem enclosingElement_crowded :
    Uncommented crowdedSource.toList ∧ (∀ c ∈ crowdedSource.toList, isQuote c = false) ∧
      (∀ t ∈ tokenize crowdedSource, ∀ text, t.kind ≠ .expression text) ∧
      Outline.parse crowdedSource =
        .error { cause := .unclosed "B" 1, line := 1, context := "\x7b" } ∧
      enclosingElement crowdedSource.toList = some "A".toList := by
  have hTokens : (tokenize crowdedSource).map (·.kind) =
      [.element "A", .scopeStart, .element "B", .scopeStart] := by
    decide +kernel
  refine ⟨⟨by decide +kernel, by decide +kernel⟩, by simp [crowdedSource, isQuote], ?_, by decide +kernel,
    by decide +kernel⟩
  intro t ht text hKind
  have hMem : Kind.expression text ∈ (tokenize crowdedSource).map (·.kind) :=
    hKind ▸ List.mem_map_of_mem ht
  rw [hTokens] at hMem
  exact absurd hMem (by simp)

end Editor

end BindingMarkup
