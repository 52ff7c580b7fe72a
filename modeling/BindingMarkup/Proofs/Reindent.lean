import BindingMarkup.Proofs.RoundTrip
import BindingMarkup.Proofs.SideBySide
import Mathlib.Data.List.Forall2

/-!
# BindingMarkup — documents laid out anew

Line breaks of either convention, another indentation and blanks at the
ends of lines leave the tokens of a document as they are. Two texts with
the same lines are read side by side.

* `step_alike` — at the same character, and with the same ahead up to
  margins, two readers in the same state note alike tokens, and they end
  in the same state with the same ahead of them.
* `tokensFrom_alike` — so do two runs. They are not in step, since margins
  take steps of their own; the induction is on what lies ahead, and an edge
  is passed on both sides at once.

`tokenize_sameLines` is the statement about documents. Only a block over
several lines keeps margins in its text, and then the texts have the same
ink.
-/

namespace BindingMarkup.Token

open Text

variable {a b : List Char}

-- ---------------------------------------------------------------------------
-- One step
-- ---------------------------------------------------------------------------

/-- The same kind, but for the margins in the text of an expression. -/
inductive Kind.Alike : Kind → Kind → Prop where
  | same (kind : Kind) : Alike kind kind
  | expression {text text' : List Char} (hInk : SameInk text text') :
      Alike (.expression (String.ofList text)) (.expression (String.ofList text'))

theorem Kind.Alike.colon_eq {kind kind' : Kind} (h : Kind.Alike kind kind') :
    (kind == .colon) = (kind' == .colon) := by
  cases h <;> rfl

structure Alike (t u : Token) : Prop where
  kind : Kind.Alike t.kind u.kind
  line_eq : t.line = u.line
  context_eq : t.context = u.context

/-- The tokens that a step notes, one or none. -/
def Step.noted (next : Step) : List Token :=
  next.event.toList.filterMap Event.token?

structure Step.Alike (next next' : Step) : Prop where
  noted : List.Forall₂ Token.Alike next.noted next'.noted
  state_eq : next.state = next'.state
  ahead : Ahead next.rest next'.rest

/-- Steps without a token are alike when they lead to the same state. -/
theorem Step.Alike.of_silent {state state' : State} (hState : state = state') (h : Ahead a b) :
    Step.Alike { event := none, state, rest := a }
      { event := none, state := state', rest := b } where
  noted := .nil
  state_eq := hState
  ahead := h

/-- Tokens that are noted before what lies ahead alike have the same line and context. -/
theorem stepToken_alike {state state' : State} {kind kind' : Kind} (line : Nat)
    {rest rest' : List Char} (hState : state = state') (hKind : kind.Alike kind')
    (hStart : Ahead a b) (hRest : Ahead rest rest') :
    (stepToken state kind line a rest).Alike (stepToken state' kind' line b rest') where
  noted := .cons ⟨hKind, rfl, contextOf_eq hStart⟩ .nil
  state_eq := by
    simp only [stepToken, hState, hKind.colon_eq]
  ahead := hRest

/-- The name of a type does not reach over an edge. -/
theorem stepElement_alike (state : State) (h : Ahead a b) :
    (stepElement state a).Alike (stepElement state b) := by
  obtain ⟨hName, hRest⟩ := span_of_not_blank (fun _ => isElementChar_of_isBlank) h
  obtain ⟨hState, hAfter⟩ := terminate_alike state hRest
  rw [stepElement_eq, stepElement_eq, hName]
  exact stepToken_alike state.line hState (.same _) h hAfter

/-- An expression ends before an edge, so its text is the same. -/
theorem stepExpression_alike (state : State) (h : Ahead a b) :
    (stepExpression state a).Alike (stepExpression state b) := by
  obtain ⟨hTaken, hRest⟩ := expressionSpan_alike h state.colonOnLine .outside 0
  obtain ⟨hState, hAfter⟩ := terminate_alike state hRest
  have hText := expressionText_eq hTaken (not_mem_expressionSpan _ _ _ a)
  unfold stepExpression
  simp only [hText]
  split
  · exact .of_silent hState hAfter
  · exact stepToken_alike state.line hState (.same _) h hAfter

/-- A block may reach over edges, and its text differs in the margins there. -/
theorem stepBlock_alike (state : State) (h : Ahead a b) :
    (stepBlock state a).Alike (stepBlock state b) := by
  obtain ⟨hRaw, hRest⟩ := blockSpan_alike h false .outside 0
  rw [stepBlock_eq, stepBlock_eq]
  refine stepToken_alike state.line ?_ (.expression (blockValue_alike hRaw)) h
    (skipTerminator_alike hRest)
  simp only [State.pass, hRaw.count_eq]

/-- **Two readers at the same character take alike steps.** -/
theorem step_alike (state : State) (c : Char) (h : Ahead a b) :
    (step state c a).Alike (step state c b) := by
  have hStart : Ahead (c :: a) (c :: b) := .char c h
  have hSlash : a.head? = some '/' ↔ b.head? = some '/' :=
    h.head?_eq_some_iff (by decide) (by decide)
  have hStar : a.head? = some '*' ↔ b.head? = some '*' :=
    h.head?_eq_some_iff (by decide) (by decide)
  unfold step
  -- every test of the step looks at ink, so both steps take the same branch
  simp only [hSlash, hStar, bareWordAhead_eq hStart]
  split
  · exact .of_silent rfl h
  split
  · exact .of_silent rfl (firstLine_alike h).2
  split
  · next hComment =>
    obtain ⟨y, rfl⟩ := List.head?_eq_some_iff.mp hComment.2
    obtain ⟨x, rfl⟩ := List.head?_eq_some_iff.mp (hStar.mpr rfl)
    obtain ⟨_, hEq, hRest⟩ := h.of_cons (by decide) (by decide)
    obtain rfl := (List.cons.inj hEq).2
    obtain ⟨hAfter, hCount⟩ := commentSpan_alike hRest
    refine .of_silent ?_ hAfter
    simp only [State.pass, List.drop_succ_cons, List.drop_zero, hCount]
  split
  · exact stepBlock_alike state hStart
  split
  · exact stepToken_alike state.line rfl (.same _) hStart h
  split
  · exact .of_silent rfl h
  split
  · exact stepElement_alike state hStart
  split
  · exact stepExpression_alike state hStart
  · exact ⟨.nil, rfl, h⟩

-- ---------------------------------------------------------------------------
-- Whole texts
-- ---------------------------------------------------------------------------

theorem tokensFrom_margin {m : List Char} (hm : Margin m) (state : State) (rest : List Char) :
    tokensFrom state (m ++ rest) = tokensFrom state rest :=
  tokensFrom_indentation ⟨m, hm.isBlank, hm.not_mem (by decide)⟩ state rest

/-- An edge is passed with a line feed. -/
theorem tokensFrom_edge {m n : List Char} (hm : Margin m) (hn : Margin n) (state : State)
    (rest : List Char) :
    tokensFrom state (m ++ '\n' :: (n ++ rest)) = tokensFrom (state.pass ['\n']) rest := by
  have hBreak : ∀ cs : List Char,
      tokensFrom state ('\n' :: cs) = tokensFrom (state.pass ['\n']) cs :=
    fun cs => tokensFrom_of_silent (by simp [step])
  rw [tokensFrom_margin hm, hBreak, tokensFrom_margin hn]

/-- **Two runs note alike tokens.** -/
theorem tokensFrom_alike (state : State) (h : Ahead a b) :
    List.Forall₂ Alike (tokensFrom state a) (tokensFrom state b) := by
  induction hLength : a.length using Nat.strong_induction_on generalizing a b state with
  | _ n ih =>
  cases h with
  | last ha hb =>
    have hNone : ∀ {m : List Char}, Margin m → tokensFrom state m = [] := by
      intro m hm
      rw [← List.append_nil m, tokensFrom_margin hm, tokensFrom_nil]
    rw [hNone ha, hNone hb]
    exact .nil
  | @char a b c hRest =>
    -- both readers take the same step, which may pass more than one character
    have hStep := step_alike state c hRest
    have hShorter : (step state c a).rest.length < n := by
      have := length_step_rest_le state c a
      rw [← hLength, List.length_cons]
      omega
    rw [tokensFrom_cons, tokensFrom_cons]
    refine List.rel_append hStep.noted ?_
    rw [← hStep.state_eq]
    exact ih _ hShorter _ hStep.ahead rfl
  | @edge m k m' k' a b hm hk hm' hk' hRest =>
    have hShorter : a.length < n := by
      rw [← hLength]
      simp only [List.length_append, List.length_cons]
      omega
    -- a line end with its margins gives no token to either reader
    rw [tokensFrom_edge hm hk, tokensFrom_edge hm' hk']
    exact ih _ hShorter _ hRest rfl

/-- The characters of a text that are no margins. -/
def ink (text : String) : List Char :=
  text.toList.filter fun c => !isMargin c

/-- The token with the index `i` is a block over several lines: it stands behind a
colon, starts with a brace, and its text holds a line feed. -/
def IsLongBlock (tokens : List Token) (i : Nat) : Prop :=
  (tokens.take i).getLast?.map kind = some .colon ∧
    ∃ t text, tokens[i]? = some t ∧ t.kind = .expression text ∧ '\n' ∈ text.toList ∧
      t.context.toList.head? = some '\x7b'

/-- Only a block over several lines has a line feed in its text. -/
theorem isLongBlock_of_mem {source : String} {i : Nat} {t : Token} {text : String}
    (ht : (tokenize source)[i]? = some t) (hKind : t.kind = .expression text)
    (hBreak : '\n' ∈ text.toList) : IsLongBlock (tokenize source) i := by
  obtain ⟨⟨offsets, hPlaced⟩, -⟩ := placed_source source
  obtain ⟨hi, -⟩ := List.getElem?_eq_some_iff.mp ht
  have hAt := hPlaced.standsAt ht (List.getElem?_eq_getElem (hPlaced.length_eq ▸ hi))
  have hBegins := hAt.begins
  rw [hKind] at hBegins
  rcases hBegins with ⟨-, hNoBreak, -⟩ | ⟨hColon, hHead⟩
  · exact absurd hBreak hNoBreak
  · obtain ⟨rest, hRest⟩ := List.head?_eq_some_iff.mp hHead
    refine ⟨by simpa using hColon, t, text, ht, hKind, hBreak, ?_⟩
    rw [hAt.context_eq, hRest, List.takeWhile_cons_of_pos (by decide),
      trimEnd_cons_of_not_blank (by decide)]
    rfl

/-- Only the texts of expressions may differ. -/
theorem Kind.Alike.eq_or_expression {kind kind' : Kind} (h : Kind.Alike kind kind') :
    kind = kind' ∨ ∃ text text', kind = .expression text ∧ kind' = .expression text' ∧
      SameInk text.toList text'.toList := by
  cases h with
  | same => exact .inl rfl
  | @expression text text' hInk =>
    refine .inr ⟨_, _, rfl, rfl, ?_⟩
    rwa [String.toList_ofList, String.toList_ofList]

/-- Sources with the same trimmed lines have tokens that are alike. -/
theorem tokenize_alike {source source' : String} (h : SameLines source.toList source'.toList) :
    List.Forall₂ Alike (tokenize source) (tokenize source') := by
  have hFirst : ∀ cs : List Char, tokensFrom {} cs = tokensFrom {} (cs.dropWhile isMargin) := by
    intro cs
    have hDrop := tokensFrom_margin (margin_takeWhile cs) {} (cs.dropWhile isMargin)
    rwa [List.takeWhile_append_dropWhile] at hDrop
  show List.Forall₂ Alike (tokensFrom {} source.toList) (tokensFrom {} source'.toList)
  rw [hFirst source.toList, hFirst source'.toList]
  exact tokensFrom_alike {} h.ahead

/-- **Margins and the convention for line breaks do not matter.** Texts with the same
lines have the same tokens on the same lines, up to margins inside blocks over
several lines. -/
theorem tokenize_sameLines (source source' : String)
    (h : SameLines source.toList source'.toList) :
    (tokenize source).length = (tokenize source').length ∧
      ∀ i t u, (tokenize source)[i]? = some t → (tokenize source')[i]? = some u →
        t.kind.label = u.kind.label ∧ t.line = u.line ∧ t.context = u.context ∧
          t.kind.text?.map ink = u.kind.text?.map ink ∧
          (¬IsLongBlock (tokenize source) i → t.kind = u.kind) := by
  have hTokens := tokenize_alike h
  refine ⟨hTokens.length_eq, fun i t u ht hu => ?_⟩
  have hAlike : Alike t u := by
    obtain ⟨hi, rfl⟩ := List.getElem?_eq_some_iff.mp ht
    obtain ⟨hi', rfl⟩ := List.getElem?_eq_some_iff.mp hu
    exact hTokens.get hi hi'
  rcases hAlike.kind.eq_or_expression with hKind | ⟨text, text', hKind, hKind', hInk⟩
  · rw [hKind]
    exact ⟨rfl, hAlike.line_eq, hAlike.context_eq, rfl, fun _ => rfl⟩
  · rw [hKind, hKind']
    refine ⟨rfl, hAlike.line_eq, hAlike.context_eq, congrArg some hInk.filter_eq, fun hShort => ?_⟩
    have hNoBreak : '\n' ∉ text.toList := fun hMem =>
      hShort (isLongBlock_of_mem ht hKind hMem)
    rw [String.ext (hInk.eq_of_not_mem hNoBreak)]

/-- A block with two statements, indented by spaces. -/
def spacedDocument : String :=
  "A \x7b\n  f: \x7b\n    go();\n    stop()\n  \x7d\n\x7d\n"

/-- The same document with other line breaks and indented by tabs. -/
def tabbedDocument : String :=
  "A \x7b\r\n\tf: \x7b\r\n\t\tgo();\r\n\t\tstop() \r\n\t\x7d\r\n\x7d\r\n"

/-- The block is over several lines, so its text is the same up to the margins only. -/
theorem tokenize_tabbedDocument :
    SameLines spacedDocument.toList tabbedDocument.toList ∧
      (tokenize spacedDocument).length = (tokenize tabbedDocument).length ∧
      ∀ i t u, (tokenize spacedDocument)[i]? = some t → (tokenize tabbedDocument)[i]? = some u →
        t.kind.label = u.kind.label ∧ t.line = u.line ∧ t.context = u.context ∧
          t.kind.text?.map ink = u.kind.text?.map ink ∧
          (¬IsLongBlock (tokenize spacedDocument) i → t.kind = u.kind) := by
  have hLines : SameLines spacedDocument.toList tabbedDocument.toList := by
    unfold SameLines
    decide
  exact ⟨hLines, tokenize_sameLines _ _ hLines⟩

end BindingMarkup.Token
