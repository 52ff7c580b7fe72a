import BindingMarkup.Proofs.Markup
import BindingMarkup.Proofs.Position

/-!
# BindingMarkup — the texts of tokens and nodes

A text is trimmed, cut at a semicolon, freed of braces and comments before
it becomes a token, and it passes through a header or an entry before it
stands in a node. This module says what is left of it: which texts a token
can have, and which of them arrive in an outline.

* `Kind.Fits` — a type name is a capital and then name characters; an
  expression is there and has no blank at either end; outside value
  position it stays on its line and opens with one of a few characters;
  and no opening brace stands directly behind a colon.
* `noted_of_step` — the four ways in which a step notes a token, with all
  that is known about the text in front of it. `fits_of_noted` looks at
  these four and `fitsFrom_tokensFrom` follows the reader.
* `Contents.fits_of_derives` — along a derivation the names of entries are
  expressions that do not follow a colon, so they inherit what holds of
  these, and `Contents.fits_nodes` finds them again in the listing.
-/

namespace BindingMarkup

open Text

-- ---------------------------------------------------------------------------
-- The ends of a trimmed text
-- ---------------------------------------------------------------------------

namespace Text

/-- A text that is there and has no blank at either end. -/
structure Solid (cs : List Char) : Prop where
  ne_nil : cs ≠ []
  head : ∀ c ∈ cs.head?, isBlank c = false
  last : ∀ c ∈ cs.getLast?, isBlank c = false

/-- A trimmed text does not begin with a blank. -/
theorem not_blank_head_trimStart (cs : List Char) :
    ∀ c ∈ (trimStart cs).head?, isBlank c = false := by
  intro c hc
  have hNot := List.head?_dropWhile_not isBlank cs
  rw [Option.mem_def] at hc
  rw [show cs.dropWhile isBlank = trimStart cs from rfl, hc] at hNot
  simpa using hNot

/-- A trimmed text does not end with a blank. -/
theorem not_blank_last_trimEnd (cs : List Char) :
    ∀ c ∈ (trimEnd cs).getLast?, isBlank c = false := by
  intro c hc
  rw [trimEnd, List.getLast?_reverse] at hc
  exact not_blank_head_trimStart cs.reverse c hc

/-- What a trim leaves is solid, if it leaves anything. -/
theorem solid_trim {cs : List Char} (h : trim cs ≠ []) : Solid (trim cs) where
  ne_nil := h
  head c hc := by
    obtain ⟨more, hMore⟩ := trimEnd_isPrefix (trimStart cs)
    refine not_blank_head_trimStart cs c ?_
    rw [← hMore]
    exact (List.head?_append_of_ne_nil _ h).symm ▸ hc
  last := not_blank_last_trimEnd _

end Text

namespace Token

-- ---------------------------------------------------------------------------
-- What a token can be
-- ---------------------------------------------------------------------------

/-- The characters that open an expression outside value position. -/
def OpensKey (c : Char) : Prop :=
  c.isLower = true ∨ c.isDigit = true ∨ c ∈ ['"', '\x27', '(', '-', '_', '[']

/-- What a token can be, directly behind a colon or elsewhere. -/
def Kind.Fits (afterColon : Bool) : Kind → Prop
  | .element name => isTypeName name.toList = true
  | .expression text =>
    Solid text.toList ∧
      (afterColon = false → '\n' ∉ text.toList ∧ ∀ c ∈ text.toList.head?, OpensKey c)
  | .scopeStart => afterColon = false
  | _ => True

/-- What starts an expression outside of values can begin a key. -/
theorem opensKey_of_startsExpression {c : Char} (h : startsExpression c = true) : OpensKey c := by
  simp only [startsExpression, Bool.or_eq_true, beq_iff_eq] at h
  simp only [OpensKey, List.mem_cons, List.not_mem_nil, or_false]
  tauto

-- ---------------------------------------------------------------------------
-- What a step notes
-- ---------------------------------------------------------------------------

/-- The kinds of tokens that a step can note at the character `c` with `rest` behind
it. -/
inductive Noted (state : State) (c : Char) (rest : List Char) : Kind → Prop where
  | mark {kind : Kind} (hMark : Kind.ofMark? c = some kind)
      (hBrace : c = '\x7b' → state.valueNext = false) : Noted state c rest kind
  | block (hBrace : c = '\x7b') (hValue : state.valueNext = true) :
      Noted state c rest
        (.expression (String.ofList (blockValue (blockSpan false .outside 0 (c :: rest)).1)))
  | element (hUpper : c.isUpper = true) :
      Noted state c rest (.element (String.ofList ((c :: rest).takeWhile isElementChar)))
  | expression {more : List Char} (hBlank : isBlank c = false) (hSemicolon : c ≠ ';')
      (hStart : state.valueNext = true ∨ startsExpression c = true)
      (hTaken : (expressionSpan state.colonOnLine .outside 0 (c :: rest)).1 = c :: more) :
      Noted state c rest (.expression (String.ofList (expressionText (c :: more))))

theorem kind_of_stepToken {state : State} {kind : Kind} {line : Nat} {start rest : List Char}
    {t : Token} (h : (stepToken state kind line start rest).event = some (.token t)) :
    t.kind = kind := by
  rw [← Event.token.inj (Option.some.inj h)]

/-- Every token is noted in one of four ways. -/
theorem noted_of_step {state : State} {c : Char} {rest : List Char} {t : Token}
    (h : (step state c rest).event = some (.token t)) : Noted state c rest t.kind := by
  unfold step at h
  split at h
  · exact absurd h (by simp)
  next hBreak =>
  split at h
  · exact absurd h (by simp)
  next hComment =>
  split at h
  · exact absurd h (by simp)
  split at h
  · next hBrace =>
    rw [stepBlock_eq] at h
    rw [kind_of_stepToken h]
    exact .block hBrace.1 hBrace.2
  next hBrace =>
  split at h
  · next hMark =>
    rw [kind_of_stepToken h]
    exact .mark hMark fun hOpen => by simpa [hOpen] using hBrace
  next hMark =>
  split at h
  · exact absurd h (by simp)
  next hBlank =>
  split at h
  · next hUpper =>
    rw [stepElement_eq] at h
    rw [kind_of_stepToken h]
    exact .element (Bool.and_eq_true_iff.mp hUpper).1
  split at h
  · next hStart =>
    have hSolid : isBlank c = false := by simpa using hBlank
    have hSemicolon : c ≠ ';' := by
      rintro rfl
      exact absurd hMark (by decide)
    -- the text is not empty: the expression does not end at its first character
    have hEnds : endsExpression state.colonOnLine .outside 0 c rest = false :=
      endsExpression_eq_false hBreak hComment hMark
    obtain ⟨more, hTaken⟩ := exists_expressionSpan_eq_cons hEnds
    have hText := expressionText_cons hSolid hSemicolon more
    rw [stepExpression_eq state (by rw [hTaken, hText]; simp), hTaken] at h
    rw [kind_of_stepToken h]
    exact .expression hSolid hSemicolon (Bool.or_eq_true_iff.mp hStart) hTaken
  · exact absurd h (by simp)

-- ---------------------------------------------------------------------------
-- The texts of tokens
-- ---------------------------------------------------------------------------

/-- A block begins with its brace. -/
theorem exists_blockSpan_eq_cons (rest : List Char) :
    ∃ more, (blockSpan false .outside 0 ('\x7b' :: rest)).1 = '\x7b' :: more := by
  rw [blockSpan, if_neg (by decide), if_neg (by decide), if_neg (by simp [startsComment]),
    if_neg (by decide)]
  exact ⟨_, rfl⟩

/-- A block of statements has something between its braces. -/
theorem ne_nil_of_statements {raw : List Char} (h : classifyBlock raw = .statements) :
    trim (stripBraces raw) ≠ [] := by
  intro hNil
  rw [classifyBlock, hNil] at h
  exact absurd h (by simp)

/-- The value of a block is there and has no blank at either end: an object keeps its
braces, and statements are what the braces hold. -/
theorem solid_blockValue (more : List Char) : Solid (blockValue ('\x7b' :: more)) := by
  unfold blockValue
  split
  · refine solid_trim ?_
    rw [trim, trimStart_cons_of_not_blank (by decide), trimEnd_cons_of_not_blank (by decide)]
    simp
  · next hStatements => exact solid_trim (ne_nil_of_statements hStatements)

/-- The text of an expression is not empty and has no blanks around it. -/
theorem solid_expressionText {c : Char} (hBlank : isBlank c = false) (hSemicolon : c ≠ ';')
    (more : List Char) : Solid (expressionText (c :: more)) where
  ne_nil := by
    rw [expressionText_cons hBlank hSemicolon]
    simp
  head := by
    rw [expressionText_cons hBlank hSemicolon]
    simpa using hBlank
  last := not_blank_last_trimEnd _

/-- A capital and what follows it as long as it can is a type name. -/
theorem isTypeName_takeWhile {c : Char} (hUpper : c.isUpper = true) (rest : List Char) :
    isTypeName ((c :: rest).takeWhile isElementChar) = true := by
  have hChars : ((c :: rest).takeWhile isElementChar).all isElementChar = true :=
    List.all_takeWhile
  rw [isTypeName, hChars, List.takeWhile_cons_of_pos (isElementChar_of_isUpper hUpper)]
  simp [hUpper]

/-- The step lemma: what is noted fits behind the token before it. -/
theorem fits_of_noted {state : State} {c : Char} {rest : List Char} {kind : Kind}
    (h : Noted state c rest kind) : kind.Fits state.valueNext := by
  cases h with
  | mark hMark hBrace =>
    unfold Kind.ofMark? at hMark
    split_ifs at hMark with hOpen <;> cases hMark
    · exact hBrace hOpen
    all_goals exact trivial
  | block hBrace hValue =>
    subst hBrace
    obtain ⟨more, hMore⟩ := exists_blockSpan_eq_cons rest
    rw [Kind.Fits, String.toList_ofList, hMore]
    refine ⟨solid_blockValue more, fun hNot => ?_⟩
    rw [hValue] at hNot
    exact absurd hNot (by simp)
  | element hUpper =>
    rw [Kind.Fits, String.toList_ofList]
    exact isTypeName_takeWhile hUpper rest
  | @expression more hBlank hSemicolon hStart hTaken =>
    rw [Kind.Fits, String.toList_ofList]
    refine ⟨solid_expressionText hBlank hSemicolon more, fun hNot => ⟨fun hMem => ?_, ?_⟩⟩
    · refine not_mem_expressionSpan state.colonOnLine .outside 0 (c :: rest) ?_
      rw [hTaken]
      exact (expressionText_isPrefix hBlank more).subset hMem
    · have hOpens : startsExpression c = true := hStart.resolve_left (by simp [hNot])
      rw [expressionText_cons hBlank hSemicolon]
      simpa using opensKey_of_startsExpression hOpens

/-- Every token of a list fits behind the one before it. -/
def FitsFrom : Bool → List Token → Prop
  | _, [] => True
  | afterColon, t :: ts => t.kind.Fits afterColon ∧ FitsFrom (t.kind == .colon) ts

/-- The run lemma: what the reader notes fits, from any state on. -/
theorem fitsFrom_tokensFrom (state : State) (cs : List Char) :
    FitsFrom state.valueNext (tokensFrom state cs) := by
  induction state, cs using events.induct with
  | case1 state =>
    rw [tokensFrom, events]
    exact trivial
  | case2 state c rest next _ _ _ ih =>
    have hFaithful := faithful_step state c rest
    rw [tokensFrom_cons]
    cases hEvent : (step state c rest).event with
    | none =>
      -- without a token the reader stays before a value or outside of one
      rw [← hFaithful.silent (by simp [hEvent])]
      exact ih
    | some event =>
      cases event with
      | token t =>
        obtain ⟨-, -, -, -, hColon⟩ := hFaithful.token t hEvent
        refine ⟨fits_of_noted (noted_of_step hEvent), ?_⟩
        rw [← hColon]
        exact ih
      | skipped line d =>
        rw [← hFaithful.silent (by simp [hEvent])]
        exact ih

theorem fitsFrom_tokenize (source : String) : FitsFrom false (tokenize source) :=
  fitsFrom_tokensFrom {} source.toList

namespace FitsFrom

variable {afterColon : Bool} {ts us : List Token} {t : Token}

/-- The token at a place fits behind the token before that place. -/
theorem getElem? (h : FitsFrom afterColon ts) {i : Nat} (hAt : ts[i]? = some t) :
    t.kind.Fits (((ts.take i).getLast?.map (·.kind == .colon)).getD afterColon) := by
  induction ts generalizing afterColon i with
  | nil => simp at hAt
  | cons first ts ih =>
    cases i with
    | zero =>
      obtain rfl := Option.some.inj hAt
      exact h.1
    | succ i =>
      have hRest := ih h.2 hAt
      rw [List.take_succ_cons, List.getLast?_cons]
      cases hLast : (ts.take i).getLast? with
      | none => simpa [hLast] using hRest
      | some last => simpa [hLast] using hRest

/-- The parts of a list that fits, fit. -/
theorem append (h : FitsFrom afterColon (ts ++ us)) :
    FitsFrom afterColon ts ∧ ∃ behind, FitsFrom behind us := by
  induction ts generalizing afterColon with
  | nil => exact ⟨trivial, afterColon, h⟩
  | cons first ts ih =>
    obtain ⟨hFront, hBack⟩ := ih h.2
    exact ⟨⟨h.1, hFront⟩, hBack⟩

/-- Every name of a type among the tokens is one. -/
theorem isTypeName_of_mem (h : FitsFrom afterColon ts) (hMem : t ∈ ts) {name : String}
    (hKind : t.kind = .element name) : isTypeName name.toList = true := by
  obtain ⟨i, hAt⟩ := List.mem_iff_getElem?.mp hMem
  have hFits := h.getElem? hAt
  rwa [hKind] at hFits

end FitsFrom

end Token

-- ---------------------------------------------------------------------------
-- The texts of nodes
-- ---------------------------------------------------------------------------

/-- The name of a property or a delegate: it stays on its line, opens like an
expression outside value position, but with no digit, and is not `id`. -/
structure IsEntryName (name : String) : Prop where
  ne_id : name ≠ "id"
  ne_empty : name ≠ ""
  no_break : '\n' ∉ name.toList
  opens : ∀ c ∈ name.toList.head?, Token.OpensKey c
  no_digit : ∀ c ∈ name.toList.head?, c.isDigit = false

def Property.Fits (p : Property) : Prop :=
  IsEntryName p.name ∧ p.value ≠ ""

def Delegate.Fits (d : Delegate) : Prop :=
  IsEntryName d.name ∧ isTypeName d.target.toList = true

/-- What holds of the texts of a node. -/
structure Node.Fits (node : Node) : Prop where
  typeName : isTypeName node.typeName.toList = true
  base : ∀ base ∈ node.role.base?, isTypeName base.toList = true
  id : ∀ id ∈ node.id, Draft.isIdentifier id = true
  properties : ∀ p ∈ node.properties, p.Fits
  delegates : ∀ d ∈ node.delegates, d.Fits

def Entry.Fits : Entry → Prop
  | .id name => Draft.isIdentifier name = true
  | .property p => p.Fits
  | .delegate d => d.Fits

def Header.Fits (header : Header) : Prop :=
  isTypeName header.typeName.toList = true ∧
    ∀ base ∈ header.role.base?, isTypeName base.toList = true

/-- The names of a header are names of types. -/
theorem Header.fits_of_derives {hs : List Token} {header : Header} (h : header.Derives hs)
    {afterColon : Bool} (hFits : Token.FitsFrom afterColon hs) : header.Fits := by
  cases h with
  | element hName _ =>
    exact ⟨hFits.isTypeName_of_mem List.mem_cons_self hName, by simp [Header.role, Role.base?]⟩
  | definition hName _ _ _ hBase _ =>
    refine ⟨hFits.isTypeName_of_mem (by simp) hName, ?_⟩
    have hBaseFits := hFits.isTypeName_of_mem (by simp) hBase
    simpa [Header.role, Role.base?] using hBaseFits

/-- The value of an entry is no colon. -/
theorem Entry.Made.kind_ne_colon {name : String} {t : Token} {entry : Entry}
    (h : entry.Made name t) : (t.kind == .colon) = false := by
  cases h with
  | id _ hText _ =>
    cases hKind : t.kind with
    | colon => exact absurd hText (by simp [hKind, Token.Kind.text?])
    | _ => rfl
  | property _ hKind => rw [hKind]; rfl
  | delegate _ hKind => rw [hKind]; rfl

/-- An entry fits when its three tokens do, and what follows it stands behind a
value. -/
theorem Entry.fits_of_derives {es ts : List Token} {entry : Entry} (h : entry.Derives es)
    (hFits : Token.FitsFrom false (es ++ ts)) : entry.Fits ∧ Token.FitsFrom false ts := by
  cases h with
  | @mk key colon value name entry hKey hDigit hColon hMade =>
    obtain ⟨hName, -, hValue, hRest⟩ := hFits
    rw [hKey] at hName
    rw [hMade.kind_ne_colon] at hRest
    obtain ⟨hSolid, hLine⟩ := hName
    obtain ⟨hBreak, hOpens⟩ := hLine rfl
    have hEntryName : name ≠ "id" → IsEntryName name := by
      intro hId
      refine ⟨hId, ?_, hBreak, hOpens, fun c hc => ?_⟩
      · rintro rfl
        exact hSolid.ne_nil rfl
      · rw [Option.mem_def] at hc
        simpa [hc] using hDigit
    cases hMade with
    | id _ _ hIdentifier => exact ⟨hIdentifier, hRest⟩
    | property hId hKind =>
      rw [hKind] at hValue
      refine ⟨⟨hEntryName hId, ?_⟩, hRest⟩
      intro hEmpty
      exact hValue.1.ne_nil (String.toList_eq_nil_iff.mpr hEmpty)
    | delegate hId hKind =>
      rw [hKind] at hValue
      exact ⟨⟨hEntryName hId, hValue⟩, hRest⟩

namespace Contents

/-- What holds of the texts of all that stands in a node or a document. -/
def Fits : Contents → Prop
  | nil => True
  | entry first rest => first.Fits ∧ rest.Fits
  | node header _ inside rest => header.Fits ∧ inside.Fits ∧ rest.Fits

/-- Along a derivation the texts of the tokens become those of the contents. -/
theorem fits_of_derives {scope : Scope} {ts : List Token} {contents : Contents}
    (h : contents.Derives scope ts) (hFits : Token.FitsFrom false ts) : contents.Fits := by
  induction h with
  | nil => exact trivial
  | semicolon hKind _ ih =>
    have hRest := hFits.2
    rw [hKind] at hRest
    exact ih hRest
  | entry hEntry _ ih =>
    obtain ⟨hHere, hRest⟩ := Entry.fits_of_derives hEntry hFits
    exact ⟨hHere, ih hRest⟩
  | node hHeader hStart _ hStop _ ihInside ihRest =>
    obtain ⟨hTitle, _, hNode⟩ := hFits.append
    obtain ⟨-, hBody⟩ := hNode
    rw [hStart] at hBody
    obtain ⟨hInside, _, -, hRest⟩ := hBody.append
    rw [hStop] at hRest
    exact ⟨Header.fits_of_derives hHeader hTitle, ihInside hInside, ihRest hRest⟩

/-- The entries of contents that fit. -/
theorem fits_entries {contents : Contents} (h : contents.Fits) :
    (∀ id ∈ contents.id?, Draft.isIdentifier id = true) ∧
      (∀ p ∈ contents.properties, p.Fits) ∧ ∀ d ∈ contents.delegates, d.Fits := by
  induction contents with
  | nil => simp [id?, properties, delegates]
  | node _ _ _ rest _ ih => exact ih h.2.2
  | entry entry rest ih =>
    obtain ⟨hHere, hRest⟩ := h
    obtain ⟨hId, hProperties, hDelegates⟩ := ih hRest
    cases entry with
    | id name =>
      refine ⟨?_, hProperties, hDelegates⟩
      intro id hMem
      rcases Option.or_eq_some_iff.mp hMem with hLater | ⟨-, hName⟩
      · exact hId id hLater
      · exact Option.some.inj hName ▸ hHere
    | property p => exact ⟨hId, List.forall_mem_cons.mpr ⟨hHere, hProperties⟩, hDelegates⟩
    | delegate d => exact ⟨hId, hProperties, List.forall_mem_cons.mpr ⟨hHere, hDelegates⟩⟩

/-- Every node of the listing fits. -/
theorem fits_nodes {contents : Contents} (h : contents.Fits) (parent i : Nat) :
    ∀ node ∈ contents.nodes parent i, node.Fits := by
  induction contents generalizing parent i with
  | nil => simp [nodes]
  | entry _ rest ih => exact ih h.2 parent i
  | node header line inside rest ihInside ihRest =>
    obtain ⟨⟨hName, hBase⟩, hInside, hRest⟩ := h
    obtain ⟨hId, hProperties, hDelegates⟩ := fits_entries hInside
    rw [nodes, List.cons_append, List.forall_mem_cons, List.forall_mem_append]
    refine ⟨⟨hName, hBase, ?_, ?_, ?_⟩, ihInside hInside _ _, ihRest hRest _ _⟩
    · simpa [fill] using hId
    · simpa [fill] using hProperties
    · simpa [fill] using hDelegates

/-- A document has no entries outside its nodes. -/
theorem entries_of_document {ts : List Token} {contents : Contents}
    (h : contents.Derives .document ts) :
    contents.id? = none ∧ contents.properties = [] ∧ contents.delegates = [] := by
  generalize hScope : Scope.document = scope at h
  induction h with
  | nil => exact ⟨rfl, rfl, rfl⟩
  | semicolon _ _ ih => exact ih hScope
  | entry => exact absurd hScope (by simp)
  | node _ _ _ _ _ _ ihRest => exact ihRest hScope

end Contents

/-- **The texts of tokens and nodes.** Every token of a source fits behind the token
before it. Where the source has an outline, every node but the root fits, and
the root has no entries. -/
theorem Outline.parse_fits (source : String) :
    (∀ (i : Nat) (t : Token), (Token.tokenize source)[i]? = some t →
      t.kind.Fits (((Token.tokenize source).take i).getLast?.any (·.kind == .colon))) ∧
    ∀ outline, Outline.parse source = .ok outline →
      (∀ i node, i ≠ 0 → outline.nodes[i]? = some node → node.Fits) ∧
      ∃ root, outline.nodes[0]? = some root ∧
        root.role = .root ∧ root.id = none ∧ root.properties = [] ∧ root.delegates = [] := by
  have hTokens := Token.fitsFrom_tokenize source
  refine ⟨fun i t hAt => ?_, fun outline hParse => ?_⟩
  · have hFits := hTokens.getElem? hAt
    cases hLast : ((Token.tokenize source).take i).getLast? with
    | none => simpa [hLast] using hFits
    | some last => simpa [hLast] using hFits
  · obtain ⟨contents, hDerives, rfl⟩ := Outline.derives_of_build hParse
    have hContents := Contents.fits_of_derives hDerives hTokens
    obtain ⟨hId, hProperties, hDelegates⟩ := Contents.entries_of_document hDerives
    refine ⟨fun i node hi hAt => ?_, contents.fill 1 Node.root, rfl, rfl, ?_, ?_, ?_⟩
    · obtain ⟨j, rfl⟩ := Nat.exists_eq_succ_of_ne_zero hi
      have hNode : (contents.nodes 0 1)[j]? = some node := by
        simpa [Contents.outline] using hAt
      exact Contents.fits_nodes hContents 0 1 node (List.mem_of_getElem? hNode)
    · simp [Contents.fill, hId, Node.root]
    · simp [Contents.fill, hProperties, Node.root]
    · simp [Contents.fill, hDelegates, Node.root]

/-- A definition with an id, a method whose body loses its braces, and a delegate. -/
def cardSource : String :=
  "Card @ Item \x7b\n  id: card\n  grow(by): \x7b go(); \x7d\n  delegate: Row\n\x7d\n"

def cardNode : Node where
  id := some "card"
  typeName := "Card"
  role := .definition "Item"
  parent := some 0
  properties := [{ name := "grow(by)", value := "go();", line := 3 }]
  delegates := [{ name := "delegate", target := "Row", line := 4 }]
  line := 1

/-- A block behind a colon, and the node it belongs to. -/
theorem parse_fits_card :
    Token.Kind.Fits true (.expression "go();") ∧ cardNode.Fits := by
  have hToken : (Token.tokenize cardSource)[9]? =
      some { kind := .expression "go();", line := 3, context := "\x7b go(); \x7d" } := by
    decide +kernel
  have hColon : ((Token.tokenize cardSource).take 9).getLast?.any (·.kind == .colon) = true := by
    decide +kernel
  have hParse : Outline.parse cardSource =
      .ok { nodes := #[{ Node.root with types := [1] }, cardNode] } := by
    decide +kernel
  obtain ⟨hTokens, hNodes⟩ := Outline.parse_fits cardSource
  have hFits := hTokens 9 _ hToken
  rw [hColon] at hFits
  exact ⟨hFits, (hNodes _ hParse).1 1 cardNode (by decide) rfl⟩

end BindingMarkup
