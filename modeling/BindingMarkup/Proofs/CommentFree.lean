import BindingMarkup.Proofs.Capture
import BindingMarkup.Proofs.LiteralReader
import BindingMarkup.Proofs.SideBySide
import BindingMarkup.Proofs.Vocabulary

/-!
# BindingMarkup — no comment reaches the script

A value is written into the script on one line with the end of its call,
`});`, right behind it. A line comment in the value would swallow that end.
`commentFree` walks over a text as a reader of script does: a string ends at
its closing mark, a backslash takes the next character along, and at the
latest the string ends with its line. The walk fails at two slashes outside
of strings.

There are two ways into a value. An expression stops at a comment, so what
it takes is free of comments (`commentFree_expressionSpan`). A block leaves
its comments out and goes on behind them; the line feed that ends a comment
stays, so that no slash before a comment meets another one behind it
(`commentFree_blockSpan`). What happens to the text afterwards, trims and
braces that fall away, only removes plain characters at its ends.

The parameters of a handler or a method are a part of its key, cut out at
parentheses without regard to strings. A parenthesis in a string can bring
a comment from the string into the script, or a string without its end.

* `Token.commentFree_of_expression` — the texts of all expressions.
* `commentFree_attachCall` — around the parameters and the body of its
  function, a call has nothing that starts a comment or a string.
* `commentFree_emitted` — the statements of all properties: which of them
  are free of comments.
* `not_commentFree_quotedKey` — one that is not.
-/

namespace BindingMarkup

open Text

namespace Token

-- ---------------------------------------------------------------------------
-- Walking over a text
-- ---------------------------------------------------------------------------

/-- Whether a walk over a text meets no line comment, when it starts in the given
state. -/
def commentFree : Quote → List Char → Bool
  | _, [] => true
  | quote, c :: rest =>
    if c = '\n' then commentFree .outside rest
    else !(quote == .outside && startsComment (c :: rest)) && commentFree (quote.next c) rest

example : commentFree .outside "f(\"//\") / 2".toList = true := by decide

/-- Two slashes start a comment. -/
theorem startsComment_eq_true_iff {c : Char} {rest : List Char} :
    startsComment (c :: rest) = true ↔ c = '/' ∧ rest.head? = some '/' := by
  refine ⟨fun h => ?_, ?_⟩
  · by_contra hNot
    rw [startsComment_eq_false hNot] at h
    exact absurd h (by simp)
  · rintro ⟨rfl, hHead⟩
    obtain ⟨more, rfl⟩ := List.head?_eq_some_iff.mp hHead
    rfl

/-- One step of a walk inside a line. -/
theorem commentFree_cons {quote : Quote} {c : Char} {rest : List Char} (hBreak : c ≠ '\n') :
    commentFree quote (c :: rest) = true ↔
      (quote = .outside → ¬(c = '/' ∧ rest.head? = some '/')) ∧
        commentFree (quote.next c) rest = true := by
  rw [← startsComment_eq_true_iff, commentFree, if_neg hBreak, Bool.and_eq_true]
  simp [imp_iff_not_or]

theorem commentFree_break (quote : Quote) (rest : List Char) :
    commentFree quote ('\n' :: rest) = commentFree .outside rest := by
  simp [commentFree]

/-- A walk that meets no comment meets none on the way. -/
theorem commentFree_of_front {quote : Quote} {front cs : List Char} (h : front <+: cs)
    (hFree : commentFree quote cs = true) : commentFree quote front = true := by
  induction front generalizing quote cs with
  | nil => rfl
  | cons c more ih =>
    obtain ⟨back, rfl⟩ := h
    rw [List.cons_append] at hFree
    have hMore : more <+: more ++ back := List.prefix_append more back
    by_cases hBreak : c = '\n'
    · subst hBreak
      rw [commentFree_break] at hFree ⊢
      exact ih hMore hFree
    · rw [commentFree_cons hBreak] at hFree ⊢
      refine ⟨fun hOutside hSlashes => hFree.1 hOutside ⟨hSlashes.1, ?_⟩, ih hMore hFree.2⟩
      rw [List.head?_append_of_ne_nil _ (by rintro rfl; simp at hSlashes), hSlashes.2]

/-- Nothing starts a comment in a text without slashes. -/
theorem commentFree_of_not_mem {cs : List Char} (h : '/' ∉ cs) (quote : Quote) :
    commentFree quote cs = true := by
  induction cs generalizing quote with
  | nil => rfl
  | cons c rest ih =>
    rw [List.mem_cons, not_or] at h
    by_cases hBreak : c = '\n'
    · rw [hBreak, commentFree_break]
      exact ih h.2 .outside
    · exact (commentFree_cons hBreak).mpr ⟨fun _ hHere => h.1 hHere.1.symm, ih h.2 _⟩

/-- Where a walk stands behind a text. -/
def quoteAfter : Quote → List Char → Quote
  | quote, [] => quote
  | quote, c :: rest => quoteAfter (if c = '\n' then .outside else quote.next c) rest

/-- A walk over two texts is a walk over the first, and one over the second from where the
first ends. The only comment that neither has by itself has a slash in each. -/
theorem commentFree_append_iff {quote : Quote} {front back : List Char}
    (hHead : back.head? ≠ some '/') :
    commentFree quote (front ++ back) = true ↔
      commentFree quote front = true ∧ commentFree (quoteAfter quote front) back = true := by
  induction front generalizing quote with
  | nil => simp [commentFree, quoteAfter]
  | cons c more ih =>
    rw [List.cons_append, quoteAfter]
    by_cases hBreak : c = '\n'
    · rw [hBreak, commentFree_break, commentFree_break, ih, if_pos rfl]
    · rw [commentFree_cons hBreak, commentFree_cons hBreak, ih, if_neg hBreak, and_assoc]
      -- the character behind `c` is the same in both walks, or it is no slash
      have hNext : (more ++ back).head? = some '/' ↔ more.head? = some '/' := by
        cases more with
        | nil => simpa using hHead
        | cons d more => rfl
      rw [hNext]

/-- What has no slash can be put behind a text. -/
theorem commentFree_append {quote : Quote} {cs back : List Char}
    (hFree : commentFree quote cs = true) (hBack : '/' ∉ back) :
    commentFree quote (cs ++ back) = true :=
  (commentFree_append_iff fun hHead => hBack (List.mem_of_mem_head? hHead)).mpr
    ⟨hFree, commentFree_of_not_mem hBack _⟩

/-- A character that opens no string can be put before a text or taken away, unless it
makes a comment with the text. -/
theorem commentFree_cons_of_plain {c : Char} (hQuote : isQuote c = false) (hSlash : c ≠ '/')
    (rest : List Char) : commentFree .outside (c :: rest) = commentFree .outside rest := by
  by_cases hBreak : c = '\n'
  · rw [hBreak, commentFree_break]
  · rw [Bool.eq_iff_iff, commentFree_cons hBreak]
    simp [hSlash, Quote.next, hQuote]

/-- Whether a character begins neither a string nor a comment. -/
def opensNothing (c : Char) : Bool :=
  !isQuote c && c != '/'

/-- A text without strings and slashes can be put before another one. -/
theorem commentFree_append_of_plain {front : List Char}
    (h : front.all opensNothing = true) (rest : List Char) :
    commentFree .outside (front ++ rest) = commentFree .outside rest := by
  induction front with
  | nil => rfl
  | cons c more ih =>
    simp only [List.all_cons, opensNothing, Bool.and_eq_true, Bool.not_eq_true', bne_iff_ne] at h
    obtain ⟨⟨hQuote, hSlash⟩, hMore⟩ := h
    rw [List.cons_append, commentFree_cons_of_plain hQuote hSlash, ih hMore]

/-- Blanks at the beginning of a text do not matter. -/
theorem commentFree_trimStart (cs : List Char) :
    commentFree .outside (trimStart cs) = commentFree .outside cs := by
  induction cs with
  | nil => rfl
  | cons c rest ih =>
    cases hBlank : isBlank c with
    | false => rw [trimStart_cons_of_not_blank hBlank]
    | true =>
      rw [commentFree_cons_of_plain (isQuote_of_isBlank hBlank) (ne_of_class hBlank (by decide)),
        ← ih, trimStart, List.dropWhile_cons_of_pos hBlank]
      rfl

theorem commentFree_trim {cs : List Char} (h : commentFree .outside cs = true) :
    commentFree .outside (trim cs) = true := by
  rw [← commentFree_trimStart] at h
  exact commentFree_of_front (trimEnd_isPrefix _) h

-- ---------------------------------------------------------------------------
-- The two ways into a value
-- ---------------------------------------------------------------------------

/-- What an expression takes is free of comments. -/
theorem commentFree_expressionSpan (inValue : Bool) (quote : Quote) (depth : Nat)
    (cs : List Char) : commentFree quote (expressionSpan inValue quote depth cs).1 = true := by
  induction cs generalizing quote depth with
  | nil => rfl
  | cons c rest ih =>
    unfold expressionSpan
    split
    · rfl
    · next hEnds =>
      have hBreak : c ≠ '\n' := by
        rintro rfl
        exact hEnds (by simp [endsExpression])
      refine (commentFree_cons hBreak).mpr ⟨?_, ih _ _⟩
      rintro rfl ⟨rfl, hHead⟩
      -- what is taken next is what comes next
      have hRest := expressionSpan_append inValue (Quote.outside.next '/')
        (Quote.outside.depth depth '/') rest
      have hNext : rest.head? = some '/' := by
        rw [← hRest, List.head?_append, hHead]
        rfl
      have hComment : startsComment ('/' :: rest) = true :=
        startsComment_eq_true_iff.mpr ⟨rfl, hNext⟩
      exact hEnds (by simp [endsExpression, hComment])

/-- A slash that a block keeps first is the first character of its text. -/
theorem head?_blockSpan {quote : Quote} {depth : Nat} {cs : List Char}
    (h : (blockSpan false quote depth cs).1.head? = some '/') : cs.head? = some '/' := by
  cases cs with
  | nil => simp [blockSpan] at h
  | cons c rest =>
    by_cases hSlash : c = '/'
    · rw [hSlash, List.head?_cons]
    · have hNoComment : startsComment (c :: rest) = false :=
        startsComment_eq_false fun hHere => hSlash hHere.1
      unfold blockSpan at h
      simp only [hNoComment] at h
      split_ifs at h <;> simp_all

/-- What a block keeps is free of comments. A scan inside a comment is outside of
strings. -/
theorem commentFree_blockSpan (comment : Bool) (quote : Quote) (depth : Nat) (cs : List Char)
    (hComment : comment = true → quote = .outside) :
    commentFree quote (blockSpan comment quote depth cs).1 = true := by
  induction cs generalizing comment quote depth with
  | nil => rfl
  | cons c rest ih =>
    by_cases hBreak : c = '\n'
    · rw [hBreak, blockSpan_break, commentFree_break]
      exact ih false .outside depth (by simp)
    unfold blockSpan
    rw [if_neg hBreak]
    split
    · next hInside => exact hComment hInside ▸ ih true .outside depth fun _ => rfl
    split
    · next hStarts => exact hStarts.1 ▸ ih true .outside depth fun _ => rfl
    next hStarts =>
    split
    · next hClose =>
      obtain ⟨rfl, rfl, -⟩ := hClose
      rfl
    · refine (commentFree_cons hBreak).mpr ⟨fun hOutside hSlashes => ?_, ih _ _ _ (by simp)⟩
      -- two slashes that the block keeps side by side stood side by side in the source
      have hNext := head?_blockSpan hSlashes.2
      exact hStarts ⟨hOutside, startsComment_eq_true_iff.mpr ⟨hSlashes.1, hNext⟩⟩

-- ---------------------------------------------------------------------------
-- The texts of expressions
-- ---------------------------------------------------------------------------

/-- A brace at the beginning can fall away. -/
theorem commentFree_stripFront {cs : List Char} (h : commentFree .outside cs = true) :
    commentFree .outside (stripFront '\x7b' cs) = true := by
  cases cs with
  | nil => rfl
  | cons c rest =>
    rw [stripFront]
    split
    · next hBrace =>
      subst hBrace
      rwa [commentFree_cons_of_plain (by decide) (by decide)] at h
    · exact h

/-- Neither trims nor braces that fall away make a comment. -/
theorem commentFree_blockValue {raw : List Char} (h : commentFree .outside raw = true) :
    commentFree .outside (blockValue raw) = true := by
  unfold blockValue
  split
  · exact commentFree_trim h
  · exact commentFree_trim
      (commentFree_of_front (stripBack_isPrefix _ _) (commentFree_stripFront (commentFree_trim h)))

/-- Every step that notes an expression notes a text without comments. -/
theorem commentFree_of_noted {state : State} {c : Char} {rest : List Char} {text : String}
    (h : Noted state c rest (.expression text)) : commentFree .outside text.toList = true := by
  generalize hKind : Kind.expression text = kind at h
  cases h with
  -- no mark is an expression
  | mark hMark _ =>
    rw [← hKind] at hMark
    unfold Kind.ofMark? at hMark
    split_ifs at hMark <;> cases hMark
  | block _ _ =>
    rw [Kind.expression.inj hKind, String.toList_ofList]
    exact commentFree_blockValue (commentFree_blockSpan false .outside 0 _ (by simp))
  | element _ => exact absurd hKind (by simp)
  | expression hBlank _ _ hTaken =>
    rw [Kind.expression.inj hKind, String.toList_ofList]
    refine commentFree_of_front (expressionText_isPrefix hBlank _) ?_
    rw [← hTaken]
    exact commentFree_expressionSpan ..

/-- Every token of a text was noted by one of the steps of the reader. -/
theorem exists_noted {state : State} {cs : List Char} {t : Token}
    (h : t ∈ tokensFrom state cs) : ∃ state c rest, Noted state c rest t.kind := by
  induction state, cs using events.induct with
  | case1 state => simp [tokensFrom, events] at h
  | case2 state c rest next _ _ _ ih =>
    rw [tokensFrom_cons, List.mem_append] at h
    rcases h with hHere | hLater
    · obtain ⟨event, hEvent, hToken⟩ := List.mem_filterMap.mp hHere
      rw [Option.mem_toList] at hEvent
      cases event with
      | token u =>
        obtain rfl : u = t := Option.some.inj hToken
        exact ⟨state, c, rest, noted_of_step hEvent⟩
      | skipped => exact absurd hToken (by simp [Event.token?])
    · exact ih hLater

/-- The texts of all expressions are free of comments. -/
theorem commentFree_of_expression {source : String} {t : Token} (h : t ∈ tokenize source)
    {text : String} (hKind : t.kind = .expression text) :
    commentFree .outside text.toList = true := by
  obtain ⟨state, c, rest, hNoted⟩ := exists_noted h
  exact commentFree_of_noted (hKind ▸ hNoted)

end Token

-- ---------------------------------------------------------------------------
-- Keys and values in an outline
-- ---------------------------------------------------------------------------

/-- The key and the value of a property in the outline of a source are texts of
expressions of the source. -/
theorem Outline.exists_expressions {source : String} {outline : Outline}
    (h : Outline.parse source = .ok outline) {node : Node} (hNode : node ∈ outline.nodes)
    {p : Property} (hp : p ∈ node.properties) :
    (∃ t ∈ Token.tokenize source, t.kind = .expression p.name) ∧
      ∃ t ∈ Token.tokenize source, t.kind = .expression p.value := by
  have hEntry : Entry.property p ∈ outline.entries :=
    List.mem_flatMap.mpr ⟨node, Array.mem_toList_iff.mpr hNode,
      List.mem_append_left _ (List.mem_map_of_mem hp)⟩
  obtain ⟨key, colon, value, hTokens, hDerives⟩ := Outline.exists_tokens_of_build h hEntry
  cases hDerives with
  | mk hKey _ _ hMade =>
    cases hMade with
    | property _ hValue =>
      exact ⟨⟨key, hTokens.subset (by simp), hKey⟩, value, hTokens.subset (by simp), hValue⟩

-- ---------------------------------------------------------------------------
-- The parts of a call
-- ---------------------------------------------------------------------------

open Token

/-- The words around a value that is returned have no slashes. -/
theorem commentFree_accessorBody {value : String}
    (h : commentFree .outside value.toList = true) :
    commentFree .outside (accessorBody value).toList = true := by
  unfold accessorBody
  split
  · exact h
  · have hText : ("return " ++ value ++ ";").toList =
        "return ".toList ++ (value.toList ++ [';']) := by
      simp
    have hValue : commentFree .outside (value.toList ++ [';']) = true :=
      commentFree_append h (by decide)
    rw [hText, commentFree_append_of_plain (by decide)]
    exact hValue

/-- A semicolon behind the statements has no slashes. -/
theorem commentFree_statementBody {value : String}
    (h : commentFree .outside value.toList = true) :
    commentFree .outside (statementBody value).toList = true := by
  have hTrim := commentFree_trim h
  unfold statementBody
  dsimp only
  split
  · rfl
  · split
    · rwa [String.toList_ofList]
    · rw [String.toList_ofList]
      exact commentFree_append hTrim (by decide)

/-- Inside a literal, a plain character leaves the walk where it is. -/
theorem commentFree_cons_of_isPlain {c : Char} (h : IsPlain c) (rest : List Char) :
    commentFree (.inside '"') (c :: rest) = commentFree (.inside '"') rest := by
  have hBreak : c ≠ '\n' := by
    rintro rfl
    exact absurd h.not_control (by decide)
  rw [Bool.eq_iff_iff, commentFree_cons hBreak]
  simp [Quote.next, h.ne_backslash, h.ne_quote]

/-- Inside a literal, a walk passes over what stands for one character. -/
theorem commentFree_literalChar (c : Char) (rest : List Char) :
    commentFree (.inside '"') (literalChar c ++ rest) = commentFree (.inside '"') rest := by
  have hPlains {cs : List Char} (h : ∀ c ∈ cs, IsPlain c) :
      commentFree (.inside '"') (cs ++ rest) = commentFree (.inside '"') rest := by
    induction cs with
    | nil => rfl
    | cons c more ih =>
      obtain ⟨hHere, hMore⟩ := List.forall_mem_cons.mp h
      rw [List.cons_append, commentFree_cons_of_isPlain hHere, ih hMore]
  rcases literalChar_cases c with ⟨hSelf, hHere⟩ | ⟨d, more, hEscape, hControl, hMore⟩
  · rw [hSelf]
    exact hPlains (by simpa using hHere)
  · -- the backslash takes the next character along, even if it is a quote
    have hBreak : d ≠ '\n' := by
      rintro rfl
      exact absurd hControl (by decide)
    rw [hEscape, List.cons_append, List.cons_append, ← hPlains hMore, Bool.eq_iff_iff,
      commentFree_cons (by decide), commentFree_cons (by simpa using hBreak)]
    simp [Quote.next]

/-- A walk passes over a literal and is outside of strings behind it. -/
theorem commentFree_literal (name : String) (rest : List Char) :
    commentFree .outside ((literal name).toList ++ rest) = commentFree .outside rest := by
  have hInside (cs : List Char) :
      commentFree (.inside '"') (cs.flatMap literalChar ++ '"' :: rest) =
        commentFree .outside rest := by
    induction cs with
    | nil =>
      rw [List.flatMap_nil, List.nil_append, Bool.eq_iff_iff, commentFree_cons (by decide)]
      simp [Quote.next]
    | cons c cs ih =>
      rw [List.flatMap_cons, List.append_assoc, commentFree_literalChar, ih]
  have hText : (literal name).toList ++ rest =
      '"' :: (name.toList.flatMap literalChar ++ '"' :: rest) := by
    simp [literal, literalChars]
  rw [hText, ← hInside name.toList, Bool.eq_iff_iff, commentFree_cons (by decide)]
  simp [Quote.next, isQuote]

/-- The end of a call, from its parameters on. -/
def callEnd (body : String) : List Char :=
  (") \x7b " ++ body ++ " \x7d);").toList

/-- A walk over a call comes to its parameters outside of strings and without a comment
behind it. -/
theorem commentFree_attachCall {method : String}
    (hMethod : method.toList.all opensNothing = true) (name params body : String) :
    commentFree .outside (Script.attachCall method name params body).toList =
      commentFree .outside (params.toList ++ callEnd body) := by
  have hText : (Script.attachCall method name params body).toList =
      "elem.".toList ++ (method.toList ++ ("(".toList ++ ((literal name).toList ++
        (", function (".toList ++ (params.toList ++ callEnd body))))) := by
    simp [Script.attachCall, callEnd]
  rw [hText, commentFree_append_of_plain (by decide),
    commentFree_append_of_plain hMethod, commentFree_append_of_plain (by decide),
    commentFree_literal, commentFree_append_of_plain (by decide)]

-- ---------------------------------------------------------------------------
-- The statements of properties
-- ---------------------------------------------------------------------------

/-- The parameters that a key gives to its function. -/
def Property.parameters (p : Property) : List Char :=
  (Binding.signature p.name.toList).2.getD []

/-- The body of the function that a property, a handler or a method becomes. -/
def Property.functionBody (p : Property) : String :=
  match Binding.classify p.name with
  | .property => accessorBody p.value
  | _ => statementBody p.value

/-- Whether the parenthesis that opens the parameters of a key, if there is one, stands
outside of strings. -/
def opensOutside (key : List Char) : Bool :=
  match splitAtFirst? '(' key with
  | none => true
  | some (name, _) => quoteAfter .outside name == .outside

/-- The call that a property becomes. -/
theorem exists_propertyStatement (p : Property) :
    ∃ method ∈ ["addEventHandler", "addFunction", "addProperty"], ∃ name,
      Script.propertyStatement p =
        Script.attachCall method name (String.ofList p.parameters) p.functionBody := by
  unfold Script.propertyStatement Property.functionBody Property.parameters Binding.classify
  dsimp only
  split_ifs with hHandler
  · exact ⟨_, by simp, _, rfl⟩
  · cases hParams : (Binding.signature p.name.toList).2 with
    | none => exact ⟨"addProperty", by simp, _, rfl⟩
    | some params => exact ⟨"addFunction", by simp, _, rfl⟩

theorem commentFree_functionBody {p : Property}
    (h : commentFree .outside p.value.toList = true) :
    commentFree .outside p.functionBody.toList = true := by
  unfold Property.functionBody
  split
  · exact commentFree_accessorBody h
  · exact commentFree_statementBody h

/-- Where its first parenthesis stands outside of strings, a key without comments gives
parameters without comments: the walk over the key goes on over them. -/
theorem commentFree_parameters {p : Property}
    (h : commentFree .outside p.name.toList = true)
    (hOpens : opensOutside p.name.toList = true) :
    commentFree .outside p.parameters = true := by
  unfold opensOutside at hOpens
  unfold Property.parameters Binding.signature
  cases hSplit : splitAtFirst? '(' p.name.toList with
  | none => rfl
  | some parts =>
    obtain ⟨name, rest⟩ := parts
    rw [hSplit] at hOpens
    rw [splitAtFirst?_eq_some hSplit, commentFree_append_iff (by simp), beq_iff_eq.mp hOpens,
      commentFree_cons_of_plain (by decide) (by decide)] at h
    refine commentFree_trim (commentFree_of_front ?_ h.2)
    cases hLast : beforeLastChar? ')' rest with
    | none => exact List.prefix_rfl
    | some front => exact (List.prefix_append front [')']).trans (beforeLast?_eq_some hLast)

/-- The statement of a property is free of comments if its parameters are and the walk goes
on without one behind them. -/
theorem commentFree_propertyStatement (p : Property) :
    commentFree .outside (Script.propertyStatement p).toList = true ↔
      commentFree .outside p.parameters = true ∧
        commentFree (quoteAfter .outside p.parameters) (callEnd p.functionBody) = true := by
  obtain ⟨method, hMethod, name, hCall⟩ := exists_propertyStatement p
  have hPlain : ∀ method ∈ ["addEventHandler", "addFunction", "addProperty"],
      method.toList.all opensNothing = true := by
    decide
  rw [hCall, commentFree_attachCall (hPlain method hMethod), String.toList_ofList,
    commentFree_append_iff (by simp [callEnd])]

/-- **Comments and the script.** The text of every expression of a source is free of
comments. Where the source has an outline, the statement that a property, a handler or a
method becomes is a call with the parameters of its key and a body made of its value.

The body and the end of the call behind it have no comment. The whole statement has none
if the parenthesis that opens the parameters stands outside of the strings of the key and
the parameters leave no string open; so it is for every key without parentheses. In
general, it has none exactly if the parameters, read by themselves, have none and, where
they leave a string open, the walk that goes on inside that string meets none. -/
theorem commentFree_emitted (source : String) :
    (∀ t ∈ tokenize source, ∀ text, t.kind = .expression text →
      commentFree .outside text.toList = true) ∧
    ∀ outline, Outline.parse source = .ok outline →
      ∀ node ∈ outline.nodes, ∀ p ∈ node.properties,
        (∃ method name, Script.propertyStatement p =
          Script.attachCall method name (String.ofList p.parameters) p.functionBody) ∧
        commentFree .outside (p.functionBody ++ " \x7d);").toList = true ∧
        (opensOutside p.name.toList = true → quoteAfter .outside p.parameters = .outside →
          commentFree .outside (Script.propertyStatement p).toList = true) ∧
        (commentFree .outside (Script.propertyStatement p).toList = true ↔
          commentFree .outside p.parameters = true ∧
            (quoteAfter .outside p.parameters = .outside ∨
              commentFree (quoteAfter .outside p.parameters)
                (") \x7b " ++ p.functionBody ++ " \x7d);").toList = true)) := by
  refine ⟨fun t ht text hKind => commentFree_of_expression ht hKind,
    fun outline hParse node hNode p hp => ?_⟩
  obtain ⟨⟨key, hKey, hName⟩, value, hValue, hText⟩ := Outline.exists_expressions hParse hNode hp
  obtain ⟨method, -, name, hCall⟩ := exists_propertyStatement p
  have hBody : commentFree .outside (p.functionBody ++ " \x7d);").toList = true := by
    rw [String.toList_append]
    exact commentFree_append
      (commentFree_functionBody (commentFree_of_expression hValue hText)) (by decide)
  -- where the parameters leave no string open, the end of the call is read from outside of
  -- strings
  have hEnd : commentFree .outside (callEnd p.functionBody) = true := by
    have hFront : callEnd p.functionBody =
        ") \x7b ".toList ++ (p.functionBody ++ " \x7d);").toList := by
      simp [callEnd]
    rw [hFront, commentFree_append_of_plain (by decide)]
    exact hBody
  refine ⟨⟨method, name, hCall⟩, hBody, fun hOpens hOutside => ?_, ?_⟩
  · rw [commentFree_propertyStatement, hOutside]
    exact ⟨commentFree_parameters (commentFree_of_expression hKey hName) hOpens, hEnd⟩
  · rw [commentFree_propertyStatement]
    refine and_congr_right fun _ => ⟨.inr, ?_⟩
    rintro (hOutside | hInside)
    · rw [hOutside]
      exact hEnd
    · exact hInside

/-- A handler with parameters whose block holds a comment with a brace and a string with
two slashes, and a property with a comment behind it. -/
def annotatedSource : String :=
  "Row \x7b\n  onTap(at): \x7b // go \x7d\n    open(\"//\") \x7d\n  w: 1 / 2 // half\n\x7d\n"

def annotatedNode : Node where
  id := none
  typeName := "Row"
  role := .element
  parent := some 0
  properties :=
    [{ name := "onTap(at)", value := "open(\"//\")", line := 2 },
      { name := "w", value := "1 / 2", line := 4 }]
  line := 1

/-- Both statements of the source above, as they stand in the script. -/
theorem commentFree_annotated :
    commentFree .outside "open(\"//\")".toList = true ∧
      commentFree .outside
        "elem.addEventHandler(\"onTap\", function (at) \x7b open(\"//\"); \x7d);".toList = true ∧
      commentFree .outside
        "elem.addProperty(\"w\", function () \x7b return 1 / 2; \x7d);".toList = true := by
  have hToken : { kind := .expression "open(\"//\")", line := 2, context := "\x7b // go \x7d" } ∈
      tokenize annotatedSource := by
    decide +kernel
  have hParse : Outline.parse annotatedSource =
      .ok { nodes := #[{ Node.root with elements := [1] }, annotatedNode] } := by
    decide +kernel
  obtain ⟨hTokens, hStatements⟩ := commentFree_emitted annotatedSource
  have hNode := hStatements _ hParse annotatedNode (by simp)
  have hTap := (hNode { name := "onTap(at)", value := "open(\"//\")", line := 2 }
    (by simp [annotatedNode])).2.2.1 (by decide +kernel) (by decide +kernel)
  have hWidth := (hNode { name := "w", value := "1 / 2", line := 4 }
    (by simp [annotatedNode])).2.2.1 (by decide +kernel) (by decide +kernel)
  exact ⟨hTokens _ hToken _ rfl, hTap, hWidth⟩

/-- A key that is a string with a parenthesis and two slashes. -/
def quotedKeySource : String :=
  "A \x7b\n  \"a(//\"): 1\n\x7d\n"

/-- The parenthesis inside the string is taken for the beginning of the parameters, so that
the rest of the string stands in the script without its opening mark: the statement has a
comment, and the end of the call is inside it. -/
theorem not_commentFree_quotedKey :
    ∃ p : Property,
      Outline.parse quotedKeySource =
          .ok { nodes := #[{ Node.root with elements := [1] },
            { id := none, typeName := "A", role := .element, parent := some 0,
              properties := [p], line := 1 }] } ∧
        Script.propertyStatement p =
          "elem.addFunction(\"\\\"a\", function (//\") \x7b 1; \x7d);" ∧
        commentFree .outside (Script.propertyStatement p).toList = false :=
  ⟨{ name := "\"a(//\")", value := "1", line := 2 }, by decide +kernel, by decide +kernel,
    by decide +kernel⟩

end BindingMarkup
