import BindingMarkup.Proofs.RoundTrip
import BindingMarkup.Proofs.SideBySide
import BindingMarkup.Proofs.Vocabulary

/-!
# BindingMarkup — the places the reader comes to

The reader goes through a source step by step, and at each step there is a
part that it has read, a state and a part that is still to come
(`Reached`). Every token is noted at such a place, and a token tells the
place at which it was noted: its line and its context fix the offset.

* `exists_reached` — the place of a token, with the token before it.
* `StandsAt.unique` — a token stands at no other place.
* `Parted`, `parted_step` — no step stops inside a name: what is left behind
  a step begins behind a character that is no part of a name, or with no
  capital. One lemma for each part of a text that a step takes.
* `Reached.before_capital` — so at a capital the reader is not in the middle
  of a word.
-/

namespace BindingMarkup.Token

open Text

-- ---------------------------------------------------------------------------
-- Places
-- ---------------------------------------------------------------------------

/-- The reader comes to a place of the source: `before` is read, and `rest` is still to
come. -/
inductive Reached (source : List Char) : List Char → State → List Char → Prop where
  | start : Reached source [] {} source
  | move {before taken rest : List Char} {state : State} {c : Char}
      (h : Reached source before state (c :: rest))
      (hTaken : c :: rest = taken ++ (step state c rest).rest) :
      Reached source (before ++ taken) (step state c rest).state (step state c rest).rest

/-- What was passed and what is left make up the source. -/
theorem Reached.source_eq {source before rest : List Char} {state : State}
    (h : Reached source before state rest) : source = before ++ rest := by
  induction h with
  | start => rfl
  | move _ hTaken ih => rw [ih, List.append_assoc, hTaken]

/-- The reader knows the line where it stands. -/
theorem Reached.line_eq {source before rest : List Char} {state : State}
    (h : Reached source before state rest) : state.line = 1 + before.count '\n' := by
  induction h with
  | start => rfl
  | @move before taken rest state c _ hTaken ih =>
    have hStep := (faithful_step state c rest).line
    have hCount := congrArg (List.count '\n') hTaken
    rw [List.count_append] at hCount ⊢
    omega

/-- Where a token was noted: the place, and whether the token before it was a colon. -/
theorem exists_reached_from {source before cs : List Char} {state : State}
    (h : Reached source before state cs) {front back : List Token} {t : Token}
    (hTokens : tokensFrom state cs = front ++ t :: back) :
    ∃ passed here c rest, Reached source passed here (c :: rest) ∧
      (step here c rest).event = some (.token t) ∧
      here.valueNext = (front.getLast?.map (·.kind == .colon)).getD state.valueNext := by
  induction state, cs using events.induct generalizing before front with
  | case1 state =>
    rw [tokensFrom, events] at hTokens
    exact absurd hTokens (by simp)
  | @case2 state c rest next _ _ _ ih =>
    have hFaithful := faithful_step state c rest
    obtain ⟨taken, hTaken, -⟩ := exists_taken c rest h.line_eq
    have hNext := Reached.move h hTaken
    rw [tokensFrom_cons] at hTokens
    -- a step without a token leaves the question to the steps behind it
    have hLater (hSilent : ∀ u, (step state c rest).event ≠ some (.token u))
        (hRest : tokensFrom (step state c rest).state (step state c rest).rest =
          front ++ t :: back) :
        ∃ passed here c rest, Reached source passed here (c :: rest) ∧
          (step here c rest).event = some (.token t) ∧
          here.valueNext = (front.getLast?.map (·.kind == .colon)).getD state.valueNext := by
      rw [← hFaithful.silent hSilent]
      exact ih hNext hRest
    cases hEvent : (step state c rest).event with
    | none =>
      rw [hEvent] at hTokens
      exact hLater (by simp [hEvent]) hTokens
    | some event =>
      cases event with
      | skipped line d =>
        rw [hEvent] at hTokens
        exact hLater (by simp [hEvent]) hTokens
      | token u =>
        rw [hEvent] at hTokens
        cases front with
        | nil =>
          obtain ⟨rfl, -⟩ := List.cons.inj hTokens
          exact ⟨before, state, c, rest, h, hEvent, rfl⟩
        | cons first front =>
          obtain ⟨rfl, hRest⟩ := List.cons.inj hTokens
          obtain ⟨-, -, -, -, hColon⟩ := hFaithful.token u hEvent
          obtain ⟨passed, here, d, more, hReached, hNoted, hValue⟩ := ih hNext hRest
          refine ⟨passed, here, d, more, hReached, hNoted, ?_⟩
          rw [hValue, hColon, List.getLast?_cons]
          cases front.getLast? <;> rfl

/-- **The place of a token.** Every token was noted at a place to which the reader came,
and stands there. -/
theorem exists_reached {source : String} {front back : List Token} {t : Token}
    (hTokens : tokenize source = front ++ t :: back) :
    ∃ before state c rest, Reached source.toList before state (c :: rest) ∧
      (step state c rest).event = some (.token t) ∧
      StandsAt source.toList front.getLast? t before.length := by
  obtain ⟨before, state, c, rest, hReached, hNoted, hValue⟩ := exists_reached_from .start hTokens
  have hColon : state.valueNext = true ↔ front.getLast?.map kind = some .colon := by
    rw [hValue]
    cases front.getLast? with
    | none => simp
    | some last => simp
  obtain ⟨hLine, hContext, hBlank, hBegins, -⟩ := (faithful_step state c rest).token t hNoted
  refine ⟨before, state, c, rest, hReached, hNoted, ?_, ?_, ?_, ?_⟩
  · rw [hLine, hReached.line_eq, hReached.source_eq, List.take_left]
  · rw [hContext, hReached.source_eq, List.drop_left, contextOf, String.toList_ofList]
    rfl
  · rwa [hReached.source_eq, List.drop_left]
  · rwa [hReached.source_eq, List.drop_left, ← propext hColon]

-- ---------------------------------------------------------------------------
-- A token fixes its place
-- ---------------------------------------------------------------------------

/-- Two places on one line with the same text from there on are one place. -/
theorem eq_nil_of_context {more back : List Char} {c : Char} (hc : isBlank c = false)
    (hBreak : '\n' ∉ more)
    (hContext : trimEnd (firstLine (more ++ c :: back)) = trimEnd (firstLine (c :: back))) :
    more = [] := by
  have hFeed : c ≠ '\n' := by
    rintro rfl
    exact absurd hc (by decide)
  have hFirst : firstLine (more ++ c :: back) = more ++ firstLine (c :: back) :=
    List.takeWhile_append_of_pos fun d hd => bne_iff_ne.mpr fun hEq => hBreak (hEq ▸ hd)
  have hSolid : trimEnd (firstLine (c :: back)) ≠ [] := by
    rw [firstLine, List.takeWhile_cons_of_pos (by simpa using hFeed),
      trimEnd_cons_of_not_blank hc]
    simp
  rw [hFirst, trimEnd_append_of_ne_nil hSolid] at hContext
  exact List.append_left_eq_self.mp hContext

/-- A token stands at one place: its line and the rest of that line fix the offset. -/
theorem StandsAt.eq_of_le {source : List Char} {previous other : Option Token} {t : Token}
    {p q : Nat} (hp : StandsAt source previous t p) (hq : StandsAt source other t q)
    (hLe : p ≤ q) : p = q := by
  obtain ⟨c, back, hDrop, hBlank⟩ := hq.exists_drop_eq_cons
  obtain ⟨more, hMore⟩ := List.take_prefix_take_left hLe (l := source)
  have hRest : source.drop p = more ++ c :: back := by
    have hParts : source.take p ++ source.drop p = source.take p ++ (more ++ c :: back) := by
      rw [List.take_append_drop, ← List.append_assoc, hMore, ← hDrop, List.take_append_drop]
    exact List.append_cancel_left hParts
  -- both places are on the line of the token
  have hBreak : '\n' ∉ more := by
    have hLine := hp.line_eq.symm.trans hq.line_eq
    rw [← hMore, List.count_append] at hLine
    exact List.count_eq_zero.mp (by omega)
  have hContext := hp.context_eq.symm.trans hq.context_eq
  rw [hRest, hDrop] at hContext
  -- with the same context behind them, nothing can stand between the two
  rw [eq_nil_of_context hBlank hBreak hContext, List.append_nil] at hMore
  have hLength := congrArg List.length hMore
  have hInside : q < source.length := by
    by_contra hFar
    rw [List.drop_eq_nil_of_le (by omega)] at hDrop
    exact absurd hDrop (by simp)
  rw [List.length_take, List.length_take] at hLength
  omega

/-- A token stands at one offset only. -/
theorem StandsAt.unique {source : List Char} {previous other : Option Token} {t : Token}
    {p q : Nat} (hp : StandsAt source previous t p) (hq : StandsAt source other t q) : p = q := by
  rcases Nat.le_total p q with hLe | hLe
  · exact hp.eq_of_le hq hLe
  · exact (hq.eq_of_le hp hLe).symm

-- ---------------------------------------------------------------------------
-- No step stops inside a name
-- ---------------------------------------------------------------------------

/-- What is left of a text begins behind a character that is no part of a name, or with
no capital. -/
def Parted (cs after : List Char) : Prop :=
  (∃ front d, cs = front ++ d :: after ∧ isElementChar d = false) ∨
    ∀ c ∈ after.head?, c.isUpper = false

namespace Parted

variable {cs after : List Char} {c : Char}

theorem nil (cs : List Char) : Parted cs [] :=
  .inr (by simp)

theorem single (hc : isElementChar c = false) (after : List Char) : Parted (c :: after) after :=
  .inl ⟨[], c, rfl, hc⟩

/-- What parts the rest from a text parts it from a longer one. -/
theorem append_left (h : Parted cs after) (front : List Char) : Parted (front ++ cs) after := by
  rcases h with ⟨more, d, rfl, hd⟩ | hHead
  · exact .inl ⟨front ++ more, d, by rw [List.append_assoc], hd⟩
  · exact .inr hHead

theorem cons (h : Parted cs after) (c : Char) : Parted (c :: cs) after :=
  h.append_left [c]

/-- A semicolon is no part of a name. -/
theorem of_semicolon (h : ';' :: after <:+ cs) : Parted cs after := by
  obtain ⟨front, rfl⟩ := h
  exact .inl ⟨front, ';', rfl, by decide⟩

/-- The end of a statement leaves the rest parted. -/
theorem terminate (h : Parted cs after) (hSuffix : after <:+ cs) (state : State) :
    Parted cs (state.terminate after).2 := by
  unfold State.terminate
  split
  · exact of_semicolon hSuffix
  · exact h

/-- A semicolon behind a block leaves the rest parted. -/
theorem skipTerminator (h : Parted cs after) (hSuffix : after <:+ cs) :
    Parted cs (skipTerminator after) := by
  unfold Token.skipTerminator
  split
  · next rest hDrop =>
    have hRest : ';' :: rest <:+ after := hDrop ▸ List.dropWhile_suffix _
    exact of_semicolon (hRest.trans hSuffix)
  · exact h

end Parted

/-- What is no character of a type name is no capital. -/
theorem isUpper_of_not_isElementChar {c : Char} (h : isElementChar c = false) :
    c.isUpper = false := by
  refine Bool.eq_false_iff.mpr fun hUpper => ?_
  rw [isElementChar_of_isUpper hUpper] at h
  exact absurd h (by simp)

/-- Behind a block comment stands its closing mark. -/
theorem parted_commentSpan (cs : List Char) : Parted cs (commentSpan cs).2 := by
  fun_induction commentSpan cs with
  | case1 => exact .nil []
  | case2 rest => exact .inl ⟨['*'], '/', rfl, by decide⟩
  | case3 c rest _ more back hEq ih =>
    rw [hEq] at ih
    exact ih.cons c

/-- A block ends with a brace or with the text. -/
theorem parted_blockSpan (comment : Bool) (quote : Quote) (depth : Nat) (cs : List Char) :
    Parted cs (blockSpan comment quote depth cs).2 := by
  induction cs generalizing comment quote depth with
  | nil => exact .nil []
  | cons c rest ih =>
    unfold blockSpan
    split
    · exact (ih false .outside depth).cons c
    split
    · exact (ih true .outside depth).cons c
    split
    · exact (ih true .outside depth).cons c
    split
    · next hClose => exact .single (by rw [hClose.2.1]; decide) rest
    · exact (ih false _ _).cons c

/-- An expression ends before a character that is no capital. -/
theorem parted_expressionSpan (inValue : Bool) (quote : Quote) (depth : Nat) (cs : List Char) :
    Parted cs (expressionSpan inValue quote depth cs).2 := by
  induction cs generalizing quote depth with
  | nil => exact .nil []
  | cons c rest ih =>
    unfold expressionSpan
    split
    · next hEnds =>
      refine .inr fun d hd => ?_
      obtain rfl : c = d := Option.some.inj hd
      refine Bool.eq_false_iff.mpr fun hUpper => ?_
      have hSpecial :=
        not_mem_specials (isWordChar_of_isElementChar (isElementChar_of_isUpper hUpper))
      simp only [specials, List.mem_cons, List.not_mem_nil, not_or, or_false] at hSpecial
      have hComment : startsComment (c :: rest) = false :=
        startsComment_eq_false (by simp [hSpecial])
      simp [endsExpression, hComment, hSpecial] at hEnds
    · exact (ih _ _).cons c

/-- A name is left where no further character of a name follows. -/
theorem parted_stepElement (state : State) (start : List Char) :
    Parted start (stepElement state start).rest := by
  rw [stepElement_eq]
  refine Parted.terminate (.inr fun c hc => ?_) (List.dropWhile_suffix _) state
  have hHead := List.head?_dropWhile_not isElementChar start
  rw [Option.mem_def.mp hc] at hHead
  exact isUpper_of_not_isElementChar hHead

/-- An expression does not stop inside a name. -/
theorem parted_stepExpression (state : State) (start : List Char) :
    Parted start (stepExpression state start).rest := by
  have hRest := (parted_expressionSpan state.colonOnLine .outside 0 start).terminate
    (expressionSpan_suffix ..) state
  unfold stepExpression
  dsimp only
  split <;> exact hRest

theorem parted_stepBlock (state : State) (start : List Char) :
    Parted start (stepBlock state start).rest := by
  rw [stepBlock_eq]
  exact (parted_blockSpan false .outside 0 start).skipTerminator (blockSpan_suffix ..)

/-- No mark is a character of a type name. -/
theorem isElementChar_of_ofMark? {c : Char} {kind : Kind} (h : Kind.ofMark? c = some kind) :
    isElementChar c = false := by
  unfold Kind.ofMark? at h
  split_ifs at h with hMark hMark hMark hMark hMark <;> rw [hMark] <;> decide

/-- A character that starts nothing is no part of a name. -/
theorem isElementChar_of_skipped {c : Char} (hUpper : c.isUpper = false)
    (hStarts : startsExpression c = false) : isElementChar c = false := by
  simp only [startsExpression, Bool.or_eq_false_iff] at hStarts
  show (((c.isUpper || c.isLower) || c.isDigit) || c == '_' || c == '-') = false
  simp only [hUpper, hStarts, Bool.or_self]

/-- **No step stops inside a name.** -/
theorem parted_step (state : State) (c : Char) (rest : List Char) :
    Parted (c :: rest) (step state c rest).rest := by
  unfold step
  split
  · next hBreak => exact .single (by rw [hBreak]; decide) rest
  split
  · -- a line comment ends before its line feed
    refine .inr fun d hd => ?_
    have hHead := List.head?_dropWhile_not (· != '\n') rest
    rw [show rest.dropWhile (· != '\n') = afterFirstLine rest from rfl,
      Option.mem_def.mp hd] at hHead
    obtain rfl : d = '\n' := by simpa using hHead
    decide
  split
  · next hComment =>
    obtain ⟨after, rfl⟩ := List.head?_eq_some_iff.mp hComment.2
    exact ((parted_commentSpan after).cons '*').cons c
  split
  · exact parted_stepBlock state (c :: rest)
  split
  · next hMark => exact .single (isElementChar_of_ofMark? hMark) rest
  split
  · next hBlank => exact .single (isElementChar_of_isBlank hBlank) rest
  split
  · exact parted_stepElement state (c :: rest)
  next hElement =>
  split
  · exact parted_stepExpression state (c :: rest)
  · next hExpression =>
    rw [Bool.or_eq_true, not_or, Bool.not_eq_true, Bool.not_eq_true] at hExpression
    have hUpper : c.isUpper = false := by simpa [hExpression.1] using hElement
    exact .single (isElementChar_of_skipped hUpper hExpression.2) rest

/-- **Capitals begin words.** When the reader comes to a capital, the character before it is
no part of a name. -/
theorem Reached.before_capital {source before rest : List Char} {state : State} {c : Char}
    (h : Reached source before state (c :: rest)) (hUpper : c.isUpper = true) :
    ∀ d ∈ before.getLast?, isElementChar d = false := by
  generalize hText : c :: rest = text at h
  cases h with
  | start => simp
  | @move before taken more state first _ hTaken =>
    intro d hd
    rcases parted_step state first more with ⟨front, e, hFront, he⟩ | hHead
    · have hLast : front ++ [e] = taken := by
        rw [hFront, List.append_cons] at hTaken
        exact List.append_cancel_right hTaken
      rw [← hLast, ← List.append_assoc, List.getLast?_concat, Option.mem_some_iff] at hd
      rwa [← hd]
    · rw [hHead c (by rw [← hText]; rfl)] at hUpper
      exact absurd hUpper (by simp)

end BindingMarkup.Token
