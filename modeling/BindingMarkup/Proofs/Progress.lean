import BindingMarkup.Proofs.RoundTrip

/-!
# BindingMarkup — the reader gets on

The reader is a loop around one step, and nothing but the steps themselves
makes it end. Most steps plainly take the character that they look at. The
one that could fail to is the step at an expression: an expression ends
before a line break, a comment, a brace, a semicolon or a colon, and it
notes nothing when its text is empty. If it ever started at one of these
characters, the loop would stand still.

It never does, because of the order in which a step asks its questions.
`turn` is that order by itself, without what is done afterwards, and
`step_eq_take` says that a step is its turn and then the action for it.

* `startsText_of_turn` — when it is the turn of an expression, all the
  characters that could end it there have been asked for.
* `exists_taken_of_startsText`, `exists_noted_of_turn` — so the expression
  takes its first character, has a text and is noted, whatever the state.
* `Runs` — a number of steps from one place to another, with the tokens
  noted on the way. `Runs.add_length_le` bounds the number of steps by the
  characters left behind, and `exists_runs` reaches the end.

`runs_tokenize` has the statements for whole sources.
-/

namespace BindingMarkup.Token

open Text

-- ---------------------------------------------------------------------------
-- Turns
-- ---------------------------------------------------------------------------

/-- What the reader takes the text in front of it for. -/
inductive Turn where
  | lineBreak
  | lineComment
  | blockComment
  | block
  | mark (kind : Kind)
  | blank
  | element
  | expression
  /-- A character that starts nothing. -/
  | nothing
  deriving DecidableEq, Repr

/-- Whose turn it is at the character `c` with `rest` behind it. -/
def turn (state : State) (c : Char) (rest : List Char) : Turn :=
  if c = '\n' then .lineBreak
  else if c = '/' ∧ rest.head? = some '/' then .lineComment
  else if c = '/' ∧ rest.head? = some '*' then .blockComment
  else if c = '\x7b' ∧ state.valueNext then .block
  else
    match Kind.ofMark? c with
    | some kind => .mark kind
    | none =>
      if isBlank c then .blank
      else if c.isUpper && (!state.valueNext || bareWordAhead (c :: rest)) then .element
      else if state.valueNext || startsExpression c then .expression
      else .nothing

/-- The step that is made at a turn. -/
def Turn.take (turn : Turn) (state : State) (c : Char) (rest : List Char) : Step :=
  match turn with
  | .lineBreak => { event := none, state := state.pass [c], rest }
  | .lineComment => { event := none, state, rest := afterFirstLine rest }
  | .blockComment =>
    { event := none
      state := state.pass (commentSpan (rest.drop 1)).1
      rest := (commentSpan (rest.drop 1)).2 }
  | .block => stepBlock state (c :: rest)
  | .mark kind => stepMark state kind c rest
  | .blank => { event := none, state, rest }
  | .element => stepElement state (c :: rest)
  | .expression => stepExpression state (c :: rest)
  | .nothing => { event := some (.skipped state.line c), state, rest }

/-- A step does what its turn says. -/
theorem step_eq_take (state : State) (c : Char) (rest : List Char) :
    step state c rest = (turn state c rest).take state c rest := by
  unfold step turn
  split
  · rfl
  split
  · rfl
  split
  · rfl
  split
  · rfl
  cases Kind.ofMark? c with
  | some kind => rfl
  | none =>
    dsimp only
    split
    · rfl
    split
    · rfl
    split
    · rfl
    · rfl

-- ---------------------------------------------------------------------------
-- Expressions
-- ---------------------------------------------------------------------------

/-- When it is the turn of an expression, no line break, no comment, no mark and no
blank is in front of the reader. -/
theorem startsText_of_turn {state : State} {c : Char} {rest : List Char}
    (h : turn state c rest = .expression) : StartsText c rest := by
  -- each question that comes before the expression has been answered with no
  unfold turn at h
  split at h
  · exact absurd h (by simp)
  next hBreak =>
  split at h
  · exact absurd h (by simp)
  next hLine =>
  split at h
  · exact absurd h (by simp)
  next hBlock =>
  split at h
  · exact absurd h (by simp)
  split at h
  · exact absurd h (by simp)
  next hMark =>
  split at h
  · exact absurd h (by simp)
  next hBlank =>
  refine ⟨hBreak, fun hSlash => ⟨fun hHead => hLine ⟨hSlash, hHead⟩, fun hHead => ?_⟩, hMark, ?_⟩
  · exact hBlock ⟨hSlash, hHead⟩
  · simpa using hBlank

/-- An expression takes the character that it starts with, and its text is there. -/
theorem exists_taken_of_startsText {c : Char} {rest : List Char} (h : StartsText c rest)
    (inValue : Bool) :
    ∃ more, (expressionSpan inValue .outside 0 (c :: rest)).1 = c :: more ∧
      expressionText (c :: more) ≠ [] := by
  have hComment : ¬(c = '/' ∧ rest.head? = some '/') := fun hHere =>
    (h.no_comment hHere.1).1 hHere.2
  have hSemicolon : c ≠ ';' := by
    rintro rfl
    exact absurd h.no_mark (by decide)
  obtain ⟨more, hTaken⟩ :=
    exists_expressionSpan_eq_cons (endsExpression_eq_false h.no_break hComment h.no_mark)
  refine ⟨more, hTaken, ?_⟩
  rw [expressionText_cons h.not_blank hSemicolon]
  simp

/-- The step at an expression notes one token, the expression. -/
theorem exists_noted_of_turn {state : State} {c : Char} {rest : List Char}
    (h : turn state c rest = .expression) :
    ∃ t text, (step state c rest).event = some (.token t) ∧ t.kind = .expression text ∧
      text ≠ "" := by
  obtain ⟨more, hTaken, hText⟩ := exists_taken_of_startsText (startsText_of_turn h)
    state.colonOnLine
  have hStep : step state c rest = stepExpression state (c :: rest) := by
    rw [step_eq_take, h]
    rfl
  rw [hStep, stepExpression_eq state (by rwa [hTaken]), hTaken]
  refine ⟨_, String.ofList (expressionText (c :: more)), rfl, rfl, fun hEmpty => hText ?_⟩
  rw [← String.toList_ofList (l := expressionText (c :: more)), hEmpty]
  rfl

-- ---------------------------------------------------------------------------
-- Runs
-- ---------------------------------------------------------------------------

/-- A run of the reader: `n` steps lead from one place to another, and the tokens are
noted on the way. -/
inductive Runs : Nat → State → List Char → List Token → State → List Char → Prop where
  | nil {state : State} {cs : List Char} : Runs 0 state cs [] state cs
  | cons {n : Nat} {state last : State} {c : Char} {rest back : List Char} {ts : List Token}
      (h : Runs n (step state c rest).state (step state c rest).rest ts last back) :
      Runs (n + 1) state (c :: rest)
        ((step state c rest).event.toList.filterMap Event.token? ++ ts) last back

namespace Runs

variable {n : Nat} {state last : State} {cs back : List Char} {ts : List Token}

/-- Every step leaves a character behind. -/
theorem add_length_le (h : Runs n state cs ts last back) : n + back.length ≤ cs.length := by
  induction h with
  | nil => rw [Nat.zero_add]
  | @cons n state last c rest back ts _ ih =>
    have hStep := length_step_rest_le state c rest
    rw [List.length_cons]
    omega

/-- Every step notes at most one token. -/
theorem length_le (h : Runs n state cs ts last back) : ts.length ≤ n := by
  induction h with
  | nil => rw [List.length_nil]
  | @cons n state last c rest back ts _ ih =>
    have hOne : ((step state c rest).event.toList.filterMap Event.token?).length ≤ 1 :=
      (List.length_filterMap_le _ _).trans Option.length_toList_le
    rw [List.length_append]
    omega

/-- What is noted on the way are the first tokens, and the others are noted from there
on. -/
theorem tokensFrom_eq (h : Runs n state cs ts last back) :
    tokensFrom state cs = ts ++ tokensFrom last back := by
  induction h with
  | nil => rfl
  | cons _ ih => rw [tokensFrom_cons, ih, List.append_assoc]

end Runs

/-- From every place the reader comes to the end of the text. -/
theorem exists_runs (state : State) (cs : List Char) :
    ∃ n last, Runs n state cs (tokensFrom state cs) last [] := by
  induction state, cs using events.induct with
  | case1 state =>
    rw [tokensFrom_nil]
    exact ⟨0, state, .nil⟩
  | case2 state c rest next _ _ _ ih =>
    obtain ⟨n, last, hRuns⟩ := ih
    rw [tokensFrom_cons]
    exact ⟨n + 1, last, .cons hRuns⟩

/-- **The reader gets on and comes to the end.** In every state a step goes on by at least
the character that it looks at. When it is the turn of an expression, the expression takes
this character, its text is not empty, and one token is noted for it. A run of any length
makes no more steps than the characters it leaves behind and notes no more tokens than it
makes steps; it can be continued to the end of the source, and the tokens of the source are
those of the two parts. So the reading ends, and a source has no more tokens than
characters. -/
theorem runs_tokenize (source : String) :
    (∀ state c rest,
      step state c rest = (turn state c rest).take state c rest ∧
      (step state c rest).rest <:+ rest ∧
      (turn state c rest = .expression →
        (∃ more, (expressionSpan state.colonOnLine .outside 0 (c :: rest)).1 = c :: more ∧
          expressionText (c :: more) ≠ []) ∧
        ∃ t text, (step state c rest).event = some (.token t) ∧ t.kind = .expression text ∧
          text ≠ "")) ∧
    (∀ n ts state cs, Runs n {} source.toList ts state cs →
      n + cs.length ≤ source.length ∧ ts.length ≤ n ∧
      ∃ m us last, Runs m state cs us last [] ∧ tokenize source = ts ++ us) ∧
    (∃ n last, n ≤ source.length ∧ Runs n {} source.toList (tokenize source) last []) ∧
    (tokenize source).length ≤ source.length := by
  obtain ⟨n, last, hAll⟩ := exists_runs {} source.toList
  have hSteps := hAll.add_length_le
  have hTokens := hAll.length_le
  rw [List.length_nil, Nat.add_zero, String.length_toList] at hSteps
  refine ⟨fun state c rest => ⟨step_eq_take state c rest, step_rest_suffix state c rest, ?_⟩,
    fun n ts state cs hRuns => ⟨?_, hRuns.length_le, ?_⟩, ⟨n, last, hSteps, hAll⟩, ?_⟩
  · intro hTurn
    exact ⟨exists_taken_of_startsText (startsText_of_turn hTurn) state.colonOnLine,
      exists_noted_of_turn hTurn⟩
  · have hFar := hRuns.add_length_le
    rwa [String.length_toList] at hFar
  · obtain ⟨m, stop, hRest⟩ := exists_runs state cs
    exact ⟨m, _, stop, hRest, hRuns.tokensFrom_eq⟩
  · exact hTokens.trans hSteps

/-- Behind a colon every character that is left starts an expression, here a slash. -/
theorem runs_tokenize_slash :
    turn { colonOnLine := true, valueNext := true } '/' ['a', '/'] = .expression ∧
      ∃ t text,
        (step { colonOnLine := true, valueNext := true } '/' ['a', '/']).event =
          some (.token t) ∧
        t.kind = .expression text ∧ text ≠ "" :=
  ⟨by decide, (((runs_tokenize "x: /a/").1 _ '/' ['a', '/']).2.2 (by decide)).2⟩

end BindingMarkup.Token
