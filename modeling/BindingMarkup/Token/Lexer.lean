import BindingMarkup.Text.Hidden
import BindingMarkup.Text.Line
import BindingMarkup.Token
import BindingMarkup.Token.Block
import BindingMarkup.Token.Span

/-!
# BindingMarkup — reading tokens

The reader never fails: a character that starts nothing is skipped, and
everything about grammar is left to the outline. It carries three facts
from one step to the next: the line, whether a colon was read on this
line since the last end of a statement, and whether the last token was a
colon, so that a value comes next. The first colon of a line ends a key
and every later one belongs to the value, as in `a ? b : c`.

One step looks at one character, consumes it and perhaps more, and notes
at most one event: a token, or a skipped character. A reading is the
list of events of all steps and the number of the last line.

* `step_rest_suffix` — a step leaves a final part of what follows its first
  character, so it makes progress; this is why `events` ends. Behind it
  stand the facts that an element, an expression and a block take at
  least the character they start with.
-/

namespace BindingMarkup.Token

open Text

-- ---------------------------------------------------------------------------
-- State and events
-- ---------------------------------------------------------------------------

/-- What the reader knows between two steps. -/
structure State where
  line : Nat := 1
  /-- A colon was read on this line since the last end of a statement. -/
  colonOnLine : Bool := false
  valueNext : Bool := false
  deriving DecidableEq, Repr

/-- The state behind a text without tokens: it counts the line breaks, and a
line break forgets the colon. -/
def State.pass (state : State) (text : List Char) : State :=
  { state with
    line := state.line + text.count '\n'
    colonOnLine := state.colonOnLine && text.count '\n' == 0 }

inductive Event where
  | token (t : Token)
  /-- A character that starts nothing, on the given line. -/
  | skipped (line : Nat) (c : Char)
  deriving DecidableEq, Repr

def Event.token? : Event → Option Token
  | .token t => some t
  | .skipped _ _ => none

def Event.describe : Event → String
  | .token t => "line " ++ toString t.line ++ ": " ++ t.kind.describe
  | .skipped line c => "line " ++ toString line ++ ": skipping " ++ charName c

structure Step where
  event : Option Event
  state : State
  rest : List Char

-- ---------------------------------------------------------------------------
-- One step
-- ---------------------------------------------------------------------------

/-- The context of a token that starts at the front of `start`: the rest of the
line, without blanks at its end. -/
def contextOf (start : List Char) : String :=
  String.ofList (trimEnd (firstLine start))

/-- The step that notes a token which starts at the front of `start`. -/
def stepToken (state : State) (kind : Kind) (line : Nat) (start rest : List Char) : Step where
  event := some (.token { kind, line, context := contextOf start })
  state := { state with valueNext := kind == .colon }
  rest := rest

/-- A single mark. A closing brace and a semicolon end the statement, a colon
opens its value. -/
def stepMark (state : State) (kind : Kind) (c : Char) (rest : List Char) : Step :=
  let colonOnLine :=
    match kind with
    | .scopeEnd | .semicolon => false
    | .colon => true
    | _ => state.colonOnLine
  stepToken { state with colonOnLine } kind state.line (c :: rest) rest

/-- A semicolon at the front of what follows is taken along and ends the
statement. -/
def State.terminate (state : State) : List Char → State × List Char
  | ';' :: after => ({ state with colonOnLine := false }, after)
  | after => (state, after)

/-- An element name is as long as possible. -/
def stepElement (state : State) (start : List Char) : Step :=
  let name := String.ofList (start.takeWhile isElementChar)
  let (state', after) := state.terminate (start.dropWhile isElementChar)
  stepToken state' (.element name) state.line start after

/-- The text of an expression: the characters taken, without blanks at the ends
and without one last semicolon. -/
def expressionText (taken : List Char) : List Char :=
  trimEnd (stripBack ';' (trim taken))

/-- An expression runs as far as its span. Nothing is noted for an empty
text. -/
def stepExpression (state : State) (start : List Char) : Step :=
  let (taken, after) := expressionSpan state.colonOnLine .outside 0 start
  let (state', after) := state.terminate after
  let text := expressionText taken
  if text.isEmpty then { event := none, state := state', rest := after }
  else stepToken state' (.expression (String.ofList text)) state.line start after

/-- Drops a semicolon that follows at once or behind spaces and tabs. -/
def skipTerminator (cs : List Char) : List Char :=
  match cs.dropWhile fun c => c == ' ' || c == '\t' with
  | ';' :: after => after
  | _ => cs

/-- A braced value becomes one expression, and the statement ends with it. -/
def stepBlock (state : State) (start : List Char) : Step :=
  let (raw, after) := blockSpan false .outside 0 start
  stepToken { state.pass raw with colonOnLine := false }
    (.expression (String.ofList (blockValue raw))) state.line start (skipTerminator after)

/-- One step of the reader at the character `c` with `rest` behind it. -/
def step (state : State) (c : Char) (rest : List Char) : Step :=
  if c = '\n' then { event := none, state := state.pass [c], rest }
  else if c = '/' ∧ rest.head? = some '/' then
    { event := none, state, rest := afterFirstLine rest }
  else if c = '/' ∧ rest.head? = some '*' then
    let (comment, after) := commentSpan (rest.drop 1)
    { event := none, state := state.pass comment, rest := after }
  else if c = '\x7b' ∧ state.valueNext then stepBlock state (c :: rest)
  else
    match Kind.ofMark? c with
    | some kind => stepMark state kind c rest
    | none =>
      if isBlank c then { event := none, state, rest }
      else if c.isUpper && (!state.valueNext || bareWordAhead (c :: rest)) then
        stepElement state (c :: rest)
      else if state.valueNext || startsExpression c then stepExpression state (c :: rest)
      else { event := some (.skipped state.line c), state, rest }

-- ---------------------------------------------------------------------------
-- Progress
-- ---------------------------------------------------------------------------

theorem skipTerminator_suffix (cs : List Char) : skipTerminator cs <:+ cs := by
  unfold skipTerminator
  split
  · next after hEq =>
    have hDrop : ';' :: after <:+ cs := hEq ▸ List.dropWhile_suffix _
    exact (List.suffix_cons ';' after).trans hDrop
  · exact List.suffix_rfl

theorem terminate_suffix (state : State) (cs : List Char) : (state.terminate cs).2 <:+ cs := by
  unfold State.terminate
  split
  · exact List.suffix_cons ..
  · exact List.suffix_rfl

/-- A capital belongs to the name that it starts. -/
theorem stepElement_rest_suffix (state : State) {c : Char} (hUpper : c.isUpper = true)
    (rest : List Char) : (stepElement state (c :: rest)).rest <:+ rest := by
  refine (terminate_suffix state _).trans ?_
  rw [List.dropWhile_cons_of_pos (isElementChar_of_isUpper hUpper)]
  exact List.dropWhile_suffix _

/-- A character that is no mark, no line break and no start of a comment belongs
to the expression that it starts. -/
theorem endsExpression_eq_false {inValue : Bool} {c : Char} {rest : List Char}
    (hBreak : c ≠ '\n') (hComment : ¬(c = '/' ∧ rest.head? = some '/'))
    (hMark : Kind.ofMark? c = none) : endsExpression inValue .outside 0 c rest = false := by
  have hNone : c ≠ '\x7d' ∧ c ≠ ':' ∧ c ≠ ';' := by
    refine ⟨?_, ?_, ?_⟩ <;> rintro rfl <;> exact absurd hMark (by decide)
  exact endsExpression_eq_false_of_outside hBreak hComment fun _ =>
    ⟨hNone.1, hNone.2.2, fun hColon => absurd hColon hNone.2.1⟩

theorem stepExpression_rest_suffix (state : State) {c : Char} {rest : List Char}
    (hEnds : endsExpression state.colonOnLine .outside 0 c rest = false) :
    (stepExpression state (c :: rest)).rest <:+ rest := by
  have hSpan : (expressionSpan state.colonOnLine .outside 0 (c :: rest)).2 <:+ rest := by
    rw [expressionSpan, if_neg (by simp [hEnds])]
    exact expressionSpan_suffix ..
  have hRest := (terminate_suffix state _).trans hSpan
  unfold stepExpression
  dsimp only
  split <;> exact hRest

/-- An opening brace belongs to the block that it starts. -/
theorem stepBlock_rest_suffix (state : State) (rest : List Char) :
    (stepBlock state ('\x7b' :: rest)).rest <:+ rest := by
  have hSpan : (blockSpan false .outside 0 ('\x7b' :: rest)).2 <:+ rest := by
    rw [blockSpan, if_neg (by decide), if_neg (by decide), if_neg (by simp [startsComment]),
      if_neg (by decide)]
    exact blockSpan_suffix ..
  exact (skipTerminator_suffix _).trans hSpan

/-- A step leaves a final part of what follows its first character. -/
theorem step_rest_suffix (state : State) (c : Char) (rest : List Char) :
    (step state c rest).rest <:+ rest := by
  unfold step
  split
  · exact List.suffix_rfl
  next hBreak =>
  split
  · exact List.dropWhile_suffix _
  next hComment =>
  split
  · exact (commentSpan_suffix _).trans (List.drop_suffix 1 rest)
  split
  · next hBrace => exact hBrace.1 ▸ stepBlock_rest_suffix state rest
  split
  · exact List.suffix_rfl
  next hMark =>
  split
  · exact List.suffix_rfl
  split
  · next hUpper =>
    rw [Bool.and_eq_true] at hUpper
    exact stepElement_rest_suffix state hUpper.1 rest
  split
  · exact stepExpression_rest_suffix state (endsExpression_eq_false hBreak hComment hMark)
  · exact List.suffix_rfl

theorem length_step_rest_le (state : State) (c : Char) (rest : List Char) :
    (step state c rest).rest.length ≤ rest.length :=
  (step_rest_suffix state c rest).length_le

-- ---------------------------------------------------------------------------
-- Whole texts
-- ---------------------------------------------------------------------------

/-- The events of a text from a given state on, and the state at its end. -/
def events (state : State) : List Char → List Event × State
  | [] => ([], state)
  | c :: rest =>
    let next := step state c rest
    let (more, last) := events next.state next.rest
    (next.event.toList ++ more, last)
termination_by cs => cs.length
decreasing_by
  exact Nat.lt_succ_of_le (length_step_rest_le state c rest)

structure Reading where
  events : List Event
  lines : Nat
  deriving DecidableEq, Repr

def read (source : String) : Reading :=
  let (events, last) := events {} source.toList
  { events, lines := last.line }

def Reading.tokens (reading : Reading) : List Token :=
  reading.events.filterMap Event.token?

def tokenize (source : String) : List Token :=
  (read source).tokens

end BindingMarkup.Token
