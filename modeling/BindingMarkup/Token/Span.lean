import BindingMarkup.Text.Quote
import BindingMarkup.Token.Lookahead

/-!
# BindingMarkup — the extent of expressions, blocks and comments

Each function here takes the text behind the first character of something
and returns the part that belongs to it together with the rest. They walk
the text one character at a time and carry where they stand with respect
to strings and brackets.

* An **expression** ends with its line, at a line comment, at a closing
  brace that it did not open, at a semicolon that ends the value, and, as
  long as no colon was read on the line, at the colon behind the key.
* A **block** runs to the brace that closes it, over any number of lines.
  Line comments inside it are left out, so that the block can be written
  on one line.
* A **block comment** runs to its closing mark; one without a closing
  mark runs to the end.

None of them loses a character of the rest: `expressionSpan_append`,
`blockSpan_suffix`, `commentSpan_append`.
-/

namespace BindingMarkup.Token

open Text

-- ---------------------------------------------------------------------------
-- Expressions
-- ---------------------------------------------------------------------------

/-- Whether an expression ends before `c`. `inValue` says that the colon of
its line has been read. -/
def endsExpression (inValue : Bool) (quote : Quote) (depth : Nat) (c : Char)
    (rest : List Char) : Bool :=
  c == '\n' ||
    (quote == .outside &&
      (startsComment (c :: rest) ||
        (depth == 0 &&
          (c == '\x7d' || (c == ';' && !(inValue && statementContinues rest)) ||
            (c == ':' && !inValue)))))

/-- Outside of strings, only a line break and a comment end an expression inside
brackets. -/
theorem endsExpression_eq_false_of_outside {inValue : Bool} {depth : Nat} {c : Char}
    {rest : List Char} (hBreak : c ≠ '\n') (hComment : ¬(c = '/' ∧ rest.head? = some '/'))
    (hTop : depth = 0 → c ≠ '\x7d' ∧ c ≠ ';' ∧ (c = ':' → inValue = true)) :
    endsExpression inValue .outside depth c rest = false := by
  have hNoComment := startsComment_eq_false hComment
  cases depth with
  | zero =>
    obtain ⟨hClose, hSemicolon, hColon⟩ := hTop rfl
    simpa [endsExpression, hBreak, hNoComment, hClose, hSemicolon] using hColon
  | succ depth => simp [endsExpression, hBreak, hNoComment]

/-- Splits a text behind an expression. -/
def expressionSpan (inValue : Bool) : Quote → Nat → List Char → List Char × List Char
  | _, _, [] => ([], [])
  | quote, depth, c :: rest =>
    if endsExpression inValue quote depth c rest then ([], c :: rest)
    else
      let (more, rest) := expressionSpan inValue (quote.next c) (quote.depth depth c) rest
      (c :: more, rest)

/-- An expression and the rest make up the text. -/
theorem expressionSpan_append (inValue : Bool) (quote : Quote) (depth : Nat) (cs : List Char) :
    (expressionSpan inValue quote depth cs).1 ++ (expressionSpan inValue quote depth cs).2 =
      cs := by
  induction cs generalizing quote depth with
  | nil => rfl
  | cons c rest ih =>
    unfold expressionSpan
    split
    · rfl
    · simpa using ih (quote.next c) (quote.depth depth c)

theorem expressionSpan_suffix (inValue : Bool) (quote : Quote) (depth : Nat) (cs : List Char) :
    (expressionSpan inValue quote depth cs).2 <:+ cs :=
  ⟨_, expressionSpan_append inValue quote depth cs⟩

-- ---------------------------------------------------------------------------
-- Blocks
-- ---------------------------------------------------------------------------

/-- The number of open braces after one more character; other brackets do not
count towards the end of a block. -/
def braceDepth (quote : Quote) (depth : Nat) (c : Char) : Nat :=
  if quote = .outside ∧ c = '\x7b' then depth + 1
  else if quote = .outside ∧ c = '\x7d' then depth - 1
  else depth

/-- Splits a text behind a block of which `depth` braces are open. The first
part has no line comments; `comment` says that the scan is inside one. A
string ends with its line. -/
def blockSpan : Bool → Quote → Nat → List Char → List Char × List Char
  | _, _, _, [] => ([], [])
  | comment, quote, depth, c :: rest =>
    if c = '\n' then
      let (more, rest) := blockSpan false .outside depth rest
      (c :: more, rest)
    else if comment then blockSpan true .outside depth rest
    else if quote = .outside ∧ startsComment (c :: rest) then
      blockSpan true .outside depth rest
    else if quote = .outside ∧ c = '\x7d' ∧ depth ≤ 1 then ([c], rest)
    else
      let (more, rest) := blockSpan false (quote.next c) (braceDepth quote depth c) rest
      (c :: more, rest)

/-- What follows a block is what stands at the end of the text. -/
theorem blockSpan_suffix (comment : Bool) (quote : Quote) (depth : Nat) (cs : List Char) :
    (blockSpan comment quote depth cs).2 <:+ cs := by
  induction cs generalizing comment quote depth with
  | nil => exact List.suffix_rfl
  | cons c rest ih =>
    unfold blockSpan
    split
    · exact (ih false .outside depth).trans (List.suffix_cons c rest)
    · split
      · exact (ih true .outside depth).trans (List.suffix_cons c rest)
      · split
        · exact (ih true .outside depth).trans (List.suffix_cons c rest)
        · split
          · exact List.suffix_cons c rest
          · exact (ih false _ _).trans (List.suffix_cons c rest)

-- ---------------------------------------------------------------------------
-- Block comments
-- ---------------------------------------------------------------------------

/-- Splits a text behind the closing mark of a block comment. -/
def commentSpan : List Char → List Char × List Char
  | [] => ([], [])
  | '*' :: '/' :: rest => (['*', '/'], rest)
  | c :: rest =>
    let (more, rest) := commentSpan rest
    (c :: more, rest)

/-- A comment and the rest make up the text. -/
theorem commentSpan_append (cs : List Char) :
    (commentSpan cs).1 ++ (commentSpan cs).2 = cs := by
  fun_induction commentSpan cs with
  | case1 => rfl
  | case2 => rfl
  | case3 c rest _ more back hEq ih =>
    rw [hEq] at ih
    simpa using ih

theorem commentSpan_suffix (cs : List Char) : (commentSpan cs).2 <:+ cs :=
  ⟨_, commentSpan_append cs⟩

end BindingMarkup.Token
