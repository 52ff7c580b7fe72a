import BindingMarkup.Text.Blank
import BindingMarkup.Text.Numeric
import BindingMarkup.Text.Occurrence

/-!
# BindingMarkup — looking ahead

Two decisions of the reader depend on what comes later on the line.

In value position a capitalised word is a type only when the statement
ends right behind it: `delegate: Item` names a type, while
`width: Math.max(a, b)` is a piece of script (`bareWordAhead`).

A semicolon inside a value may separate two statements of the same value
or end the value. It ends the value when the line, the node or a comment
follows, or when what follows is the next entry or the next node
(`statementContinues`).
-/

namespace BindingMarkup.Token

open Text

/-- The characters of an element name: ASCII letters, digits, `_` and `-`. -/
def isElementChar (c : Char) : Bool :=
  c.isAlphanum || c == '_' || c == '-'

/-- A capital may start a name and stand in it. -/
theorem isElementChar_of_isUpper {c : Char} (h : c.isUpper = true) : isElementChar c = true := by
  have hAlphanum : c.isAlphanum = true := by
    show ((c.isUpper || c.isLower) || c.isDigit) = true
    rw [h, Bool.true_or, Bool.true_or]
  rw [isElementChar, hAlphanum, Bool.true_or, Bool.true_or]

/-- The characters that open an expression outside value position. -/
def startsExpression (c : Char) : Bool :=
  c.isLower || c.isDigit || c == '"' || c == '\x27' || c == '(' || c == '-' || c == '_' || c == '['

/-- Whether a line comment starts here. -/
def startsComment : List Char → Bool
  | '/' :: '/' :: _ => true
  | _ => false

theorem startsComment_eq_false {c : Char} {rest : List Char}
    (h : ¬(c = '/' ∧ rest.head? = some '/')) : startsComment (c :: rest) = false := by
  unfold startsComment
  split
  · next hEq =>
    obtain ⟨rfl, rfl⟩ := List.cons.inj hEq
    exact absurd ⟨rfl, rfl⟩ h
  · rfl

/-- Whether the word at the front is followed by the end of its statement. -/
def bareWordAhead (cs : List Char) : Bool :=
  match (cs.dropWhile isElementChar).dropWhile isMargin with
  | [] => true
  | c :: rest => c == '\n' || c == ';' || c == '\x7d' || startsComment (c :: rest)

/-- Whether the text starts with a key and a colon: a name, perhaps a
parameter list, and the colon, with blanks between them. -/
def propertyAhead (cs : List Char) : Bool :=
  let name := cs.takeWhile isNameChar
  let rest := trimStart (cs.dropWhile isNameChar)
  !name.isEmpty &&
    match rest with
    | '(' :: args =>
      match splitAtFirst? ')' args with
      | some (_, rest) => (trimStart rest).head? == some ':'
      | none => false
    | _ => rest.head? == some ':'

/-- Whether the text starts with the header of a node: a capitalised word and
an opening brace or the mark of a base type. -/
def elementAhead (cs : List Char) : Bool :=
  (cs.head?.any Char.isUpper) &&
    match (trimStart (cs.dropWhile isElementChar)).head? with
    | some c => c == '\x7b' || c == '@'
    | none => false

/-- Whether the text after a semicolon belongs to the same value. -/
def statementContinues (cs : List Char) : Bool :=
  match cs.dropWhile isMargin with
  | [] => false
  | c :: rest =>
    !(c == '\n' || c == '\x7d' || startsComment (c :: rest)) &&
      !propertyAhead (c :: rest) && !elementAhead (c :: rest)

end BindingMarkup.Token
