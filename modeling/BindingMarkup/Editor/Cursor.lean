import BindingMarkup.Text.Line
import BindingMarkup.Text.Numeric

/-!
# BindingMarkup — the word at the cursor

An editor asks about a place in a text: a line and a column, both counted
from zero, the column in bytes. The word at that place is made of the
word characters that end there and those that start there.

The beginning of the word is reckoned as one byte behind the beginning of
the character before it. Where that character takes several bytes, the
reckoning lands inside the character and there is no text to cut out; the
question is then answered with a `Fault` and not with a word.
-/

namespace BindingMarkup.Editor

open Text

/-- A place in a text, line and column counted from zero. -/
structure Position where
  line : Nat
  /-- The column in bytes of the UTF-8 form of the line. -/
  character : Nat
  deriving DecidableEq, Repr

inductive Fault where
  /-- The beginning of the word falls inside a character. -/
  | insideCharacter
  deriving DecidableEq, Repr

def isWordChar (c : Char) : Bool :=
  isAlphanumeric c || c == '_'

/-- The line of a text at a position, if the text has it. -/
def lineAt? (text : String) (position : Position) : Option (List Char) :=
  (lines text.toList)[position.line]?

/-- The column at which a word that runs up to the end of `front` begins: one
byte behind the beginning of the last character that is not part of it. -/
def wordStart (front : List Char) : Nat :=
  match front.reverse.dropWhile isWordChar with
  | [] => 0
  | _ :: before => byteLength before + 1

/-- The column at which a word ends that reaches from `front` into `back`. -/
def wordStop (front back : List Char) : Nat :=
  byteLength front + byteLength (back.takeWhile isWordChar)

/-- The word at a position, if there is one. -/
def wordAt (text : String) (position : Position) : Except Fault (Option String) :=
  match lineAt? text position with
  | none => .ok none
  | some line =>
    let (front, back) := cut position.character line
    if wordStart front < wordStop front back then
      match slice? (wordStart front) (wordStop front back) line with
      | some word => .ok (some (String.ofList word))
      | none => .error .insideCharacter
    else .ok none

end BindingMarkup.Editor
