import BindingMarkup.Text.Json

/-!
# BindingMarkup — tokens

A document is read as a list of tokens. Two kinds carry text: an
**element** is a word with a leading capital, which names a type; an
**expression** is a key, a value, or a braced block captured whole. The
other five kinds are single marks.

A token remembers the line it starts on and its **context**, the rest of
that line from the token on. Both serve error messages, and the editor
finds the column of a token again from its context. For other programs a
token is written as a JSON object with its kind, its text if it has one,
its line and its context, in this order.
-/

namespace BindingMarkup

inductive Token.Kind where
  /-- A word with a leading capital: the name of a type. -/
  | element (name : String)
  /-- A key, a value, or a braced block taken as a value. -/
  | expression (text : String)
  | scopeStart
  | scopeEnd
  | colon
  /-- The mark between a new type and its base. -/
  | isA
  /-- A semicolon that ends nothing; it is allowed between entries. -/
  | semicolon
  deriving DecidableEq, Repr

/-- A token with the place where it starts. -/
structure Token where
  kind : Token.Kind
  /-- The line it starts on, counted from one. -/
  line : Nat
  /-- The rest of that line from the token on, without blanks at the end. -/
  context : String
  deriving DecidableEq, Repr

namespace Token.Kind

def label : Kind → String
  | element _ => "ELEMENT"
  | expression _ => "EXPRESSION"
  | scopeStart => "SCOPE_START"
  | scopeEnd => "SCOPE_END"
  | colon => "COLON"
  | isA => "IS_A"
  | semicolon => "SEMICOLON"

def text? : Kind → Option String
  | element name => some name
  | expression text => some text
  | _ => none

def describe : Kind → String
  | element name => "element type `" ++ name ++ "`"
  | expression text => "expression `" ++ text ++ "`"
  | scopeStart => "'\x7b'"
  | scopeEnd => "'\x7d'"
  | colon => "':'"
  | isA => "'@'"
  | semicolon => "';'"

/-- The kind written by a single mark. -/
def ofMark? (c : Char) : Option Kind :=
  if c = '\x7b' then some scopeStart
  else if c = '\x7d' then some scopeEnd
  else if c = ':' then some colon
  else if c = '@' then some isA
  else if c = ';' then some semicolon
  else none

end Token.Kind

namespace Token

open Text

def toJson (t : Token) : Json :=
  .object
    ([("kind", .string t.kind.label)] ++
      t.kind.text?.toList.map (fun text => ("data", .string text)) ++
      [("line", .number t.line), ("context", .string t.context)])

def listToJson (tokens : List Token) : Json :=
  .array (tokens.map toJson)

end Token

end BindingMarkup
