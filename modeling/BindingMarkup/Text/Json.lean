import BindingMarkup.Text.Literal

/-!
# BindingMarkup — JSON text

The command can write its tokens and its outline as JSON for other
programs to read. `Json` is the part of JSON that these need: no
fractions, no signs, no booleans. Objects keep their members in the order
given.

The layout is the usual indented one: two spaces a level, one member or
item a line, a space after the colon, and `[]` or `{}` for nothing. In
strings the quote, the backslash and the controls below `U+0020` are
escaped and all else stands for itself.
-/

namespace BindingMarkup.Text

inductive Json where
  | null
  | number (n : Nat)
  | string (s : String)
  | array (items : List Json)
  | object (members : List (String × Json))

namespace Json

/-- A value that may be missing, written as `null` when it is. -/
def ofOption {α : Type} (encode : α → Json) : Option α → Json
  | some a => encode a
  | none => .null

/-- How one character is written inside a string. -/
def stringChar (c : Char) : List Char :=
  if c = '"' then ['\\', '"']
  else if c = '\\' then ['\\', '\\']
  else if c = '\x08' then ['\\', 'b']
  else if c = '\x0c' then ['\\', 'f']
  else if c = '\n' then ['\\', 'n']
  else if c = '\r' then ['\\', 'r']
  else if c = '\t' then ['\\', 't']
  else if c.toNat < 0x20 then '\\' :: 'u' :: hex4 c.toNat
  else [c]

/-- A text as a JSON string, quotes included. -/
def quote (s : String) : List Char :=
  '"' :: s.toList.flatMap stringChar ++ ['"']

/-- A line break and the indentation of a level. -/
def newLine (level : Nat) : List Char :=
  '\n' :: List.replicate (2 * level) ' '

mutual

/-- The text of a value whose first character stands on a line of the given
level. -/
def write (level : Nat) : Json → List Char
  | .null => ['n', 'u', 'l', 'l']
  | .number n => Nat.toDigits 10 n
  | .string s => quote s
  | .array [] => ['[', ']']
  | .array (item :: more) =>
    '[' :: newLine (level + 1) ++ write (level + 1) item ++ writeItems (level + 1) more ++
      newLine level ++ [']']
  | .object [] => ['\x7b', '\x7d']
  | .object ((key, value) :: more) =>
    '\x7b' :: newLine (level + 1) ++ quote key ++ [':', ' '] ++ write (level + 1) value ++
      writeMembers (level + 1) more ++ newLine level ++ ['\x7d']

/-- The items after the first, each on a line of its own. -/
def writeItems (level : Nat) : List Json → List Char
  | [] => []
  | item :: more => ',' :: newLine level ++ write level item ++ writeItems level more

/-- The members after the first, each on a line of its own. -/
def writeMembers (level : Nat) : List (String × Json) → List Char
  | [] => []
  | (key, value) :: more =>
    ',' :: newLine level ++ quote key ++ [':', ' '] ++ write level value ++
      writeMembers level more

end

def render (value : Json) : String :=
  String.ofList (write 0 value)

end Json

end BindingMarkup.Text
