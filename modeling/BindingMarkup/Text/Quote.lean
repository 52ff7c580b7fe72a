/-!
# BindingMarkup — quoted strings in script text

Values of the markup are pieces of script, so every scan over them must
know whether it stands inside a quoted string. Three characters open a
string: the double quote, the single quote and the backquote. The same
character closes it, unless a backslash stands before it. A scan carries
the state below and moves it by `next`, one character at a time; what a
line break inside a string means is for the scan to say.
-/

namespace BindingMarkup.Text

/-- The characters that open and close a string. -/
def isQuote (c : Char) : Bool :=
  c == '"' || c == '\x27' || c == '\x60'

/-- Where a scan stands with respect to quoted strings. -/
inductive Quote where
  | outside
  /-- In a string that `mark` closes. -/
  | inside (mark : Char)
  /-- In a string, right after a backslash. -/
  | escaped (mark : Char)
  deriving DecidableEq, Repr

def Quote.next : Quote → Char → Quote
  | .outside, c => if isQuote c then .inside c else .outside
  | .inside mark, c =>
    if c = '\\' then .escaped mark else if c = mark then .outside else .inside mark
  | .escaped mark, _ => .inside mark

/-- The bracket depth after one more character outside strings. A closer
without an opener leaves the depth at zero. -/
def bracketDepth (depth : Nat) (c : Char) : Nat :=
  if c = '(' ∨ c = '[' ∨ c = '\x7b' then depth + 1
  else if c = ')' ∨ c = ']' ∨ c = '\x7d' then depth - 1
  else depth

/-- The bracket depth after one more character, which counts only when it
stands outside strings. -/
def Quote.depth : Quote → Nat → Char → Nat
  | .outside, depth, c => bracketDepth depth c
  | _, depth, _ => depth

end BindingMarkup.Text
