import BindingMarkup.Text.Blank
import BindingMarkup.Text.Numeric
import BindingMarkup.Text.Quote

/-!
# BindingMarkup — braced values

A value in braces is either an object (`{ a: 1, b: 2 }`), kept with its
braces, or a list of statements (`{ go(); }`), whose braces fall away
because the generated function has its own. The text alone decides: an
empty block is an object, and so is a block whose first item at the top
level is a key and a colon, provided no semicolon stands at the top
level. Everything else is statements. A statement with a label looks like
an object with one entry and is read as one.
-/

namespace BindingMarkup.Token

open Text

inductive BlockKind where
  /-- Keys and values; the braces belong to the value. -/
  | object
  /-- Statements; the braces are dropped. -/
  | statements
  deriving DecidableEq, Repr

/-- The text between the outer braces, where they are present. -/
def stripBraces (raw : List Char) : List Char :=
  stripBack '\x7d' (stripFront '\x7b' (trim raw))

/-- The text before the first `mark` that stands outside strings and outside
all brackets, for a scan that starts in the given state. -/
def beforeTop? (mark : Char) : Quote → Nat → List Char → Option (List Char)
  | _, _, [] => none
  | quote, depth, c :: rest =>
    if quote = .outside ∧ depth = 0 ∧ c = mark then some []
    else (beforeTop? mark (quote.next c) (quote.depth depth c) rest).map (c :: ·)

/-- Whether a text is quoted as a whole by a pair of double or single quotes. -/
def isQuoted (cs : List Char) : Bool :=
  decide (2 ≤ cs.length) &&
    ((cs.head? == some '"' && cs.getLast? == some '"') ||
      (cs.head? == some '\x27' && cs.getLast? == some '\x27'))

/-- The keys of an object: names, numbers and quoted texts. -/
def isObjectKey (key : List Char) : Bool :=
  isQuoted key || (!key.isEmpty && key.all isNameChar)

def classifyBlock (raw : List Char) : BlockKind :=
  let body := trim (stripBraces raw)
  if body.isEmpty then .object
  else if (beforeTop? ';' .outside 0 body).isSome then .statements
  else
    match beforeTop? ':' .outside 0 body with
    | some key => if isObjectKey (trim key) then .object else .statements
    | none => .statements

/-- The value that a captured block stands for. -/
def blockValue (raw : List Char) : List Char :=
  match classifyBlock raw with
  | .object => trim raw
  | .statements => trim (stripBraces raw)

end BindingMarkup.Token
