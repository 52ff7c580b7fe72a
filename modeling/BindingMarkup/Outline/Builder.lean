import BindingMarkup.Outline
import BindingMarkup.Problem
import BindingMarkup.Text.Numeric

/-!
# BindingMarkup — from tokens to an outline

An outline is built from left to right, one token at a time. A **draft**
is what has been built so far: the nodes, the innermost open node, and
what the tokens since the last finished entry or brace promise
(`Pending`). Each token either extends the draft or is the place of the
one problem that ends the work; there is no recovery.

Semicolons may stand anywhere between entries and inside a header, but
not between a key, its colon and its value.
-/

namespace BindingMarkup

open Text

-- ---------------------------------------------------------------------------
-- Drafts
-- ---------------------------------------------------------------------------

/-- What has been read of an unfinished header or entry. -/
inductive Pending where
  | nothing
  | header (name : String)
  /-- A new type and the mark of its base. -/
  | definition (name : String)
  /-- A new type, the mark and the base. -/
  | base (name base : String)
  | key (t : Token) (name : String)
  | value (name : String)
  deriving DecidableEq, Repr

/-- The name at the front of an unfinished header. -/
def Pending.header? : Pending → Option String
  | .header name => some name
  | .definition name => some name
  | .base name _ => some name
  | _ => none

structure Draft where
  outline : Outline
  /-- The innermost open node. -/
  current : Nat
  pending : Pending
  deriving DecidableEq, Repr

namespace Draft

def empty : Draft where
  outline := Outline.empty
  current := 0
  pending := .nothing

/-- Changes the innermost open node and leaves nothing pending. -/
def enter (draft : Draft) (change : Node → Node) : Draft :=
  { draft with
    outline := { nodes := draft.outline.nodes.modify draft.current change }
    pending := .nothing }

/-- Opens a node inside the innermost one. The new node goes to the end of the
list, and its place to the children of the node around it. -/
def openNode (draft : Draft) (typeName : String) (role : Role) (line : Nat) : Draft :=
  let i := draft.outline.nodes.size
  let link (node : Node) : Node :=
    match role with
    | .definition _ => { node with types := node.types ++ [i] }
    | _ => { node with elements := node.elements ++ [i] }
  let linked := draft.outline.nodes.modify draft.current link
  { outline := { nodes := linked.push { typeName, role, parent := some draft.current, line } }
    current := i
    pending := .nothing }

-- ---------------------------------------------------------------------------
-- Entries
-- ---------------------------------------------------------------------------

/-- Identifiers of the generated script: a letter, `_` or `$`, and then name
characters. -/
def isIdentifier (name : String) : Bool :=
  match name.toList with
  | [] => false
  | c :: rest => (isAlphabetic c || c == '_' || c == '$') && rest.all isNameChar

/-- The token behind the key `name`, which stands at `key`. -/
def afterKey (draft : Draft) (key : Token) (name : String) (t : Token) :
    Except Problem Draft :=
  if t.kind ≠ .colon then .error (.atToken (.missingColon name) key)
  else if name.toList.head?.any Char.isDigit then .error (.atToken (.digitName name) key)
  else if draft.current = 0 then .error (.atToken (.propertyAtRoot name) key)
  else .ok { draft with pending := .value name }

/-- The entry `name: value` of the innermost node. An id is no property; a
later id takes the place of an earlier one. -/
def addEntry (draft : Draft) (name value : String) (t : Token) (add : Node → Node) :
    Except Problem Draft :=
  if name = "id" then
    if isIdentifier value then .ok (draft.enter fun node => { node with id := some value })
    else .error (.atToken (.invalidId value) t)
  else .ok (draft.enter add)

/-- The token behind the key `name` and its colon. -/
def afterColon (draft : Draft) (name : String) (t : Token) : Except Problem Draft :=
  match t.kind with
  | .expression value =>
    draft.addEntry name value t fun node =>
      { node with properties := node.properties ++ [{ name, value, line := t.line }] }
  | .element target =>
    draft.addEntry name target t fun node =>
      { node with delegates := node.delegates ++ [{ name, target, line := t.line }] }
  | found => .error (.atToken (.notAValue name found) t)

-- ---------------------------------------------------------------------------
-- Headers and braces
-- ---------------------------------------------------------------------------

def onElement (draft : Draft) (name : String) (t : Token) : Except Problem Draft :=
  match draft.pending with
  | .header previous => .error (.atToken (.elementAfterElement previous name) t)
  | .base _ previous => .error (.atToken (.elementAfterElement previous name) t)
  | .definition defined => .ok { draft with pending := .base defined name }
  | _ => .ok { draft with pending := .header name }

def onIsA (draft : Draft) (t : Token) : Except Problem Draft :=
  match draft.pending with
  | .header name => .ok { draft with pending := .definition name }
  | .definition _ => .error (.atToken .secondBase t)
  | .base _ _ => .error (.atToken .secondBase t)
  | _ => .error (.atToken .strayIsA t)

def onScopeStart (draft : Draft) (t : Token) : Except Problem Draft :=
  match draft.pending with
  | .header name => .ok (draft.openNode name .element t.line)
  | .base name base => .ok (draft.openNode name (.definition base) t.line)
  | .definition name => .error (.atToken (.missingBase name) t)
  | _ => .error (.atToken .missingElement t)

def onScopeEnd (draft : Draft) (t : Token) : Except Problem Draft :=
  match draft.pending.header? with
  | some name => .error (.atToken (.closeAfterHeader name) t)
  | none =>
    match (draft.outline.node draft.current).parent with
    | some parent => .ok { draft with current := parent }
    | none => .error (.atToken .unmatchedClose t)

def onKey (draft : Draft) (name : String) (t : Token) : Except Problem Draft :=
  match draft.pending.header? with
  | some pending => .error (.atToken (.propertyAfterHeader pending name) t)
  | none => .ok { draft with pending := .key t name }

-- ---------------------------------------------------------------------------
-- Whole documents
-- ---------------------------------------------------------------------------

def step (draft : Draft) (t : Token) : Except Problem Draft :=
  match draft.pending with
  | .key key name => draft.afterKey key name t
  | .value name => draft.afterColon name t
  | _ =>
    match t.kind with
    | .element name => draft.onElement name t
    | .isA => draft.onIsA t
    | .scopeStart => draft.onScopeStart t
    | .scopeEnd => draft.onScopeEnd t
    | .expression name => draft.onKey name t
    | .colon => .error (.atToken .strayColon t)
    | .semicolon => .ok draft

/-- The outline of a draft at the end of the document, whose last token is
`last`. -/
def finish (draft : Draft) (last : Option Token) : Except Problem Outline :=
  match draft.pending with
  | .key key name => .error (.atToken (.missingColon name) key)
  | .value name => .error (.atEnd (.missingValue name) last)
  | .header name => .error (.atEnd (.endAfterHeader name) last)
  | .definition name => .error (.atEnd (.endAfterHeader name) last)
  | .base name _ => .error (.atEnd (.endAfterHeader name) last)
  | .nothing =>
    if draft.current = 0 then .ok draft.outline
    else
      let node := draft.outline.node draft.current
      .error (.atEnd (.unclosed node.typeName node.line) last)

end Draft

/-- Builds the outline of a list of tokens, or finds its first problem. -/
def Outline.build (tokens : List Token) : Except Problem Outline := do
  let draft ← tokens.foldlM Draft.step Draft.empty
  draft.finish tokens.getLast?

end BindingMarkup
