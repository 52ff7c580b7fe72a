import BindingMarkup.Token.Lexer

/-!
# BindingMarkup — the types a document knows

Every type name that occurs in a document can be offered for completion,
also while the document has no outline. The names come from the tokens
alone: a name directly followed by the mark of a base and another name is
a definition with that base. The table is sorted by name, and the last
definition of a name decides its base.
-/

namespace BindingMarkup.Editor

/-- Type names with their bases, sorted by name, each name once. -/
abbrev TypeTable := List (String × Option String)

/-- The base type that the tokens behind a type name give it. -/
def baseAhead? : List Token → Option String
  | { kind := .isA, .. } :: { kind := .element base, .. } :: _ => some base
  | _ => none

/-- The type names of a list of tokens in order, each with its base. -/
def typeNames : List Token → List (String × Option String)
  | [] => []
  | { kind := .element name, .. } :: rest => (name, baseAhead? rest) :: typeNames rest
  | _ :: rest => typeNames rest

namespace TypeTable

/-- Enters a name. A base that is given replaces the one known before. -/
def record (name : String) (base : Option String) : TypeTable → TypeTable
  | [] => [(name, base)]
  | (other, known) :: rest =>
    if name = other then (other, base.or known) :: rest
    else if name < other then (name, base) :: (other, known) :: rest
    else (other, known) :: record name base rest

/-- The entry of a name: whether it is known, and its base. -/
def find? (name : String) : TypeTable → Option (Option String)
  | [] => none
  | (other, base) :: rest => if name = other then some base else find? name rest

end TypeTable

def knownTypes (text : String) : TypeTable :=
  (typeNames (Token.tokenize text)).foldl (fun table entry => table.record entry.1 entry.2) []

end BindingMarkup.Editor
