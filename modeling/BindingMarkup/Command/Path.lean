/-!
# BindingMarkup — paths and module names

Paths are written with slashes. Empty segments and `.` say nothing, so a
slash at the end does not change what a path names. The name of a file is
the last segment that says something, unless that is `..`, and its stem
is the name up to the last dot; a dot at the very front does not count.

A module can be named after its file: the stem with a leading capital and
with every character that cannot stand in an identifier replaced by `_`.
-/

namespace BindingMarkup.Command

/-- The texts between the slashes of a path. -/
def segments : List Char → List (List Char)
  | [] => [[]]
  | c :: rest =>
    if c = '/' then [] :: segments rest
    else
      match segments rest with
      | [] => [[c]]
      | segment :: more => (c :: segment) :: more

/-- The segments that say something. -/
def names (path : List Char) : List (List Char) :=
  (segments path).filter fun segment => !segment.isEmpty && segment != ['.']

def fileName? (path : List Char) : Option (List Char) :=
  (names path).getLast?.filter (· != ['.', '.'])

/-- A name up to its last dot. A name without a dot, or with none but the one at
its front, is its own stem. -/
def stem (name : List Char) : List Char :=
  match (name.reverse.dropWhile (· != '.')).reverse.dropLast with
  | [] => name
  | front => front

/-- Whether a path stands for the standard input: it is `-`, up to segments
behind it that say nothing. -/
def isStandardInput (path : String) : Bool :=
  path.toList.head? == some '-' && names path.toList == [['-']]

-- ---------------------------------------------------------------------------
-- Module names
-- ---------------------------------------------------------------------------

/-- The characters of a module name. -/
def isModuleChar (c : Char) : Bool :=
  c.isAlphanum || c == '_' || c == '$'

/-- The characters of a stem as they stand in a module name, the first one
raised. -/
def moduleChars (stem : List Char) : List Char :=
  match stem.map fun c => if isModuleChar c then c else '_' with
  | [] => []
  | c :: rest => c.toUpper :: rest

def moduleName (path : String) : String :=
  let chars := moduleChars (stem ((fileName? path.toList).getD []))
  match chars with
  | [] => "_"
  | c :: _ => String.ofList (if c.isDigit then '_' :: chars else chars)

end BindingMarkup.Command
