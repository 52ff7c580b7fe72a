import BindingMarkup.Compile
import BindingMarkup.Editor.Cursor
import BindingMarkup.Editor.Describe
import BindingMarkup.Editor.KnownTypes
import BindingMarkup.Text.Case
import BindingMarkup.Text.Occurrence

/-!
# BindingMarkup — hover texts

Over a capitalised word the editor shows what the document says about the
type of that name: its definition, if the document has an outline that
defines it, and otherwise what the tokens tell. Over any other word it
explains the entry of the line, provided the word begins the key.
-/

namespace BindingMarkup.Editor

open Text

def describeDefinition (node : Node) : String :=
  "**" ++ node.typeName ++ "** extends **" ++ node.role.base?.getD "" ++ "**\n\n" ++
    toString node.properties.length ++ " properties, " ++
    toString node.delegates.length ++ " delegates, " ++
    toString node.elements.length ++ " children · line " ++ toString node.line

/-- The definition of a type, if the text has an outline that holds one. -/
def definitionOf? (text word : String) : Option Node :=
  match Outline.parse text with
  | .ok outline => outline.findType? word
  | .error _ => none

def hoverType (text word : String) : Option String :=
  match definitionOf? text word with
  | some node => some (describeDefinition node)
  | none =>
    ((knownTypes text).find? word).map fun
      | some base => "**" ++ word ++ "** extends **" ++ base ++ "**"
      | none => "**" ++ word ++ "** · element type"

/-- Whether the text behind a colon reads as the name of a type. -/
def isTypeName (value : List Char) : Bool :=
  value.head?.any isUppercase && value.all fun c => isAlphanumeric c || c == '_' || c == '-'

/-- The explanation of the entry on a line, if `word` begins its key. -/
def hoverEntry (line word : List Char) : Option String :=
  match splitAtFirst? ':' line with
  | none => none
  | some (front, back) =>
    let key := trim front
    let value := ((trim back).reverse.dropWhile (· == ';')).reverse
    if !word.isPrefixOf key then none
    else if isTypeName value && key != ['i', 'd'] then
      some (describeDelegate (String.ofList key) (String.ofList value))
    else some (describeKey (String.ofList key))

/-- The hover text at a position, if there is one. -/
def hoverAt (text : String) (position : Position) : Except Fault (Option String) :=
  match wordAt text position with
  | .error fault => .error fault
  | .ok none => .ok none
  | .ok (some word) =>
    if word.toList.head?.any isUppercase then .ok (hoverType text word)
    else .ok ((lineAt? text position).bind fun line => hoverEntry line word.toList)

end BindingMarkup.Editor
