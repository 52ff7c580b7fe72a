import BindingMarkup.Compile
import BindingMarkup.Editor.Context
import BindingMarkup.Editor.Describe
import BindingMarkup.Editor.KnownTypes

/-!
# BindingMarkup — completion

Where a type belongs, the types of the document are offered together with
the braces of the new node; where a value belongs, the same types without
braces. Where a key belongs, the keys of every node are offered and then
the keys that nodes of the same type already use in the document.
-/

namespace BindingMarkup.Editor

inductive ItemKind where
  /-- A type that the document defines. -/
  | definedType
  /-- A type that the document only uses. -/
  | usedType
  /-- A key that every node may have. -/
  | keyword
  /-- A key found on another node. -/
  | property
  deriving DecidableEq, Repr

def ItemKind.number : ItemKind → Nat
  | definedType => 7
  | usedType => 22
  | keyword => 14
  | property => 10

/-- An offer to complete the text at the cursor. -/
structure Item where
  label : String
  kind : ItemKind
  detail : String
  /-- A snippet to insert in place of the label. -/
  snippet : Option String
  deriving DecidableEq, Repr

def typeItem (withBraces : Bool) (name : String) (base : Option String) : Item where
  label := name
  kind := if base.isSome then .definedType else .usedType
  detail :=
    match base with
    | some base => "extends " ++ base
    | none => "element type"
  snippet := if withBraces then some (name ++ " \x7b\n\t$0\n\x7d") else none

def typeItems (text : String) (withBraces : Bool) : List Item :=
  (knownTypes text).map fun (name, base) => typeItem withBraces name base

/-- The offers that do not depend on the document. -/
def snippetItems : List Item :=
  keySnippets.map fun snippet =>
    { label := snippet.label, kind := .keyword, detail := snippet.doc
      snippet := some snippet.insert }

/-- The keys on nodes of a type, each once, in the order of the document. -/
def keysOn (outline : Outline) (element : String) : List String :=
  ((outline.nodes.toList.filter fun node => node.typeName == element).flatMap fun node =>
    node.properties.map (·.name)).eraseDups

/-- The offers of keys for a node of type `element`. -/
def keyItems (text element : String) : List Item :=
  let used :=
    match Outline.parse text with
    | .ok outline => keysOn outline element
    | .error _ => []
  snippetItems ++
    used.map fun name =>
      { label := name, kind := .property, detail := "used on " ++ element
        snippet := some (name ++ ": $0") }

def offersAt (text : String) (position : Position) : List Item :=
  match contextAt text position with
  | .element => typeItems text true
  | .property element => keyItems text element
  | .value _ _ => typeItems text false

end BindingMarkup.Editor
