import BindingMarkup.Script.Binding

/-!
# BindingMarkup — explaining entries

What hover texts say about an entry, and the keys that completion offers
in every node. The texts are Markdown and say what the compiler makes of
the entry.
-/

namespace BindingMarkup.Editor

/-- A key offered in every node. -/
structure KeySnippet where
  label : String
  /-- The text to insert, with places for the cursor. -/
  insert : String
  doc : String
  deriving DecidableEq, Repr

/-- The keys offered in every node: the id, an event handler, a method. -/
def keySnippets : List KeySnippet := [
  { label := "id"
    insert := "id: $0"
    doc := "Instance identifier. Declared as a variable in the enclosing unit and passed to " ++
      "the constructor." },
  { label := "on…"
    insert := "on$\x7b1:Event\x7d: $0"
    doc := "Event handler, registered with `addEventHandler`." },
  { label := "method(…)"
    insert := "$\x7b1:name\x7d($\x7b2\x7d): $0"
    doc := "Method, attached with `addFunction`." }]

def describeKey (key : String) : String :=
  if key = "id" then
    "**id** · identifier\n\nNames this instance. Not a property: the element is " ++
      "assigned to a variable of that name."
  else
    match Binding.classify key with
    | .handler name _ =>
      "**" ++ name ++ "** · event handler\n\nCompiled to `elem.addEventHandler(\"" ++ name ++
        "\", function () \x7b ... \x7d)`. The value is a statement."
    | .method name params =>
      "**" ++ name ++ "(" ++ params ++ ")** · method\n\nCompiled to `elem.addFunction(\"" ++
        name ++ "\", function (" ++ params ++ ") \x7b ... \x7d)`."
    | .property =>
      "**" ++ key ++ "** · property\n\nCompiled to `elem.addProperty(\"" ++ key ++
        "\", ...)`. Re-evaluated when the properties it reads change. A value containing " ++
        "`return` is used as a function body."

def describeDelegate (key target : String) : String :=
  "**" ++ key ++ "** · delegate\n\nCompiled to a `" ++ factoryName key ++
    "()` factory that instantiates `" ++ target ++ "`."

end BindingMarkup.Editor
