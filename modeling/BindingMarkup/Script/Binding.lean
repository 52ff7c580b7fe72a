import BindingMarkup.Text.Blank
import BindingMarkup.Text.Case
import BindingMarkup.Text.Occurrence

/-!
# BindingMarkup — how entries become bindings

The key of an entry says what the entry turns into. A key that starts
with `on` attaches an event handler, a key with a parameter list attaches
a method, and any other key a property that is evaluated again whenever
what it reads changes.

Handlers and methods take their value as statements. A property takes its
value as an expression to return, unless the text mentions `return`
anywhere, in which case it is a function body already. A delegate becomes
a factory method whose name is derived from the key.
-/

namespace BindingMarkup

open Text

/-- What a key makes of its entry. -/
inductive Binding where
  | handler (name params : String)
  | method (name params : String)
  | property
  deriving DecidableEq, Repr

namespace Binding

/-- Splits a key at its parameter list. The list runs from the first opening
parenthesis to the last closing one behind it, or to the end without one. -/
def signature (key : List Char) : List Char × Option (List Char) :=
  match splitAtFirst? '(' key with
  | none => (trim key, none)
  | some (name, rest) => (trim name, some (trim ((beforeLastChar? ')' rest).getD rest)))

/-- What a key makes of its entry. -/
def classify (key : String) : Binding :=
  let (name, params) := signature key.toList
  if ['o', 'n'].isPrefixOf name then
    .handler (String.ofList name) (String.ofList (params.getD []))
  else
    match params with
    | some params => .method (String.ofList name) (String.ofList params)
    | none => .property

end Binding

/-- The function body that computes a property. -/
def accessorBody (value : String) : String :=
  if occursIn "return".toList value.toList then value else "return " ++ value ++ ";"

/-- The function body that runs a handler or a method: the value, closed by a
semicolon unless a semicolon or a brace closes it already. -/
def statementBody (value : String) : String :=
  let body := trim value.toList
  match body.getLast? with
  | none => ""
  | some last =>
    if last = ';' ∨ last = '\x7d' then String.ofList body else String.ofList (body ++ [';'])

/-- The name of the factory method for the delegate `name`. -/
def factoryName (name : String) : String :=
  "create" ++ String.ofList (capitalize name.toList)

end BindingMarkup
