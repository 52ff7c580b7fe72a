import BindingMarkup.Editor.Completion
import BindingMarkup.Editor.Diagnostic
import BindingMarkup.Editor.Hover
import BindingMarkup.Lookup

/-!
# BindingMarkup — editing sessions

An editor tells the service which documents are open and what their text
is, and asks about places in them. A session keeps the current text of
every open document and nothing else.

A notice is carried out as a list of **effects**, each of which happens at
once: the text is stored or removed, and the diagnostics are published.
For an opened or changed document the diagnostics are published before
the text is stored; for a closed one the text is removed first. A change
brings any number of texts, of which the last is the whole document.
-/

namespace BindingMarkup.Editor

-- ---------------------------------------------------------------------------
-- Documents
-- ---------------------------------------------------------------------------

/-- The texts of the open documents by name. -/
abbrev Documents := List (String × String)

namespace Documents

def get? (documents : Documents) (name : String) : Option String :=
  documents.lookup name

def remove (documents : Documents) (name : String) : Documents :=
  documents.filter fun document => document.1 != name

/-- Stores the text of a document in place of an earlier one. -/
def put (documents : Documents) (name text : String) : Documents :=
  (name, text) :: documents.remove name

theorem get?_remove (documents : Documents) (name other : String) :
    (documents.remove name).get? other = if other = name then none else documents.get? other :=
  lookup_filter_ne documents name other

theorem get?_put (documents : Documents) (name text other : String) :
    (documents.put name text).get? other =
      if other = name then some text else documents.get? other :=
  lookup_replace documents name other text

end Documents

-- ---------------------------------------------------------------------------
-- Notices
-- ---------------------------------------------------------------------------

/-- What the editor tells about a document. -/
inductive Notice where
  | opened (name text : String)
  /-- The document has changed; the last of the texts is the whole of it. -/
  | changed (name : String) (texts : List String)
  | closed (name : String)
  deriving DecidableEq, Repr

/-- What happens at once while a notice is carried out. -/
inductive Effect where
  | publish (name : String) (diagnostics : List Diagnostic)
  | store (name text : String)
  | remove (name : String)
  deriving DecidableEq, Repr

def updateEffects (name text : String) : List Effect :=
  [.publish name (diagnostics text), .store name text]

def Notice.effects : Notice → List Effect
  | .opened name text => updateEffects name text
  | .changed name texts =>
    match texts.getLast? with
    | some text => updateEffects name text
    | none => []
  | .closed name => [.remove name, .publish name []]

structure Publication where
  name : String
  diagnostics : List Diagnostic
  deriving DecidableEq, Repr

def Effect.apply (documents : Documents) : Effect → Documents
  | .publish _ _ => documents
  | .store name text => documents.put name text
  | .remove name => documents.remove name

def Effect.publication? : Effect → Option Publication
  | .publish name diagnostics => some { name, diagnostics }
  | _ => none

-- ---------------------------------------------------------------------------
-- Steps of a session
-- ---------------------------------------------------------------------------

inductive Step where
  | notice (n : Notice)
  | hover (name : String) (position : Position)
  | completion (name : String) (position : Position)
  deriving DecidableEq, Repr

inductive Answer where
  | sent (publications : List Publication)
  | hover (text : Option String)
  /-- Offers, or nothing for a document that is not open. -/
  | completion (items : Option (List Item))
  | fault (f : Fault)
  deriving DecidableEq, Repr

/-- The answer about a document that is asked for. -/
def hoverAnswer (documents : Documents) (name : String) (position : Position) : Answer :=
  match documents.get? name with
  | none => .hover none
  | some text =>
    match hoverAt text position with
    | .ok markdown => .hover markdown
    | .error fault => .fault fault

/-- One step of a session: the answer and the documents after it. Only a notice
changes the documents. -/
def Step.run (documents : Documents) : Step → Answer × Documents
  | .notice n =>
    (.sent (n.effects.filterMap Effect.publication?), n.effects.foldl Effect.apply documents)
  | .hover name position => (hoverAnswer documents name position, documents)
  | .completion name position =>
    (.completion ((documents.get? name).map fun text => offersAt text position), documents)

def answers : Documents → List Step → List Answer
  | _, [] => []
  | documents, step :: more =>
    let (answer, documents) := step.run documents
    answer :: answers documents more

-- ---------------------------------------------------------------------------
-- The service
-- ---------------------------------------------------------------------------

/-- The name under which the service presents itself. -/
def serviceName : String := "bml-lsp"

def serviceVersion : String := "0.1.0"

/-- What the service says once it is ready. -/
def readyMessage : String := serviceName ++ " ready"

/-- The characters that make the editor ask for completion. -/
def triggerCharacters : List String := [" ", ":", "\n"]

end BindingMarkup.Editor
