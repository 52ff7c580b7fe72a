import BindingMarkup.Outline
import BindingMarkup.Script.Binding
import BindingMarkup.Script.Stroke
import BindingMarkup.Text.Literal

/-!
# BindingMarkup — the script of an outline

An outline is written as one unit of script: a function that builds the
objects of the document below a root object, initialises their bindings
and renders them. Without a module name the unit runs at once; with one
it is a factory of that name which returns the root object.

Every element becomes a closure that constructs its object, attaches the
bindings and the children and hands the object to its parent. Every
definition becomes a factory function that constructs its base and
attaches to it what the definition adds. Inside both, the order is:
properties, delegates, definitions, elements.

The ids of a document are variables. Those of the elements below the root,
and those of the elements below a definition, are declared at the top of
the unit or of the factory, once each and without going into nested
definitions (`scopeIds`). They are collected by a walk that keeps a list
of the elements still to visit (`gatherIds`).
-/

namespace BindingMarkup

open Text

namespace Outline

-- ---------------------------------------------------------------------------
-- Ids
-- ---------------------------------------------------------------------------

/-- The elements that a walk visits from an element on. -/
def walk (outline : Outline) (i : Nat) : List Nat :=
  i :: (outline.elementsOf i).attach.flatMap fun child => walk outline child.1
termination_by outline.nodes.size - i
decreasing_by exact size_sub_lt (mem_elementsOf child.2)

theorem walk_eq (outline : Outline) (i : Nat) :
    outline.walk i = i :: (outline.elementsOf i).flatMap outline.walk := by
  rw [walk]
  simp

/-- The ids with one more, unless it is there already. -/
def addId (ids : List String) (id : String) : List String :=
  if id ∈ ids then ids else ids ++ [id]

/-- Visits the elements that wait, the first of them next, and adds their ids to
those found so far. The elements inside an element come before all others
that wait. -/
def gatherIds (outline : Outline) (ids : List String) : List Nat → List String
  | [] => ids
  | i :: waiting =>
    gatherIds outline ((outline.node i).id.toList.foldl addId ids) (outline.elementsOf i ++ waiting)
termination_by waiting => (waiting.flatMap outline.walk).length
decreasing_by
  rw [List.flatMap_append, List.length_append, List.flatMap_cons, walk_eq outline i,
    List.cons_append, List.length_cons, List.length_append]
  omega

/-- The ids that are variables of the function for a node, each once. -/
def scopeIds (outline : Outline) (i : Nat) : List String :=
  outline.gatherIds [] (outline.elementsOf i)

end Outline

namespace Script

-- ---------------------------------------------------------------------------
-- Bindings
-- ---------------------------------------------------------------------------

/-- A call that attaches a function to the object under construction. -/
def attachCall (method name params body : String) : String :=
  "elem." ++ method ++ "(" ++ literal name ++ ", function (" ++ params ++ ") \x7b " ++ body ++
    " \x7d);"

def propertyStatement (p : Property) : String :=
  match Binding.classify p.name with
  | .handler name params => attachCall "addEventHandler" name params (statementBody p.value)
  | .method name params => attachCall "addFunction" name params (statementBody p.value)
  | .property => attachCall "addProperty" p.name "" (accessorBody p.value)

def delegateStatement (d : Delegate) : String :=
  attachCall "addFunction" (factoryName d.name) ""
    ("return new " ++ d.target ++ "(\"\", elem);")

def entryStatements (node : Node) : List String :=
  node.properties.map propertyStatement ++ node.delegates.map delegateStatement

/-- The declaration of variables; nothing declares nothing. -/
def declaration : List String → List Stroke
  | [] => []
  | ids => [.declare ids]

-- ---------------------------------------------------------------------------
-- Nodes
-- ---------------------------------------------------------------------------

def nodeFrame (node : Node) : Frame :=
  match node.role with
  | .definition _ => .scope
  | _ => .closure

def nodeOpening (node : Node) (parent : String) : String :=
  match node.role with
  | .definition _ => "var " ++ node.typeName ++ " = function (id, parent) \x7b"
  | _ => parent ++ ".addChild((function (parent) \x7b"

/-- The variables of the function for a node: the function around an element has
none of its own. -/
def nodeIds (outline : Outline) (i : Nat) : List String :=
  match nodeFrame (outline.node i) with
  | .scope => outline.scopeIds i
  | .closure => []

/-- The statement that constructs the object of a node. -/
def nodeConstruction (node : Node) : String :=
  match node.role with
  | .definition base => "var elem = new " ++ base ++ "(id, parent);"
  | _ => "var elem = new " ++ node.typeName ++ "(" ++ literal (node.id.getD "") ++ ", parent);"

/-- Keeps the object of a node under its id. The id of a definition is a variable of
its own function. -/
def nodeKeeping (node : Node) (id : String) : Stroke :=
  match node.role with
  | .definition _ => .line ("var " ++ id ++ " = elem;")
  | _ => .assign id

def nodeClosing (node : Node) (parent : String) : String :=
  match node.role with
  | .definition _ => "\x7d;"
  | _ => "\x7d(" ++ parent ++ ")));"

/-- The strokes for a node with the variables `ids` around those for what is inside
it. An element is added to the object `parent`. -/
def nodeBlock (node : Node) (ids : List String) (parent : String) (inside : List Stroke) :
    List Stroke :=
  .opening (nodeFrame node) (nodeOpening node parent) ::
    declaration ids ++ .line (nodeConstruction node) :: node.id.toList.map (nodeKeeping node) ++
    (entryStatements node).map .line ++ inside ++
    [.line "return elem;", .closing (nodeClosing node parent)]

/-- The strokes for a node and all that is inside it. -/
def nodeStrokes (outline : Outline) (parent : String) (i : Nat) : List Stroke :=
  nodeBlock (outline.node i) (nodeIds outline i) parent
    ((outline.typesOf i).attach.flatMap (fun child => nodeStrokes outline "elem" child.1) ++
      (outline.elementsOf i).attach.flatMap (fun child => nodeStrokes outline "elem" child.1))
termination_by outline.nodes.size - i
decreasing_by
  · exact Outline.size_sub_lt (Outline.mem_typesOf child.2)
  · exact Outline.size_sub_lt (Outline.mem_elementsOf child.2)

/-- The strokes of a node enclose those of its children in turn. -/
theorem nodeStrokes_eq (outline : Outline) (parent : String) (i : Nat) :
    nodeStrokes outline parent i =
      nodeBlock (outline.node i) (nodeIds outline i) parent
        ((outline.typesOf i ++ outline.elementsOf i).flatMap (nodeStrokes outline "elem")) := by
  rw [nodeStrokes]
  simp

-- ---------------------------------------------------------------------------
-- Units
-- ---------------------------------------------------------------------------

/-- The root object, to which the elements of a document are added. -/
def rootObject : List String := [
  "var root = \x7b",
  "    children: [],",
  "    addChild: function (child) \x7b",
  "        this.children.push(child);",
  "        return child;",
  "    \x7d,",
  "    initializeBindings: function () \x7b",
  "        for (var i = 0; i < this.children.length; ++i) \x7b",
  "            this.children[i].initializeBindings();",
  "        \x7d",
  "    \x7d,",
  "    render: function () \x7b",
  "        for (var i = 0; i < this.children.length; ++i) \x7b",
  "            this.children[i].render();",
  "        \x7d",
  "    \x7d",
  "\x7d;"]

def unitOpening : Option String → String
  | some name => "var " ++ name ++ " = function () \x7b"
  | none => "(function () \x7b"

/-- What a unit does when its objects are there. -/
def unitEnd : Option String → List String
  | some _ => ["root.initializeBindings();", "root.render();", "return root;"]
  | none => ["root.initializeBindings();", "root.render();"]

def unitClosing : Option String → String
  | some _ => "\x7d;"
  | none => "\x7d());"

/-- The strokes for a unit with the variables `ids` around those for its nodes. -/
def unitBlock (moduleName : Option String) (ids : List String) (nodes : List Stroke) :
    List Stroke :=
  .opening .scope (unitOpening moduleName) :: .line "'use strict';" :: .line "" ::
    (declaration ids).flatMap (fun stroke => [stroke, .line ""]) ++
    rootObject.map .line ++ .line "" :: nodes ++
    (unitEnd moduleName).map .line ++ [.closing (unitClosing moduleName)]

/-- The strokes of a unit for an outline, under a module name or anonymous. Every
node at the top is followed by an empty line. -/
def unitStrokes (outline : Outline) (moduleName : Option String) : List Stroke :=
  unitBlock moduleName (outline.scopeIds 0)
    ((outline.typesOf 0 ++ outline.elementsOf 0).flatMap fun i =>
      nodeStrokes outline "root" i ++ [.line ""])

def render (outline : Outline) (moduleName : Option String) : String :=
  OutputLine.render (Stroke.linesFrom 0 (unitStrokes outline moduleName))

end Script

end BindingMarkup
