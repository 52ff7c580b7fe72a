import BindingMarkup.Text.Json

/-!
# BindingMarkup — outlines

The outline of a document lists its nodes in the order in which they
open. Node `0` is the root, which stands for the document itself and
collects what stands outside all nodes. Every other node is an
**element**, an instance of a type, or a **definition** of a new type
from a base. Nodes refer to each other by their place in the list.

A node stands before the nodes inside it, so a walk from a node to its
children goes forward in the list and ends. `typesOf` and `elementsOf`
give the children of a node, and `mem_typesOf` and `mem_elementsOf` say
what such a walk needs.

As JSON an outline is the list of its nodes, in order. Children and parents
are places in that list, and only a definition has a base.
-/

namespace BindingMarkup

/-- An entry with a value: `name: value`. -/
structure Property where
  name : String
  value : String
  line : Nat
  deriving DecidableEq, Repr

/-- An entry whose value is the name of a type: `name: Target`. -/
structure Delegate where
  name : String
  target : String
  line : Nat
  deriving DecidableEq, Repr

inductive Role where
  | root
  | element
  /-- A new type made from the type `base`. -/
  | definition (base : String)
  deriving DecidableEq, Repr

def Role.base? : Role → Option String
  | .definition base => some base
  | _ => none

def Role.label : Role → String
  | .root => "root"
  | .element => "element"
  | .definition _ => "type_definition"

structure Node where
  id : Option String := none
  /-- The type of an element, or the name of a new type. -/
  typeName : String
  role : Role
  /-- The node around this one; the root has none. -/
  parent : Option Nat
  /-- The definitions directly inside, in order. -/
  types : List Nat := []
  /-- The elements directly inside, in order. -/
  elements : List Nat := []
  properties : List Property := []
  delegates : List Delegate := []
  /-- The line of the opening brace; zero for the root. -/
  line : Nat
  deriving DecidableEq, Repr

def Node.root : Node where
  typeName := ""
  role := .root
  parent := none
  line := 0

/-- The nodes of a document, in the order in which they open. -/
structure Outline where
  nodes : Array Node
  deriving DecidableEq, Repr

namespace Outline

def empty : Outline where
  nodes := #[Node.root]

def node (outline : Outline) (i : Nat) : Node :=
  outline.nodes.getD i Node.root

/-- The number of nodes without the root. -/
def size (outline : Outline) : Nat :=
  outline.nodes.size - 1

def isEmpty (outline : Outline) : Bool :=
  outline.size == 0

/-- The definitions of the document at any depth, in order. -/
def definitions (outline : Outline) : List Node :=
  outline.nodes.toList.filter fun node => node.role.base?.isSome

def findType? (outline : Outline) (name : String) : Option Node :=
  outline.definitions.find? fun node => node.typeName == name

-- ---------------------------------------------------------------------------
-- Children
-- ---------------------------------------------------------------------------

/-- The places in one of the lists of a node. A node stands before its children,
and a place that is not behind the node is none of them. -/
def childrenIn (list : Node → List Nat) (outline : Outline) (i : Nat) : List Nat :=
  (list (outline.node i)).filter (i < ·)

def typesOf (outline : Outline) (i : Nat) : List Nat :=
  outline.childrenIn Node.types i

def elementsOf (outline : Outline) (i : Nat) : List Nat :=
  outline.childrenIn Node.elements i

theorem node_of_size_le {outline : Outline} {i : Nat} (h : outline.nodes.size ≤ i) :
    outline.node i = Node.root := by
  unfold node
  rw [Array.getD_eq_getD_getElem?, Array.getElem?_eq_none h]
  rfl

/-- A child stands behind its node, and the node is in the list: a place outside
the list reads as a root without children. -/
theorem mem_childrenIn {list : Node → List Nat} (hRoot : list Node.root = [])
    {outline : Outline} {i child : Nat} (h : child ∈ outline.childrenIn list i) :
    i < child ∧ i < outline.nodes.size := by
  unfold childrenIn at h
  obtain ⟨hMem, hLater⟩ := List.mem_filter.mp h
  refine ⟨of_decide_eq_true hLater, Nat.lt_of_not_le ?_⟩
  intro hOut
  rw [node_of_size_le hOut, hRoot] at hMem
  exact absurd hMem List.not_mem_nil

theorem mem_typesOf {outline : Outline} {i child : Nat} (h : child ∈ outline.typesOf i) :
    i < child ∧ i < outline.nodes.size :=
  mem_childrenIn rfl h

theorem mem_elementsOf {outline : Outline} {i child : Nat} (h : child ∈ outline.elementsOf i) :
    i < child ∧ i < outline.nodes.size :=
  mem_childrenIn rfl h

/-- A walk to a later node comes closer to the end of the list. -/
theorem size_sub_lt {outline : Outline} {i child : Nat}
    (h : i < child ∧ i < outline.nodes.size) :
    outline.nodes.size - child < outline.nodes.size - i := by
  omega

end Outline

-- ---------------------------------------------------------------------------
-- Outlines as JSON
-- ---------------------------------------------------------------------------

open Text

def Property.toJson (p : Property) : Json :=
  .object [("name", .string p.name), ("value", .string p.value), ("line", .number p.line)]

def Delegate.toJson (d : Delegate) : Json :=
  .object [("name", .string d.name), ("target", .string d.target), ("line", .number d.line)]

def Node.toJson (node : Node) : Json :=
  .object
    ([("id", Json.ofOption .string node.id),
      ("type_name", .string node.typeName),
      ("kind", .string node.role.label)] ++
      node.role.base?.toList.map (fun base => ("base", .string base)) ++
      [("parent", Json.ofOption .number node.parent),
        ("types", .array (node.types.map .number)),
        ("elements", .array (node.elements.map .number)),
        ("properties", .array (node.properties.map Property.toJson)),
        ("delegates", .array (node.delegates.map Delegate.toJson)),
        ("line", .number node.line)])

def Outline.toJson (outline : Outline) : Json :=
  .object [("nodes", .array (outline.nodes.toList.map Node.toJson))]

end BindingMarkup
