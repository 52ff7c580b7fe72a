import BindingMarkup.Outline
import BindingMarkup.Text.Line

/-!
# BindingMarkup — the dump of an outline

The dump shows an outline to people: a line for each node and entry,
nested by indentation. Inside a node come its id, its properties, its
delegates, the definitions and then the elements.
-/

namespace BindingMarkup

open Text

def Node.dumpHead (node : Node) : String :=
  match node.role with
  | .definition base => "type " ++ node.typeName ++ " extends " ++ base
  | _ => "element " ++ node.typeName

def Node.dumpEntries (node : Node) : List String :=
  node.id.toList.map ("id: " ++ ·) ++
    node.properties.map (fun p => "property " ++ p.name ++ ": " ++ p.value) ++
    node.delegates.map (fun d => "delegate " ++ d.name ++ ": " ++ d.target)

namespace Outline

/-- The lines for a node and all that is inside it. -/
def dumpNode (outline : Outline) (level : Nat) (i : Nat) : List OutputLine :=
  ⟨level, (outline.node i).dumpHead⟩ ::
    (outline.node i).dumpEntries.map (⟨level + 1, ·⟩) ++
    (outline.typesOf i).attach.flatMap (fun child => dumpNode outline (level + 1) child.1) ++
    (outline.elementsOf i).attach.flatMap (fun child => dumpNode outline (level + 1) child.1)
termination_by outline.nodes.size - i
decreasing_by
  · exact size_sub_lt (mem_typesOf child.2)
  · exact size_sub_lt (mem_elementsOf child.2)

/-- The lines of a node are its own and then those of its children in turn. -/
theorem dumpNode_eq (outline : Outline) (level i : Nat) :
    outline.dumpNode level i =
      ⟨level, (outline.node i).dumpHead⟩ ::
        (outline.node i).dumpEntries.map (⟨level + 1, ·⟩) ++
        (outline.typesOf i).flatMap (outline.dumpNode (level + 1)) ++
        (outline.elementsOf i).flatMap (outline.dumpNode (level + 1)) := by
  rw [dumpNode]
  simp

/-- The lines of the dump; the root itself has none. -/
def dumpLines (outline : Outline) : List OutputLine :=
  (outline.typesOf 0 ++ outline.elementsOf 0).flatMap (outline.dumpNode 0)

def dump (outline : Outline) : String :=
  OutputLine.render outline.dumpLines

end Outline

end BindingMarkup
