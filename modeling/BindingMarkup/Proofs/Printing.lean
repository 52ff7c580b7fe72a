import BindingMarkup.Outline.Dump
import BindingMarkup.Proofs.Forest

/-!
# BindingMarkup — the outputs as printed forests

The script is written with a counter for its level, which goes up behind
the first line of a function and down before the last one; the dump goes
from place to place in an outline. Here are the printers that one would
write for a forest, with every level given outright
(`Forest.scriptLines`, `Forest.unitLines`, `Forest.dumpLines`): a node at
depth `d` opens and closes at level `d` of the script and has its
statements at level `d + 1`, and in the dump both are one level less.
Both outputs of an outline are those of the forests it stands for.

The counter is dealt with once. `Stroke.Draws` says of strokes which lines
they are at some level, and that they leave the counter as they found it;
such strokes can be put side by side (`Draws.append`) and into a function
(`Draws.frame`). What is left is an induction over a forest.
-/

namespace BindingMarkup

open Text Script

namespace Forest

-- ---------------------------------------------------------------------------
-- Printers with levels
-- ---------------------------------------------------------------------------

/-- The declaration of variables; nothing declares nothing. -/
def idStatement : List String → List String
  | [] => []
  | ids => ["var " ++ ", ".intercalate ids ++ ";"]

/-- The statements for a node that come before its bindings: a definition declares
the ids of the elements inside it, constructs its base and names the object;
an element constructs its object and keeps it in a variable of the function
around it. -/
def headStatements (node : Node) (ids : List String) : List String :=
  match node.role with
  | .definition base =>
    idStatement ids ++ ("var elem = new " ++ base ++ "(id, parent);") ::
      node.id.toList.map (fun id => "var " ++ id ++ " = elem;")
  | _ =>
    ("var elem = new " ++ node.typeName ++ "(" ++ literal (node.id.getD "") ++ ", parent);") ::
      node.id.toList.map (· ++ " = elem;")

/-- The script of nodes side by side, whose functions open at `level`. The lines
`behind` follow each of them. -/
def scriptLines (level : Nat) (parent : String) (behind : List String) :
    Forest → List OutputLine
  | nil => []
  | cons node types elements rest =>
    ⟨level, nodeOpening node parent⟩ ::
      (headStatements node elements.ids.eraseDups ++ node.properties.map propertyStatement ++
        node.delegates.map delegateStatement).map (⟨level + 1, ·⟩) ++
      types.scriptLines (level + 1) "elem" [] ++ elements.scriptLines (level + 1) "elem" [] ++
      [⟨level + 1, "return elem;"⟩, ⟨level, nodeClosing node parent⟩] ++
      behind.map (⟨level, ·⟩) ++ rest.scriptLines level parent behind

/-- The script of a document. -/
def unitLines (moduleName : Option String) (types elements : Forest) : List OutputLine :=
  ⟨0, unitOpening moduleName⟩ ::
    (["'use strict';", ""] ++
      (idStatement elements.ids.eraseDups).flatMap (fun text => [text, ""]) ++
      rootObject ++ [""]).map (⟨1, ·⟩) ++
    types.scriptLines 1 "root" [""] ++ elements.scriptLines 1 "root" [""] ++
    (unitEnd moduleName).map (⟨1, ·⟩) ++ [⟨0, unitClosing moduleName⟩]

/-- The dump of nodes side by side at `level`. -/
def dumpLines (level : Nat) : Forest → List OutputLine
  | nil => []
  | cons node types elements rest =>
    ⟨level, node.dumpHead⟩ :: node.dumpEntries.map (⟨level + 1, ·⟩) ++
      types.dumpLines (level + 1) ++ elements.dumpLines (level + 1) ++ rest.dumpLines level

end Forest

namespace Script.Stroke

-- ---------------------------------------------------------------------------
-- The counter
-- ---------------------------------------------------------------------------

/-- What the counter shows behind a stroke, unless that would take it below zero. -/
def step? (level : Nat) : Stroke → Option Nat
  | closing _ => if level = 0 then none else some (level - 1)
  | stroke => some (stroke.levelAfter level)

/-- What the counter shows behind strokes that never take it below zero. -/
def counter? (level : Nat) (strokes : List Stroke) : Option Nat :=
  strokes.foldlM step? level

/-- A step that does not go below zero is the step of the writer. -/
theorem levelAfter_of_step? {level after : Nat} {stroke : Stroke}
    (h : stroke.step? level = some after) : stroke.levelAfter level = after := by
  cases stroke with
  | closing text =>
    simp only [step?] at h
    split at h
    · exact absurd h (by simp)
    · exact Option.some.inj h
  | _ => exact Option.some.inj h

/-- The lines of strokes side by side, when the counter shows `after` between them. -/
theorem linesFrom_append {level after : Nat} {front : List Stroke} (back : List Stroke)
    (h : counter? level front = some after) :
    linesFrom level (front ++ back) = linesFrom level front ++ linesFrom after back := by
  induction front generalizing level with
  | nil =>
    obtain rfl : level = after := Option.some.inj h
    rfl
  | cons stroke front ih =>
    rw [counter?, List.foldlM_cons] at h
    obtain ⟨next, hNext, hMore⟩ := Option.bind_eq_some_iff.mp h
    rw [List.cons_append, linesFrom, linesFrom, levelAfter_of_step? hNext, ih hMore,
      List.cons_append]

/-- Strokes that write the given lines from a level on and come back to that level. -/
structure Draws (level : Nat) (strokes : List Stroke) (lines : List OutputLine) : Prop where
  counter : counter? level strokes = some level
  lines : linesFrom level strokes = lines

namespace Draws

variable {level : Nat} {strokes front back : List Stroke} {lines first second : List OutputLine}

theorem nil (level : Nat) : Draws level [] [] := ⟨rfl, rfl⟩

/-- Strokes that draw lines at a level can be put behind each other. -/
theorem append (hFirst : Draws level front first) (hSecond : Draws level back second) :
    Draws level (front ++ back) (first ++ second) where
  counter := by
    have hFront := hFirst.counter
    have hBack := hSecond.counter
    simp only [counter?, List.foldlM_append] at hFront hBack ⊢
    rw [hFront, Option.bind_eq_bind, Option.bind_some, hBack]
  lines := by rw [linesFrom_append back hFirst.counter, hFirst.lines, hSecond.lines]

/-- A function around strokes has its first and last line one level before them. -/
theorem frame (frame : Frame) (head tail : String) (h : Draws (level + 1) strokes lines) :
    Draws level (opening frame head :: strokes ++ [closing tail])
      (⟨level, head⟩ :: lines ++ [⟨level, tail⟩]) := by
  have hCounter := h.counter
  constructor
  · -- the closing stroke finds the counter at `level + 1`, where the opening one left it
    simp only [counter?, List.cons_append, List.foldlM_cons, List.foldlM_append] at hCounter ⊢
    simp [step?, levelAfter, hCounter]
  · rw [List.cons_append, linesFrom]
    simp only [levelAfter, levelAt, text]
    rw [linesFrom_append _ hCounter, h.lines]
    simp [linesFrom, levelAt, text]

end Draws

/-- A stroke within a function, with no effect on the counter. -/
def isPlain : Stroke → Bool
  | opening _ _ => false
  | closing _ => false
  | _ => true

/-- Strokes without a frame all write at the same level. -/
theorem draws_of_plain {strokes : List Stroke} (level : Nat)
    (h : ∀ stroke ∈ strokes, stroke.isPlain) :
    Draws level strokes (strokes.map fun stroke => ⟨level, stroke.text⟩) := by
  induction strokes with
  | nil => exact .nil level
  | cons stroke strokes ih =>
    obtain ⟨hPlain, hMore⟩ := List.forall_mem_cons.mp h
    have hOne : Draws level [stroke] [⟨level, stroke.text⟩] := by
      cases stroke with
      | opening | closing => exact absurd hPlain (by simp [isPlain])
      | _ => exact ⟨rfl, rfl⟩
    exact hOne.append (ih hMore)

/-- Plain lines are drawn at the level where they stand. -/
theorem draws_map_line (level : Nat) (texts : List String) :
    Draws level (texts.map .line) (texts.map (⟨level, ·⟩)) := by
  have hPlain : ∀ stroke ∈ texts.map line, stroke.isPlain := by
    intro stroke hMem
    obtain ⟨text, -, rfl⟩ := List.mem_map.mp hMem
    rfl
  have hDraws := draws_of_plain level hPlain
  rw [List.map_map] at hDraws
  exact hDraws

end Script.Stroke

-- ---------------------------------------------------------------------------
-- Functions
-- ---------------------------------------------------------------------------

namespace Script

/-- The declaration of a function and the strokes up to its bindings. -/
def nodeHead (node : Node) (ids : List String) : List Stroke :=
  declaration ids ++ .line (nodeConstruction node) :: node.id.toList.map (nodeKeeping node)

/-- The strokes for a node as a function around its body. -/
theorem nodeBlock_eq (node : Node) (ids : List String) (parent : String) (inside : List Stroke) :
    nodeBlock node ids parent inside =
      .opening (nodeFrame node) (nodeOpening node parent) ::
        (nodeHead node ids ++ (entryStatements node).map .line ++ inside ++
          [.line "return elem;"]) ++
        [.closing (nodeClosing node parent)] := by
  simp [nodeBlock, nodeHead]

/-- The declaration of ids is the statement that the printer writes for them. -/
theorem text_declaration (ids : List String) :
    (declaration ids).map Stroke.text = Forest.idStatement ids := by
  cases ids <;> rfl

theorem isPlain_declaration (ids : List String) :
    ∀ stroke ∈ declaration ids, stroke.isPlain := by
  intro stroke hMem
  cases ids with
  | nil => exact absurd hMem List.not_mem_nil
  | cons id ids =>
    rw [List.mem_singleton.mp hMem]
    rfl

theorem isPlain_nodeHead (node : Node) (ids : List String) :
    ∀ stroke ∈ nodeHead node ids, stroke.isPlain := by
  intro stroke hMem
  rw [nodeHead, List.mem_append, List.mem_cons, List.mem_map] at hMem
  rcases hMem with hDeclaration | rfl | ⟨id, -, rfl⟩
  · exact isPlain_declaration ids stroke hDeclaration
  · rfl
  · unfold nodeKeeping
    split <;> rfl

/-- The head of the function for a node is the one the printer gives it, when the
variables are the ids of the elements inside. -/
theorem text_nodeHead (outline : Outline) (i : Nat) :
    (nodeHead (outline.node i) (nodeIds outline i)).map Stroke.text =
      Forest.headStatements (outline.node i) (outline.scopeIds i) := by
  cases hRole : (outline.node i).role with
  | definition base =>
    simp [nodeHead, nodeIds, nodeFrame, nodeConstruction, nodeKeeping, Forest.headStatements,
      hRole, text_declaration, Stroke.text]
  | _ =>
    simp [nodeHead, nodeIds, nodeFrame, nodeConstruction, nodeKeeping, Forest.headStatements,
      hRole, declaration, Stroke.text]

/-- The function for a node around lines that are already drawn one level deeper. -/
theorem nodeBlock_draws (outline : Outline) (i : Nat) (parent : String) {level : Nat}
    {inside : List Stroke} {lines : List OutputLine}
    (h : Stroke.Draws (level + 1) inside lines) :
    Stroke.Draws level (nodeBlock (outline.node i) (nodeIds outline i) parent inside)
      (⟨level, nodeOpening (outline.node i) parent⟩ ::
        ((Forest.headStatements (outline.node i) (outline.scopeIds i) ++
          entryStatements (outline.node i)).map (⟨level + 1, ·⟩) ++
          lines ++ [⟨level + 1, "return elem;"⟩]) ++
        [⟨level, nodeClosing (outline.node i) parent⟩]) := by
  have hHead := Stroke.draws_of_plain (level + 1)
    (isPlain_nodeHead (outline.node i) (nodeIds outline i))
  have hEntries := Stroke.draws_map_line (level + 1) (entryStatements (outline.node i))
  have hReturn := Stroke.draws_map_line (level + 1) ["return elem;"]
  have hFunction := Stroke.Draws.frame (nodeFrame (outline.node i))
    (nodeOpening (outline.node i) parent) (nodeClosing (outline.node i) parent)
    (((hHead.append hEntries).append h).append hReturn)
  rw [nodeBlock_eq, ← text_nodeHead, List.map_append, List.map_map]
  exact hFunction

/-- The strokes of a unit as a function around its body. -/
theorem unitBlock_eq (moduleName : Option String) (ids : List String) (nodes : List Stroke) :
    unitBlock moduleName ids nodes =
      .opening .scope (unitOpening moduleName) ::
        (["'use strict';", ""].map .line ++
          (declaration ids).flatMap (fun stroke => [stroke, .line ""]) ++
          (rootObject ++ [""]).map .line ++ nodes ++ (unitEnd moduleName).map .line) ++
        [.closing (unitClosing moduleName)] := by
  simp [unitBlock]

/-- The declaration of a unit has an empty line behind it, if it is there. -/
theorem declaration_draws (level : Nat) (ids : List String) :
    Stroke.Draws level ((declaration ids).flatMap fun stroke => [stroke, .line ""])
      (((Forest.idStatement ids).flatMap fun text => [text, ""]).map (⟨level, ·⟩)) := by
  cases ids with
  | nil => exact .nil level
  | cons id ids => exact ⟨rfl, rfl⟩

/-- The unit around the lines of its nodes. -/
theorem unitBlock_draws {nodes : List Stroke} {lines : List OutputLine}
    (moduleName : Option String) (ids : List String) (h : Stroke.Draws 1 nodes lines) :
    Stroke.Draws 0 (unitBlock moduleName ids nodes)
      (⟨0, unitOpening moduleName⟩ ::
        ((["'use strict';", ""] ++ (Forest.idStatement ids).flatMap (fun text => [text, ""]) ++
          rootObject ++ [""]).map (⟨1, ·⟩) ++ lines ++ (unitEnd moduleName).map (⟨1, ·⟩)) ++
        [⟨0, unitClosing moduleName⟩]) := by
  have hStrict := Stroke.draws_map_line 1 ["'use strict';", ""]
  have hRoot := Stroke.draws_map_line 1 (rootObject ++ [""])
  have hEnd := Stroke.draws_map_line 1 (unitEnd moduleName)
  have hFunction := Stroke.Draws.frame .scope (unitOpening moduleName) (unitClosing moduleName)
    ((((hStrict.append (declaration_draws 1 ids)).append hRoot).append h).append hEnd)
  rw [unitBlock_eq]
  simpa only [List.map_append, List.append_assoc] using hFunction

end Script

namespace Outline

-- ---------------------------------------------------------------------------
-- Outlines and their forests
-- ---------------------------------------------------------------------------

variable {outline : Outline}

/-- The strokes for the nodes at some places write the script of their forest, from
any level on. -/
theorem Depicts.draws (tree : outline.IsTree) {places : List Nat} {forest : Forest}
    (h : outline.Depicts places forest) (level : Nat) (parent : String) (behind : List String) :
    Stroke.Draws level
      (places.flatMap fun i => nodeStrokes outline parent i ++ behind.map .line)
      (forest.scriptLines level parent behind) := by
  induction h generalizing level parent behind with
  | nil => exact .nil level
  | @cons i more types elements rest _ hElements _ ihTypes ihElements ihRest =>
    -- what is inside is added to `elem`, one level deeper and with nothing behind it
    have hInside := (ihTypes (level + 1) "elem" []).append (ihElements (level + 1) "elem" [])
    simp only [List.map_nil, List.append_nil, ← List.flatMap_append] at hInside
    have hNode := nodeBlock_draws outline i parent hInside
    rw [hElements.scopeIds_eq tree, ← tree.typesOf_eq, ← tree.elementsOf_eq,
      ← nodeStrokes_eq] at hNode
    have hAll := (hNode.append (Stroke.draws_map_line level behind)).append
      (ihRest level parent behind)
    rw [List.flatMap_cons, Forest.scriptLines]
    simp only [entryStatements, List.append_assoc, List.cons_append, List.nil_append,
      List.map_append] at hAll ⊢
    exact hAll

/-- The strokes of a unit write the script of its two forests. -/
theorem Represents.draws (tree : outline.IsTree) {types elements : Forest}
    (h : outline.Represents types elements) (moduleName : Option String) :
    Stroke.Draws 0 (unitStrokes outline moduleName)
      (Forest.unitLines moduleName types elements) := by
  have hNodes := (h.types.draws tree 1 "root" [""]).append (h.elements.draws tree 1 "root" [""])
  rw [← List.flatMap_append] at hNodes
  have hUnit := unitBlock_draws moduleName (outline.scopeIds 0) hNodes
  rw [unitStrokes, tree.typesOf_eq, tree.elementsOf_eq, Forest.unitLines,
    ← h.elements.scopeIds_eq tree]
  simpa only [List.append_assoc, List.cons_append, List.map_cons, List.map_nil] using hUnit

/-- The dump of the nodes at some places is that of their forest, at any level. -/
theorem Depicts.dumpNode_eq (tree : outline.IsTree) {places : List Nat} {forest : Forest}
    (h : outline.Depicts places forest) (level : Nat) :
    places.flatMap (outline.dumpNode level) = forest.dumpLines level := by
  induction h generalizing level with
  | nil => rfl
  | @cons i more types elements rest _ _ _ ihTypes ihElements ihRest =>
    rw [List.flatMap_cons, Outline.dumpNode_eq, tree.typesOf_eq, tree.elementsOf_eq, ihTypes,
      ihElements, ihRest]
    rfl

/-- The dump of a document is that of its two forests. -/
theorem Represents.dumpLines_eq (tree : outline.IsTree) {types elements : Forest}
    (h : outline.Represents types elements) :
    outline.dumpLines = types.dumpLines 0 ++ elements.dumpLines 0 := by
  rw [dumpLines, tree.typesOf_eq, tree.elementsOf_eq, List.flatMap_append,
    h.types.dumpNode_eq tree, h.elements.dumpNode_eq tree]

/-- Behind the strokes of a node the counter shows what it showed before them. -/
theorem IsTree.counter?_nodeStrokes (tree : outline.IsTree) {i : Nat}
    (h : i < outline.nodes.size) (parent : String) (level : Nat) :
    Stroke.counter? level (nodeStrokes outline parent i) = some level := by
  have hPlaces : ∀ j ∈ [i], j < outline.nodes.size := by
    intro j hMem
    rw [List.mem_singleton.mp hMem]
    exact h
  obtain ⟨forest, hForest⟩ := tree.exists_depicts hPlaces
  have hCounter := (hForest.draws tree level parent []).counter
  rw [List.flatMap_singleton, List.map_nil, List.append_nil] at hCounter
  exact hCounter

end Outline

/-- **The outputs of an outline are those of the forests it stands for.** The
outline of a document stands for a definite tree, with every node in it once;
the lines of the script, under any module name, and those of the dump are the
recursive prints of that tree, each with its level and its text. The level counter
of the script never goes below zero, and behind every node it is what it was before
it. -/
theorem Outline.render_eq_unitLines {ts : List Token} {outline : Outline}
    (h : Outline.build ts = .ok outline) :
    (∃ types elements, outline.Represents types elements) ∧
      (∀ types elements, outline.Represents types elements →
        (types.nodes ++ elements.nodes).Perm (outline.nodes.toList.tail.map Node.unlinked) ∧
        (∀ moduleName,
          Stroke.linesFrom 0 (unitStrokes outline moduleName) =
            Forest.unitLines moduleName types elements ∧
          Script.render outline moduleName =
            OutputLine.render (Forest.unitLines moduleName types elements)) ∧
        outline.dumpLines = types.dumpLines 0 ++ elements.dumpLines 0 ∧
        outline.dump = OutputLine.render (types.dumpLines 0 ++ elements.dumpLines 0)) ∧
      (∀ moduleName, Stroke.counter? 0 (unitStrokes outline moduleName) = some 0) ∧
      ∀ i < outline.nodes.size, ∀ parent level,
        Stroke.counter? level (nodeStrokes outline parent i) = some level := by
  obtain ⟨contents, -, rfl⟩ := derives_of_build h
  have tree := contents.isTree
  obtain ⟨types, elements, hForests⟩ := tree.exists_represents
  refine ⟨⟨types, elements, hForests⟩, ?_, fun moduleName => ?_, fun i hPlace parent level => ?_⟩
  · intro types elements hForests
    have hDump := hForests.dumpLines_eq tree
    refine ⟨hForests.perm tree, fun moduleName => ?_, hDump, by rw [dump, hDump]⟩
    have hLines := (hForests.draws tree moduleName).lines
    exact ⟨hLines, by rw [Script.render, hLines]⟩
  · exact (hForests.draws tree moduleName).counter
  · exact tree.counter?_nodeStrokes hPlace parent level

/-- The dump of the document of `nestedTokens`. -/
def nestedDump : List OutputLine :=
  [⟨0, "type Row extends Item"⟩,
    ⟨1, "element Label"⟩,
    ⟨2, "id: first"⟩,
    ⟨2, "type Cell extends Row"⟩,
    ⟨3, "element Icon"⟩,
    ⟨4, "id: inner"⟩,
    ⟨1, "element Label"⟩,
    ⟨2, "id: first"⟩,
    ⟨0, "element Row"⟩,
    ⟨1, "id: last"⟩,
    ⟨1, "property width: 3"⟩]

/-- Definitions and elements inside each other: the lines of the script, and all lines of
the dump. -/
theorem render_nested :
    ∃ outline types elements, Outline.build nestedTokens = .ok outline ∧
      outline.Represents types elements ∧ outline.nodes.size = 7 ∧
      Stroke.linesFrom 0 (unitStrokes outline (some "start")) =
        Forest.unitLines (some "start") types elements ∧
      Script.render outline (some "start") =
        OutputLine.render (Forest.unitLines (some "start") types elements) ∧
      types.dumpLines 0 ++ elements.dumpLines 0 = nestedDump ∧
      outline.dump = OutputLine.render nestedDump := by
  obtain ⟨⟨types, elements, hForests⟩, hPrints, -⟩ := Outline.render_eq_unitLines build_nested
  obtain ⟨-, hScript, hDumpLines, hDump⟩ := hPrints types elements hForests
  obtain ⟨hLines, hRender⟩ := hScript (some "start")
  have hNested : nestedOutline.dumpLines = nestedDump := by decide +kernel
  rw [← hDumpLines, hNested] at hDump
  exact ⟨_, types, elements, build_nested, hForests, by decide +kernel, hLines, hRender,
    hDumpLines.symm.trans hNested, hDump⟩

end BindingMarkup
