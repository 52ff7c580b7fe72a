import BindingMarkup.Proofs.NodeCall
import BindingMarkup.Proofs.Vocabulary

/-!
# BindingMarkup — what the names of a script denote

The script has variables of its own, `root`, `elem`, `parent` and `id`, and
variables for the ids of the document. The only guard on an id is that it is
an identifier, so it may be one of the first kind as well. Which of them
are lost that way is the question here.

* `elem` is never lost. Every function for a node has its own `elem`, and
  where the id of the node is `elem`, the object is only kept once more.
* `parent` and `id` are arguments that nothing reads behind the construction
  of the object.
* `root` is lost: an element outside all definitions that has this id puts its
  object in the place of the root object.

`Outline.names_of_parse` says this for all documents, and
`lookup_root_rooted` shows the loss on one of them.
-/

namespace BindingMarkup

open Text Script

namespace Script

variable {strict : Prop} {m : Machine}

-- ---------------------------------------------------------------------------
-- The unit
-- ---------------------------------------------------------------------------

/-- What stands in a unit before its nodes. -/
def unitFront (ids : List String) : List Stroke :=
  ["'use strict';", ""].map .line ++
    (declaration ids).flatMap (fun stroke => [stroke, .line ""]) ++
    (rootObject ++ [""]).map .line

/-- The nodes of a unit. -/
def unitNodes (outline : Outline) : List Stroke :=
  (outline.typesOf 0 ++ outline.elementsOf 0).flatMap fun i =>
    nodeStrokes outline "root" i ++ [""].map .line

/-- What stands between the first and the last line of a unit. -/
def unitBody (outline : Outline) (moduleName : Option String) : List Stroke :=
  unitFront (outline.scopeIds 0) ++ unitNodes outline ++ (unitEnd moduleName).map .line

/-- A unit is a function: an opening, its body and a closing. -/
theorem unitStrokes_eq_function (outline : Outline) (moduleName : Option String) :
    unitStrokes outline moduleName =
      .opening .scope (unitOpening moduleName) :: unitBody outline moduleName ++
        [.closing (unitClosing moduleName)] := by
  rw [unitStrokes, unitBlock_eq]
  rfl

/-- Nothing opens before the nodes: the root object is written line by line. -/
theorem isPlain_unitFront (ids : List String) : ∀ stroke ∈ unitFront ids, stroke.isPlain := by
  intro stroke hMem
  rw [unitFront, List.mem_append, List.mem_append, List.mem_map, List.mem_flatMap,
    List.mem_map] at hMem
  rcases hMem with (⟨text, -, rfl⟩ | ⟨first, hFirst, hGap⟩) | ⟨text, -, rfl⟩
  · rfl
  · rcases List.mem_cons.mp hGap with rfl | hGap
    · exact isPlain_declaration ids stroke hFirst
    · rw [List.mem_singleton.mp hGap]
      rfl
  · rfl

theorem initialization?_root :
    initialization? "var root = \x7b".toList = some ("root", ['\x7b']) := rfl

theorem rootObject_eq : (rootObject ++ [""]).map Stroke.line =
    .line "var root = \x7b" :: (rootObject.tail ++ [""]).map .line := rfl

/-- Behind its first line the root object sets no variable. -/
theorem rootObject_plain : ∀ text ∈ rootObject.tail ++ [""],
    initialization? text.toList = none ∧ (Stroke.line text).usesElem = false := by
  decide

/-- The front of a unit declares its ids and `root`. -/
theorem names_unitFront (ids : List String) :
    (unitFront ids).flatMap Stroke.names = ids ++ ["root"] := by
  have hIds : ((declaration ids).flatMap fun stroke => [stroke, .line ""]).flatMap Stroke.names =
      ids := by
    cases ids with
    | nil => rfl
    | cons id ids => exact List.append_nil _
  have hRoot : ((rootObject ++ [""]).map Stroke.line).flatMap Stroke.names = ["root"] := by
    rw [rootObject_eq, List.flatMap_cons, Stroke.names_line initialization?_root,
      Stroke.names_map_line fun text hText => (rootObject_plain text hText).1]
    rfl
  rw [unitFront, List.flatMap_append, List.flatMap_append, hIds, hRoot]
  rfl

theorem initialization?_of_mem_unitEnd {moduleName : Option String} :
    ∀ text ∈ unitEnd moduleName, initialization? text.toList = none := by
  cases moduleName <;> simp [unitEnd, initialization?]

/-- The end of a unit does not use `elem`. -/
theorem usesElem_of_mem_unitEnd {moduleName : Option String} :
    ∀ text ∈ unitEnd moduleName, (Stroke.line text).usesElem = false := by
  have hTexts : ∀ text ∈ unitEnd (some ""), (Stroke.line text).usesElem = false := by decide
  cases moduleName with
  | none => decide
  | some name => exact hTexts

/-- Before the nodes of a unit run, `root` is set. -/
theorem passes_unitFront (ids : List String) (hSkip : m.skipping = 0) :
    Passes strict m (unitFront ids) (m.write "root" .root) := by
  have hStrict : Passes strict m (["'use strict';", ""].map .line) m :=
    .lines hSkip (by simp [initialization?]) (by simp [Stroke.usesElem, initialization?])
  have hIds : Passes strict m ((declaration ids).flatMap fun stroke => [stroke, .line ""]) m := by
    have hGap : Passes strict m ([""].map .line) m :=
      .lines hSkip (by simp [initialization?]) (by simp [Stroke.usesElem, initialization?])
    cases ids with
    | nil => exact .refl strict m
    | cons id ids => exact (Passes.declaration hSkip (id :: ids)).append hGap
  have hRoot : Passes strict m [.line "var root = \x7b"] (m.write "root" .root) :=
    .one hSkip ⟨fun h => absurd h (by decide), fun _ _ h => absurd h (by simp)⟩ fun _ => rfl
  have hSet : (m.write "root" .root).skipping = 0 := hSkip
  have hRest : Passes strict (m.write "root" .root) ((rootObject.tail ++ [""]).map .line)
      (m.write "root" .root) := by
    refine .lines hSet (fun text hText => (rootObject_plain text hText).1) ?_
    intro text hText hUses
    rw [(rootObject_plain text hText).2] at hUses
    exact absurd hUses Bool.false_ne_true
  rw [unitFront, rootObject_eq]
  exact (hStrict.append hIds).append (hRoot.append hRest)

end Script

namespace Outline

variable {outline : Outline}

/-- The nodes of a unit close all that they open. -/
theorem IsTree.closed_unitNodes (tree : outline.IsTree) : Closed (unitNodes outline) := by
  refine .flatMap fun i _ => ?_
  exact (closed_nodeStrokes tree i "root").append (closed_map_line [""])

/-- The nodes of a unit declare the names of its definitions. -/
theorem IsTree.hoisted_unitNodes (tree : outline.IsTree) (hNamed : ∀ i, (outline.node i).Named) :
    hoisted 0 (unitNodes outline) =
      (outline.node 0).types.map fun i => (outline.node i).typeName := by
  have hBehind : ∀ text ∈ [""], initialization? text.toList = none := by simp [initialization?]
  have hTypes := hoisted_places tree hNamed (tree.isDefinition_of_mem true 0) (.inl rfl) hBehind
  have hElements := hoisted_places tree hNamed (tree.isDefinition_of_mem false 0) (.inl rfl) hBehind
  have hClosed : Closed ((outline.node 0).types.flatMap fun i =>
      nodeStrokes outline "root" i ++ [""].map .line) :=
    .flatMap fun i _ => (closed_nodeStrokes tree i "root").append (closed_map_line [""])
  rw [unitNodes, tree.typesOf_eq, tree.elementsOf_eq, List.flatMap_append,
    hoisted_append (hClosed 0)]
  exact (congrArg₂ _ hTypes hElements).trans (List.append_nil _)

theorem IsTree.closed_unitBody (tree : outline.IsTree) (moduleName : Option String) :
    Closed (unitBody outline moduleName) :=
  ((closed_of_plain (isPlain_unitFront _)).append tree.closed_unitNodes).append (closed_map_line _)

/-- All variables of a unit. -/
theorem IsTree.hoisted_unitBody (tree : outline.IsTree) (hNamed : ∀ i, (outline.node i).Named)
    (moduleName : Option String) :
    hoisted 0 (unitBody outline moduleName) = outline.scopeIds 0 ++
      "root" :: (outline.node 0).types.map fun i => (outline.node i).typeName := by
  have hPlain := isPlain_unitFront (outline.scopeIds 0)
  rw [unitBody, List.append_assoc, hoisted_append (closed_of_plain hPlain 0),
    hoisted_append (tree.closed_unitNodes 0), hoisted_of_plain hPlain, names_unitFront,
    tree.hoisted_unitNodes hNamed, hoisted_map_line initialization?_of_mem_unitEnd]
  simp

/-- A unit starts with its ids, `root` and its definitions as variables. -/
theorem IsTree.isSome_vars_unit (tree : outline.IsTree) (hNamed : ∀ i, (outline.node i).Named)
    {elements : Forest} (hElements : outline.Depicts (outline.node 0).elements elements)
    (moduleName : Option String) (name : String)
    (h : name ∈ elements.ids ∨ name = "root" ∨
      ∃ i ∈ (outline.node 0).types, (outline.node i).typeName = name) :
    ((Activation.start (unitOpening moduleName) (unitBody outline moduleName)).vars name).isSome =
      true := by
  rw [Activation.isSome_vars_start, tree.hoisted_unitBody hNamed, hElements.scopeIds_eq tree]
  refine .inr ?_
  simpa using h

/-- The nodes of a unit run in any state that has the variables for them. -/
theorem IsTree.arrives_unitNodes (tree : outline.IsTree) (hNamed : ∀ i, (outline.node i).Named)
    (hFree : outline.IsFree "root") {elements : Forest}
    (hElements : outline.Depicts (outline.node 0).elements elements) (hSkip : m.skipping = 0)
    (hTypeVars : ∀ i ∈ (outline.node 0).types,
      ∃ a ∈ m.frames.take 1, (a.vars (outline.node i).typeName).isSome = true)
    (hBound : ∀ id ∈ elements.ids, (lookup m.frames id).isSome = true) :
    Arrives "root" True elements.ids m (unitNodes outline) := by
  have hBehind : ∀ text ∈ [""], text = "" := by simp
  obtain ⟨types, -, hTypes, -⟩ := tree.exists_depicts_children 0
  have hDefinitions : outline.Runs "root" True true (outline.node 0).types types :=
    hTypes.runs tree hNamed hFree (tree.isDefinition_of_mem true 0)
  have hFirst := hDefinitions "root" [""] m (.inl rfl) hBehind hSkip
    (fun h => absurd h (by decide)) (fun _ => hTypeVars) (fun _ h => absurd h (by simp))
  have hBoth := hFirst.append fun m' hSkip' hKept =>
    hElements.runs tree hNamed hFree (tree.isDefinition_of_mem false 0)
      "root" [""] m' (.inl rfl) hBehind hSkip' (fun h => absurd h (by decide))
      (fun h => absurd h (by simp))
      (fun _ _ id hId => (isSome_lookup_congr hKept).mpr (hBound id hId))
  rw [unitNodes, tree.typesOf_eq, tree.elementsOf_eq, List.flatMap_append]
  exact hBoth

/-- Behind its nodes a unit finds the root object under `root` unless an element outside
all definitions has that id. -/
theorem IsTree.exists_passes_unitNodes (tree : outline.IsTree)
    (hNamed : ∀ i, (outline.node i).Named) (hFree : outline.IsFree "root") {elements : Forest}
    (hElements : outline.Depicts (outline.node 0).elements elements) {unit : Activation}
    (hVars : ∀ name, (name ∈ elements.ids ∨ name = "root" ∨
      ∃ i ∈ (outline.node 0).types, (outline.node i).typeName = name) →
      (unit.vars name).isSome = true)
    (outer : List Activation) (count : Nat) :
    ∃ m, Passes True ⟨unit :: outer, count, 0⟩
        (unitFront (outline.scopeIds 0) ++ unitNodes outline) m ∧ m.skipping = 0 ∧
      m.frames.tail = outer ∧ (lookup m.frames "root" = some .root ↔ "root" ∉ elements.ids) := by
  have hRoot : (unit.vars "root").isSome = true := hVars "root" (.inr (.inl rfl))
  have hSet : write "root" .root (unit :: outer) = unit.set "root" .root :: outer := if_pos hRoot
  have hLookup : lookup (write "root" .root (unit :: outer)) "root" = some .root :=
    lookup_write_self (isSome_lookup_iff.mpr ⟨unit, List.mem_cons_self, hRoot⟩) _
  -- an assignment changes values only, so that what is declared stays declared
  have hFixed : (write "root" .root (unit :: outer)).map Activation.fixed =
      (unit :: outer).map Activation.fixed := map_fixed_write fun h => absurd h (by decide)
  have hNodes := tree.arrives_unitNodes hNamed hFree hElements
    (m := ⟨write "root" .root (unit :: outer), count, 0⟩) rfl
    (fun i hi => (exists_bound_iff hFixed 1).mpr
      ⟨unit, List.mem_cons_self, hVars _ (.inr (.inr ⟨i, hi, rfl⟩))⟩)
    (fun id hId => (isSome_lookup_congr hFixed).mpr
      (isSome_lookup_iff.mpr ⟨unit, List.mem_cons_self, hVars id (.inl hId)⟩))
  obtain ⟨m, hPasses, hSkip, hSettles⟩ := hNodes
  refine ⟨m, (passes_unitFront _ rfl).append hPasses, hSkip, ?_, ?_⟩
  · rw [← List.drop_one, hSettles.outer 0 fun id hId => (exists_bound_iff hFixed 1).mpr
      ⟨unit, List.mem_cons_self, hVars id (.inl hId)⟩, hSet]
    rfl
  · constructor
    · intro hRootObject hMem
      -- an id of that name was given an object of its own
      obtain ⟨n, hObject⟩ := hSettles.assigned hMem (by rw [hLookup]; rfl)
      rw [hObject] at hRootObject
      exact absurd hRootObject (by simp)
    · intro hMem
      rw [hSettles.other hMem, hLookup]

/-- **A call of the unit.** Up to its last strokes all goes well, and at these `root`
denotes the root object unless an element outside all definitions has that id. -/
theorem IsTree.call_unit (tree : outline.IsTree) (hNamed : ∀ i, (outline.node i).Named)
    (hFree : outline.IsFree "root") {elements : Forest}
    (hElements : outline.Depicts (outline.node 0).elements elements) (moduleName : Option String)
    (outer : List Activation) (count : Nat) :
    (∀ entry ∈ callTrace outer count (unitStrokes outline moduleName),
      Sound True entry.1 entry.2) ∧
    (callResult outer count (unitStrokes outline moduleName)).frames = outer ∧
    ∃ earlier later, callTrace outer count (unitStrokes outline moduleName) = earlier ++ later ∧
      later.map Prod.snd =
        (unitEnd moduleName).map .line ++ [.closing (unitClosing moduleName)] ∧
      ∀ entry ∈ later, lookup entry.1.frames "root" = some .root ↔ "root" ∉ elements.ids := by
  obtain ⟨m, hNodes, hSkip, hOuter, hRoot⟩ := tree.exists_passes_unitNodes hNamed hFree hElements
    (tree.isSome_vars_unit hNamed hElements moduleName) outer count
  have hClosed := tree.closed_unitBody moduleName
  -- the lines at the end use no element and leave the variables alone
  have hEnd : Passes True m ((unitEnd moduleName).map .line) m := by
    refine .lines hSkip initialization?_of_mem_unitEnd fun text hText hUses => ?_
    rw [usesElem_of_mem_unitEnd text hText] at hUses
    exact absurd hUses Bool.false_ne_true
  obtain ⟨hSound, hFrames⟩ := (hNodes.append hEnd).call hClosed hSkip .scope
    (unitClosing moduleName)
  obtain ⟨⟨entries, -, hTrace⟩, -⟩ := hNodes
  rw [unitStrokes_eq_function]
  refine ⟨hSound, hFrames.trans hOuter, entries,
    (unitEnd moduleName).map (fun text => (m, .line text)) ++
      [(m, .closing (unitClosing moduleName))], ?_, by simp, ?_⟩
  · have hLast := hTrace ((unitEnd moduleName).map .line ++ [.closing (unitClosing moduleName)])
    rw [← List.append_assoc, Passes.trace_lines hSkip initialization?_of_mem_unitEnd,
      Machine.trace, if_pos hSkip] at hLast
    rw [callTrace, Passes.called_eq hClosed]
    exact hLast
  · intro entry hEntry
    have hState : entry.1 = m := by
      rcases List.mem_append.mp hEntry with hLine | hLast
      · obtain ⟨text, -, rfl⟩ := List.mem_map.mp hLine
        rfl
      · rw [List.mem_singleton.mp hLast]
    rw [hState]
    exact hRoot

-- ---------------------------------------------------------------------------
-- The names that are there because of ids
-- ---------------------------------------------------------------------------

/-- The names in the head of a function that are there because of ids. -/
theorem idNames_nodeHead {node : Node} (hNamed : node.Named) (ids : List String) :
    (nodeHead node ids).flatMap Stroke.idNames = ids ++ node.id.toList := by
  have hIds : (declaration ids).flatMap Stroke.idNames = ids := by
    cases ids with
    | nil => rfl
    | cons id ids => exact List.append_nil _
  have hConstruction : (Stroke.line (nodeConstruction node)).idNames = [] := by
    obtain ⟨value, hValue⟩ := initialization?_nodeConstruction node
    rw [Stroke.idNames, hValue]
    exact if_neg (by simp)
  have hKeeping : (node.id.toList.map (nodeKeeping node)).flatMap Stroke.idNames =
      node.id.toList := by
    cases hId : node.id with
    | none => rfl
    | some id =>
      have hOne : (nodeKeeping node id).idNames = [id] := by
        unfold nodeKeeping
        split
        · rw [Stroke.idNames, initialization?_keeping (hNamed.id id hId)]
          exact if_pos rfl
        · rfl
      simp [hOne]
  rw [nodeHead, List.flatMap_append, List.flatMap_cons, hIds, hConstruction, hKeeping]
  rfl

/-- The strokes for a node name its ids, and those of what is inside it. -/
theorem idNames_nodeStrokes (hNamed : ∀ i, (outline.node i).Named) (parent : String) (i : Nat) :
    (nodeStrokes outline parent i).flatMap Stroke.idNames =
      nodeIds outline i ++ (outline.node i).id.toList ++
        ((outline.typesOf i ++ outline.elementsOf i).flatMap (nodeStrokes outline "elem")).flatMap
          Stroke.idNames := by
  have hEntries : ((entryStatements (outline.node i)).map Stroke.line).flatMap Stroke.idNames =
      [] :=
    Stroke.idNames_map_line fun _ h => initialization?_of_mem_entryStatements h
  have hOpening : (Stroke.opening (nodeFrame (outline.node i))
      (nodeOpening (outline.node i) parent)).idNames = [] := rfl
  have hReturn : [Stroke.line "return elem;"].flatMap Stroke.idNames = [] := rfl
  have hClosing : [Stroke.closing (nodeClosing (outline.node i) parent)].flatMap Stroke.idNames =
      [] := rfl
  rw [nodeStrokes_eq_function, nodeBody]
  simp only [List.flatMap_append, List.flatMap_cons, hOpening, idNames_nodeHead (hNamed i),
    hEntries, hReturn, hClosing, List.append_nil, List.nil_append]

/-- What is assigned is named. -/
theorem mem_idNames_of_assigns {strokes : List Stroke} {ids : List String}
    (h : Stroke.Assigns strokes ids) : ∀ id ∈ ids, id ∈ strokes.flatMap Stroke.idNames := by
  induction h with
  | nil => exact List.forall_mem_nil _
  | line text _ ih => exact fun id hId => List.mem_append_right _ (ih id hId)
  | assign _ _ ih =>
    refine List.forall_mem_cons.mpr ⟨List.mem_cons_self, fun id hId => ?_⟩
    exact List.mem_cons_of_mem _ (ih id hId)
  | closure head tail _ _ ihInside ihMore =>
    intro id hId
    rw [List.flatMap_append]
    rcases List.mem_append.mp hId with hInside | hMore
    · exact List.mem_append_left _ (ihInside id hInside)
    · exact List.mem_append_right _ (ihMore id hMore)
  | scope head tail front _ _ _ _ ihMore =>
    intro id hId
    rw [List.flatMap_append]
    exact List.mem_append_right _ (ihMore id hId)

/-- The ids that a function declares are named again where they are assigned. -/
theorem IsTree.mem_idNames_of_mem_scopeIds (tree : outline.IsTree) {i : Nat} (parent : String)
    (behind : List String) {id : String} (h : id ∈ outline.scopeIds i) :
    id ∈ ((outline.typesOf i ++ outline.elementsOf i).flatMap fun child =>
      nodeStrokes outline parent child ++ behind.map .line).flatMap Stroke.idNames := by
  obtain ⟨types, elements, hTypes, hElements⟩ := tree.exists_depicts_children i
  rw [hElements.scopeIds_eq tree, List.mem_eraseDups] at h
  exact mem_idNames_of_assigns (tree.assigns_children hTypes hElements parent behind) id h

/-- A node is within another one if it is the same or within one of its children. -/
theorem IsTree.within_iff (tree : outline.IsTree) {j i : Nat} :
    outline.Within j i ↔
      j = i ∨ ∃ child ∈ outline.typesOf i ++ outline.elementsOf i, outline.Within j child := by
  rw [Within, Relation.ReflTransGen.cases_tail_iff, tree.typesOf_eq, tree.elementsOf_eq, eq_comm]
  refine or_congr Iff.rfl (exists_congr fun child => ?_)
  rw [and_comm]
  exact and_congr_left fun _ => tree.mem_children_iff.symm

/-- **The names in the strokes for a node** that are there because of ids are the ids of the
node and of all that is inside it. -/
theorem IsTree.mem_idNames_iff (tree : outline.IsTree) (hNamed : ∀ i, (outline.node i).Named)
    (parent : String) (i : Nat) {name : String} :
    name ∈ (nodeStrokes outline parent i).flatMap Stroke.idNames ↔
      ∃ j, outline.Within j i ∧ (outline.node j).id = some name := by
  have hChildren : name ∈ ((outline.typesOf i ++ outline.elementsOf i).flatMap
      (nodeStrokes outline "elem")).flatMap Stroke.idNames ↔
      ∃ child ∈ outline.typesOf i ++ outline.elementsOf i,
        ∃ j, outline.Within j child ∧ (outline.node j).id = some name := by
    rw [List.flatMap_assoc, List.mem_flatMap]
    refine exists_congr fun child => and_congr_right fun hChild => ?_
    have hLater : i < child ∧ i < outline.nodes.size := by
      rcases List.mem_append.mp hChild with hType | hElement
      · exact Outline.mem_typesOf hType
      · exact Outline.mem_elementsOf hElement
    exact tree.mem_idNames_iff hNamed "elem" child
  -- an id is declared only where an element inside assigns it
  have hDeclared : name ∈ nodeIds outline i → name ∈ ((outline.typesOf i ++
      outline.elementsOf i).flatMap (nodeStrokes outline "elem")).flatMap Stroke.idNames := by
    intro hName
    have hScope : name ∈ outline.scopeIds i := by
      unfold nodeIds at hName
      split at hName
      · exact hName
      · exact absurd hName List.not_mem_nil
    simpa only [List.map_nil, List.append_nil] using
      tree.mem_idNames_of_mem_scopeIds "elem" [] hScope
  rw [idNames_nodeStrokes hNamed, List.mem_append, List.mem_append, Option.mem_toList]
  constructor
  · rintro ((hId | hOwn) | hInside)
    · obtain ⟨child, hChild, j, hWithin, hName⟩ := hChildren.mp (hDeclared hId)
      exact ⟨j, tree.within_iff.mpr (.inr ⟨child, hChild, hWithin⟩), hName⟩
    · exact ⟨i, .refl, hOwn⟩
    · obtain ⟨child, hChild, j, hWithin, hName⟩ := hChildren.mp hInside
      exact ⟨j, tree.within_iff.mpr (.inr ⟨child, hChild, hWithin⟩), hName⟩
  · rintro ⟨j, hWithin, hName⟩
    rcases tree.within_iff.mp hWithin with rfl | ⟨child, hChild, hInside⟩
    · exact .inl (.inr hName)
    · exact .inr (hChildren.mpr ⟨child, hChild, j, hInside, hName⟩)
termination_by outline.nodes.size - i
decreasing_by exact Outline.size_sub_lt hLater

/-- The names in the front of a unit that are there because of ids. -/
theorem idNames_unitFront (ids : List String) :
    (unitFront ids).flatMap Stroke.idNames = ids := by
  have hIds : ((declaration ids).flatMap fun stroke => [stroke, .line ""]).flatMap Stroke.idNames =
      ids := by
    cases ids with
    | nil => rfl
    | cons id ids => exact List.append_nil _
  have hStrict : (["'use strict';", ""].map Stroke.line).flatMap Stroke.idNames = [] := rfl
  have hRoot : ((rootObject ++ [""]).map Stroke.line).flatMap Stroke.idNames = [] := by
    rw [rootObject_eq, List.flatMap_cons, Stroke.idNames, initialization?_root,
      Stroke.idNames_map_line fun text hText => (rootObject_plain text hText).1]
    rfl
  rw [unitFront, List.flatMap_append, List.flatMap_append, hIds, hStrict, hRoot]
  simp

/-- The names in a unit that are there because of ids are the ids of its nodes. -/
theorem IsTree.mem_idNames_unit_iff (tree : outline.IsTree) (hNamed : ∀ i, (outline.node i).Named)
    (hRoot : (outline.node 0).id = none) (moduleName : Option String) {name : String} :
    name ∈ (unitStrokes outline moduleName).flatMap Stroke.idNames ↔
      ∃ i, (outline.node i).id = some name := by
  have hEnd : ((unitEnd moduleName).map Stroke.line).flatMap Stroke.idNames = [] :=
    Stroke.idNames_map_line initialization?_of_mem_unitEnd
  have hNodes : name ∈ (unitNodes outline).flatMap Stroke.idNames ↔
      ∃ child ∈ outline.typesOf 0 ++ outline.elementsOf 0,
        ∃ j, outline.Within j child ∧ (outline.node j).id = some name := by
    have hGap : ([""].map Stroke.line).flatMap Stroke.idNames = [] := rfl
    rw [unitNodes, List.flatMap_assoc, List.mem_flatMap]
    refine exists_congr fun child => and_congr_right fun _ => ?_
    rw [List.flatMap_append, hGap, List.append_nil]
    exact tree.mem_idNames_iff hNamed "root" child
  have hStrokes : (unitStrokes outline moduleName).flatMap Stroke.idNames =
      outline.scopeIds 0 ++ (unitNodes outline).flatMap Stroke.idNames := by
    rw [unitStrokes_eq_function, unitBody]
    simp only [List.cons_append, List.flatMap_cons, List.flatMap_append, idNames_unitFront, hEnd]
    simp [Stroke.idNames]
  rw [hStrokes, List.mem_append]
  constructor
  · rintro (hDeclared | hInside)
    · obtain ⟨-, -, j, -, hName⟩ :=
        hNodes.mp (tree.mem_idNames_of_mem_scopeIds "root" [""] hDeclared)
      exact ⟨j, hName⟩
    · obtain ⟨-, -, j, -, hName⟩ := hNodes.mp hInside
      exact ⟨j, hName⟩
  · rintro ⟨i, hName⟩
    refine .inr (hNodes.mpr ?_)
    -- what is no node reads as a root, which has no id
    have hPlace : i < outline.nodes.size := by
      refine Nat.lt_of_not_le fun hOut => ?_
      rw [node_of_size_le hOut] at hName
      exact absurd hName (by simp [Node.root])
    have hWithin : outline.Within i 0 := by
      rcases Nat.eq_zero_or_pos i with rfl | hPos
      · exact .refl
      · exact (tree.inside_root hPos hPlace).to_reflTransGen
    rcases tree.within_iff.mp hWithin with rfl | ⟨child, hChild, hInside⟩
    · exact absurd hName (by simp [hRoot])
    · exact ⟨child, hChild, i, hInside, hName⟩

end Outline

-- ---------------------------------------------------------------------------
-- Documents
-- ---------------------------------------------------------------------------

/-- The names of a node that fits have no blanks, and its type is not `elem`. -/
theorem Node.Fits.named {node : Node} (h : node.Fits) : node.Named := by
  have hBlank : Token.isElementChar ' ' = false := by decide
  obtain ⟨hUpper, hChars⟩ := Bool.and_eq_true_iff.mp h.typeName
  refine ⟨fun hMem => ?_, fun hName => ?_, fun id hId hMem => ?_⟩
  · rw [List.all_eq_true.mp hChars ' ' hMem] at hBlank
    exact absurd hBlank (by simp)
  · rw [hName] at hUpper
    exact absurd hUpper (by decide)
  · have hIdentifier := h.id id hId
    have hFirst : (isAlphabetic ' ' || ' ' == '_' || ' ' == '$') = false := by decide +kernel
    have hOther : isNameChar ' ' = false := by decide +kernel
    unfold Draft.isIdentifier at hIdentifier
    split at hIdentifier
    · exact absurd hIdentifier Bool.false_ne_true
    · next c rest hText =>
      obtain ⟨hHead, hRest⟩ := Bool.and_eq_true_iff.mp hIdentifier
      rw [hText] at hMem
      rcases List.mem_cons.mp hMem with rfl | hLater
      · exact absurd (hFirst.symm.trans hHead) (by simp)
      · exact absurd (hOther.symm.trans (List.all_eq_true.mp hRest ' ' hLater)) (by simp)

/-- A type has a capital. -/
theorem Node.Fits.typeName_ne_root {node : Node} (h : node.Fits) : "root" ≠ node.typeName := by
  rintro hName
  have hUpper := (Bool.and_eq_true_iff.mp h.typeName).1
  rw [← hName] at hUpper
  exact absurd hUpper (by decide)

/-- What is known of the nodes of every outline. -/
theorem Outline.nodes_of_parse {source : String} {outline : Outline}
    (h : Outline.parse source = .ok outline) :
    outline.IsTree ∧ (∀ i, (outline.node i).Named) ∧ outline.IsFree "root" ∧
      (outline.node 0).id = none := by
  obtain ⟨contents, hDerives, rfl⟩ := Outline.derives_of_build h
  have hContents := Contents.fits_of_derives hDerives (Token.fitsFrom_tokenize source)
  obtain ⟨hId, -, -⟩ := Contents.entries_of_document hDerives
  have hRoot : (contents.outline.node 0).id = none := by
    show contents.id?.or Node.root.id = none
    rw [hId]
    rfl
  -- what stands at no place reads as the root, which has neither a name nor an id
  have hNode : ∀ i, ((contents.outline.node i).typeName = "" ∧
      (contents.outline.node i).id = none) ∨ (contents.outline.node i).Fits := by
    intro i
    cases i with
    | zero => exact .inl ⟨rfl, hRoot⟩
    | succ j =>
      have hAt : contents.outline.node (j + 1) = ((contents.nodes 0 1)[j]?).getD Node.root := by
        simp [Outline.node, Contents.outline]
      rw [hAt]
      cases hSome : (contents.nodes 0 1)[j]? with
      | none => exact .inl ⟨rfl, rfl⟩
      | some node =>
        exact .inr (Contents.fits_nodes hContents 0 1 node (List.mem_of_getElem? hSome))
  refine ⟨contents.isTree, fun i => ?_, ⟨by decide, by decide, fun i => ?_⟩, hRoot⟩
  · rcases hNode i with ⟨hName, hNone⟩ | hFits
    · refine ⟨by simp [hName], by simp [hName], by simp [hNone]⟩
    · exact hFits.named
  · rcases hNode i with ⟨hName, -⟩ | hFits
    · simp [hName]
    · exact hFits.typeName_ne_root

/-- The ids of the elements outside all definitions. -/
theorem Outline.Depicts.mem_ids_iff {outline : Outline} (tree : outline.IsTree) {elements : Forest}
    (h : outline.Depicts (outline.node 0).elements elements) {name : String} :
    name ∈ elements.ids ↔ ∃ i, (outline.node i).role = .element ∧ outline.HasScope i 0 ∧
      (outline.node i).id = some name := by
  obtain ⟨places, hVisits, hIds⟩ := h.exists_visits_elements
  have hScope : (outline.node 0).role ≠ .element := by simp [tree.root_role]
  have hPlaces := tree.elementsOfScope_of_visits hScope hVisits
  rw [← hIds, idsAt, List.mem_flatMap]
  refine exists_congr fun i => ?_
  rw [hPlaces.mem_iff, Option.mem_toList, and_assoc]

/-- **What the names of the script denote.** The variables that are declared or assigned
because of ids have the ids of the nodes as their names, in the unit and in the strokes for
each node, whatever else the script calls by such a name. Still, in a call of the function
for any node, `elem` denotes the object of the innermost function whenever it is needed, and
the function of a definition, like the unit, finds every variable that it assigns and leaves
those around it alone. The name that may be lost is `root`: at the end of a call of the unit
it denotes the root object exactly when no element outside all definitions has that id. -/
theorem Outline.names_of_parse {source : String} {outline : Outline}
    (h : Outline.parse source = .ok outline) (moduleName : Option String) :
    (∀ name, name ∈ (unitStrokes outline moduleName).flatMap Stroke.idNames ↔
      ∃ i, (outline.node i).id = some name) ∧
    (∀ i parent name, name ∈ (nodeStrokes outline parent i).flatMap Stroke.idNames ↔
      ∃ j, outline.Within j i ∧ (outline.node j).id = some name) ∧
    (∀ i parent outer count,
      (∀ entry ∈ callTrace outer count (nodeStrokes outline parent i),
        Sound ((outline.node i).role.isDefinition = true) entry.1 entry.2) ∧
      ((outline.node i).role.isDefinition = true →
        (callResult outer count (nodeStrokes outline parent i)).frames = outer)) ∧
    ∀ outer count,
      (∀ entry ∈ callTrace outer count (unitStrokes outline moduleName),
        Sound True entry.1 entry.2) ∧
      (callResult outer count (unitStrokes outline moduleName)).frames = outer ∧
      ∃ earlier later, callTrace outer count (unitStrokes outline moduleName) = earlier ++ later ∧
        later.map Prod.snd =
          (unitEnd moduleName).map .line ++ [.closing (unitClosing moduleName)] ∧
        ∀ entry ∈ later, lookup entry.1.frames "root" = some .root ↔
          ∀ i, (outline.node i).role = .element → outline.HasScope i 0 →
            (outline.node i).id ≠ some "root" := by
  obtain ⟨tree, hNamed, hFree, hRoot⟩ := Outline.nodes_of_parse h
  obtain ⟨-, elements, -, hElements⟩ := tree.exists_depicts_children 0
  refine ⟨fun name => tree.mem_idNames_unit_iff hNamed hRoot moduleName,
    fun i parent name => tree.mem_idNames_iff hNamed parent i,
    fun i parent outer count => tree.call_node hNamed hFree i parent outer count,
    fun outer count => ?_⟩
  obtain ⟨hSound, hFrames, earlier, later, hTrace, hLast, hEnd⟩ :=
    tree.call_unit hNamed hFree hElements moduleName outer count
  refine ⟨hSound, hFrames, earlier, later, hTrace, hLast, fun entry hEntry => ?_⟩
  rw [hEnd entry hEntry, hElements.mem_ids_iff tree]
  simp

/-- A page with ids that are names of the script, but not `root`. -/
def pageSource : String :=
  "Page \x7b\n  id: page\n  Card @ Item \x7b\n    id: parent\n  \x7d\n" ++
    "  Label \x7b\n    id: elem\n  \x7d\n\x7d\n"

/-- At the end of the unit `root` still denotes the root object. -/
theorem names_of_parse_page :
    ∃ outline, Outline.parse pageSource = .ok outline ∧
      ∃ earlier later, callTrace [] 0 (unitStrokes outline none) = earlier ++ later ∧
        later.map Prod.snd = [.line "root.initializeBindings();", .line "root.render();",
          .closing "\x7d());"] ∧
        ∀ entry ∈ later, lookup entry.1.frames "root" = some .root := by
  have hParse : ((Outline.parse pageSource).toOption.any fun outline =>
      outline.nodes.all (·.id != some "root")) = true := by decide +kernel
  cases hOutline : Outline.parse pageSource with
  | error problem => simp [hOutline, Except.toOption] at hParse
  | ok outline =>
    have hIds : ∀ i, (outline.node i).id ≠ some "root" := by
      intro i
      by_cases hPlace : i < outline.nodes.size
      · have hNode : outline.node i = outline.nodes[i] := by simp [Outline.node, hPlace]
        simp only [hOutline, Except.toOption, Option.any_some, Array.all_eq_true,
          bne_iff_ne] at hParse
        rw [hNode]
        exact hParse i hPlace
      · rw [Outline.node_of_size_le (Nat.le_of_not_lt hPlace)]
        simp [Node.root]
    obtain ⟨-, -, -, hUnit⟩ := Outline.names_of_parse hOutline none
    obtain ⟨-, -, earlier, later, hTrace, hLast, hRoot⟩ := hUnit [] 0
    exact ⟨outline, rfl, earlier, later, hTrace, hLast,
      fun entry hEntry => (hRoot entry hEntry).mpr fun i _ _ => hIds i⟩

/-- Two elements, the first with the id `root`. -/
def rootedSource : String :=
  "A \x7b\n  id: root\n\x7d\nB \x7b\n\x7d\n"

/-- The second element is added to the object of the first, and it is this object that is
initialised. -/
theorem lookup_root_rooted :
    ∃ outline, Outline.parse rootedSource = .ok outline ∧
      "root" ∈ (unitStrokes outline none).flatMap Stroke.idNames ∧
      (∃ entry ∈ callTrace [] 0 (unitStrokes outline none),
        entry.2 = .opening .closure "root.addChild((function (parent) \x7b" ∧
          lookup entry.1.frames "root" = some (.object 0)) ∧
      ∃ entry ∈ callTrace [] 0 (unitStrokes outline none),
        entry.2 = .line "root.initializeBindings();" ∧
          lookup entry.1.frames "root" = some (.object 0) := by
  have hParse : Outline.parse rootedSource =
      .ok { nodes := #[{ Node.root with elements := [1, 2] },
        { id := some "root", typeName := "A", role := .element, parent := some 0, line := 1 },
        { typeName := "B", role := .element, parent := some 0, line := 4 }] } := by
    decide +kernel
  exact ⟨_, hParse, by decide +kernel, by decide +kernel, by decide +kernel⟩

end BindingMarkup
