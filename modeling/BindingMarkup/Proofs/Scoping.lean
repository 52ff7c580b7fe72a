import BindingMarkup.Proofs.Printing

/-!
# BindingMarkup — ids and the functions that declare them

The script is strict, so an id that is assigned without a declaration
stops the whole unit. An id belongs to the innermost node around its
element that is the root or a definition (`Outline.HasScope`), and the
function for that node has to declare it.

Two sides are compared. On the side of the outline, the walk for the ids
of a scope calls at the elements of that scope and at no others, in
pre-order (`IsTree.elementsOfScope_of_visits`). On the side of the script,
`Stroke.Assigns` reads off strokes which ids they assign to the variables
of the function around them: assignments count through the functions of
elements, and stop at a function with variables of its own, which has to
declare exactly what is assigned in it, in a line such as `var a, b;`
(`Stroke.Declares`). That the script is of this kind is one induction over
the forest of a document (`Depicts.assigns`).
-/

namespace BindingMarkup

open Script

namespace Outline

-- ---------------------------------------------------------------------------
-- The elements of a scope
-- ---------------------------------------------------------------------------

/-- The scope of a node is the innermost node around it that is the root or a
definition. -/
structure HasScope (outline : Outline) (i s : Nat) : Prop where
  inside : outline.Inside i s
  scope : (outline.node s).role ≠ .element
  innermost : ∀ m, outline.Inside i m → outline.Inside m s → (outline.node m).role = .element

/-- The elements of a scope, in pre-order. -/
structure ElementsOfScope (outline : Outline) (s : Nat) (places : List Nat) : Prop where
  increasing : places.Pairwise (· < ·)
  mem_iff : ∀ i, i ∈ places ↔ (outline.node i).role = .element ∧ outline.HasScope i s

namespace IsTree

variable {outline : Outline} {i p s : Nat}

/-- The elements in a node are its children that are elements. -/
theorem mem_elements_iff (tree : outline.IsTree) :
    i ∈ (outline.node p).elements ↔ outline.IsChild i p ∧ (outline.node i).role = .element := by
  have hMem := tree.mem_iff false i p
  rw [Node.childList, if_neg Bool.false_ne_true] at hMem
  rw [hMem]
  exact and_congr_right fun hChild => isDefinition_eq_false_iff (tree.not_root hChild)

theorem isDefinition_of_mem (tree : outline.IsTree) (definitions : Bool) (p : Nat) :
    ∀ i ∈ (outline.node p).childList definitions,
      (outline.node i).role.isDefinition = definitions :=
  fun i hMem => ((tree.mem_iff definitions i p).mp hMem).2

/-- What is around a node is its parent or around its parent. -/
theorem inside_of_isChild {m : Nat} (hChild : outline.IsChild i p) (h : outline.Inside i m) :
    m = p ∨ outline.Inside p m := by
  obtain ⟨q, hParent, hWithin⟩ := Relation.TransGen.head'_iff.mp h
  obtain rfl : q = p := Option.some.inj (hParent.symm.trans hChild)
  rcases Relation.reflTransGen_iff_eq_or_transGen.mp hWithin with hEq | hInside
  · exact .inl hEq
  · exact .inr hInside

/-- A node that is no element is the scope of its children: nothing is between a node
and its child. -/
theorem hasScope_of_scope (tree : outline.IsTree) (hChild : outline.IsChild i p)
    (hScope : (outline.node p).role ≠ .element) : outline.HasScope i p := by
  refine ⟨.single hChild, hScope, fun m hUp hDown => ?_⟩
  have hBelow := tree.lt_of_inside hDown
  rcases inside_of_isChild hChild hUp with rfl | hAbove
  · omega
  · have hHigher := tree.lt_of_inside hAbove
    omega

/-- The scope of an element is the scope of its children. -/
theorem hasScope_of_element (hChild : outline.IsChild i p)
    (hElement : (outline.node p).role = .element) (hIn : outline.HasScope p s) :
    outline.HasScope i s := by
  refine ⟨.head hChild hIn.inside, hIn.scope, fun m hUp hDown => ?_⟩
  rcases inside_of_isChild hChild hUp with rfl | hAbove
  · exact hElement
  · exact hIn.innermost m hAbove hDown

/-- The elements of a scope are those that are reached from it through elements only. -/
theorem hasScope_iff (tree : outline.IsTree) (hScope : (outline.node s).role ≠ .element) :
    ((outline.node i).role = .element ∧ outline.HasScope i s) ↔
      ∃ top ∈ (outline.node s).elements,
        Relation.ReflTransGen (fun child j => child ∈ (outline.node j).elements) i top := by
  constructor
  · rintro ⟨hElement, hIn⟩
    have hInside := hIn.inside
    have hInnermost := hIn.innermost
    induction hInside using Relation.TransGen.head_induction_on with
    | single hChild => exact ⟨_, tree.mem_elements_iff.mpr ⟨hChild, hElement⟩, .refl⟩
    | @head i q hChild hMore ih =>
      -- the parent is between the two, so it is an element of the same scope
      have hBetween : (outline.node q).role = .element := hInnermost q (.single hChild) hMore
      have hAbove : ∀ m, outline.Inside q m → outline.Inside m s →
          (outline.node m).role = .element :=
        fun m hUp hDown => hInnermost m (.head hChild hUp) hDown
      obtain ⟨top, hTop, hLeads⟩ := ih hBetween ⟨hMore, hScope, hAbove⟩ hAbove
      exact ⟨top, hTop, .head (tree.mem_elements_iff.mpr ⟨hChild, hElement⟩) hLeads⟩
  · rintro ⟨top, hTop, hLeads⟩
    induction hLeads using Relation.ReflTransGen.head_induction_on with
    | refl =>
      obtain ⟨hChild, hElement⟩ := tree.mem_elements_iff.mp hTop
      exact ⟨hElement, tree.hasScope_of_scope hChild hScope⟩
    | head hMem _ ih =>
      obtain ⟨hChild, hElement⟩ := tree.mem_elements_iff.mp hMem
      obtain ⟨hBetween, hIn⟩ := ih
      exact ⟨hElement, hasScope_of_element hChild hBetween hIn⟩

/-- All that is within a node comes before all that is within a later sibling. -/
theorem across_lt (tree : outline.IsTree) {a b : Nat} (hA : outline.IsChild a p)
    (hB : outline.IsChild b p) (hLt : a < b) : Across outline (· < ·) a b := by
  intro x y hX hY
  obtain ⟨k, hInside⟩ := tree.preorder a (lt_size_of_isChild hA)
  have hNotInside : ¬outline.Inside b a := fun h =>
    tree.not_within_siblings hB hA (Nat.ne_of_gt hLt) .refl h.to_reflTransGen
  have hBehind : a + k < b := by
    rw [hInside] at hNotInside
    omega
  have hLast : x ≤ a + k := by
    rcases Relation.reflTransGen_iff_eq_or_transGen.mp hX with rfl | hIn
    · exact Nat.le_add_right _ k
    · exact ((hInside x).mp hIn).2
  have hFirst := tree.le_of_within hY
  omega

theorem goesDown_elements : GoesDown Node.elements :=
  fun node => List.sublist_append_right node.types node.elements

/-- A walk through elements calls at the elements of a scope, in pre-order. -/
theorem elementsOfScope_of_visits (tree : outline.IsTree)
    (hScope : (outline.node s).role ≠ .element) {visited : List Nat}
    (h : outline.Visits Node.elements (outline.node s).elements visited) :
    outline.ElementsOfScope s visited where
  increasing := by
    have hChildren : ∀ i, (outline.node i).elements.Pairwise (Across outline (· < ·)) := by
      intro i
      refine List.Pairwise.imp_of_mem ?_ (tree.increasing false i)
      intro a b hA hB hLt
      exact tree.across_lt (tree.mem_elements_iff.mp hA).1 (tree.mem_elements_iff.mp hB).1 hLt
    exact tree.pairwise_of_visits goesDown_elements id hChildren h (hChildren s)
  mem_iff := fun i => by rw [tree.hasScope_iff hScope, h.mem_iff]

/-- Every node but the root has a scope. -/
theorem exists_hasScope (tree : outline.IsTree) (hPos : 0 < i) (hPlace : i < outline.nodes.size) :
    ∃ s < outline.nodes.size, outline.HasScope i s := by
  induction i using Nat.strongRecOn with
  | _ i ih =>
    obtain ⟨p, hChild⟩ := tree.exists_parent i hPos hPlace
    have hBefore := tree.lt hChild
    by_cases hElement : (outline.node p).role = .element
    · have hInner : 0 < p := by
        rcases Nat.eq_zero_or_pos p with rfl | hInner
        · rw [tree.root_role] at hElement
          exact absurd hElement (by simp)
        · exact hInner
      obtain ⟨s, hLt, hIn⟩ := ih p hBefore hInner (by omega)
      exact ⟨s, hLt, hasScope_of_element hChild hElement hIn⟩
    · exact ⟨p, by omega, tree.hasScope_of_scope hChild hElement⟩

end IsTree

/-- No id is gathered twice. -/
theorem nodup_gatherIds (outline : Outline) (ids : List String) (waiting : List Nat)
    (h : ids.Nodup) : (outline.gatherIds ids waiting).Nodup := by
  induction ids, waiting using gatherIds.induct outline with
  | case1 ids =>
    rw [gatherIds]
    exact h
  | case2 ids i waiting ih =>
    rw [gatherIds]
    apply ih
    cases (outline.node i).id with
    | none => exact h
    | some id => exact nodup_addId h id

end Outline

namespace Script.Stroke

-- ---------------------------------------------------------------------------
-- What a function assigns
-- ---------------------------------------------------------------------------

/-- The line of a function that lists its variables. Without variables there is none. -/
inductive Declares : List Stroke → List String → Prop where
  | nothing : Declares [] []
  | line {ids : List String} (hIds : ids ≠ [])
      (hText : (Stroke.declare ids).text = "var " ++ ", ".intercalate ids ++ ";") :
      Declares [.declare ids] ids

/-- Strokes within a function, with the ids that they assign to variables of that
function, in order. The function around an element has no variables, so what is
assigned there is assigned outside. A function with variables declares them before
anything else is written that could assign them: the ids assigned in it, each once. -/
inductive Assigns : List Stroke → List String → Prop where
  | nil : Assigns [] []
  | line (text : String) {more : List Stroke} {ids : List String}
      (hMore : Assigns more ids) : Assigns (.line text :: more) ids
  | assign {id : String} {more : List Stroke} {ids : List String}
      (hText : (Stroke.assign id).text = id ++ " = elem;") (hMore : Assigns more ids) :
      Assigns (.assign id :: more) (id :: ids)
  | closure (head tail : String) {inside more : List Stroke} {assigned ids : List String}
      (hInside : Assigns inside assigned) (hMore : Assigns more ids) :
      Assigns (.opening .closure head :: inside ++ .closing tail :: more) (assigned ++ ids)
  | scope (head tail : String) (front : List String) {vars body more : List Stroke}
      {assigned ids : List String} (hVars : Declares vars assigned.eraseDups)
      (hBody : Assigns body assigned) (hMore : Assigns more ids) :
      Assigns (.opening .scope head ::
        (front.map .line ++ vars ++ body) ++ .closing tail :: more) ids

/-- A function with the variables `declared`, in which `assigned` are assigned. -/
def IsFunction (strokes : List Stroke) (declared assigned : List String) : Prop :=
  ∃ (head : String) (front : List String) (vars body : List Stroke) (tail : String),
    strokes = .opening .scope head ::
      (front.map .line ++ vars ++ body) ++ [.closing tail] ∧
    Declares vars declared ∧ Assigns body assigned

namespace Assigns

variable {front back strokes : List Stroke} {first second ids assigned : List String}

/-- What strokes side by side assign, they assign one after the other. -/
theorem append (hFirst : Assigns front first) (hSecond : Assigns back second) :
    Assigns (front ++ back) (first ++ second) := by
  induction hFirst with
  | nil => exact hSecond
  | line text _ ih => exact .line text ih
  | assign hText _ ih => exact .assign hText ih
  | closure head tail hInside _ _ ih =>
    rw [List.append_assoc, List.append_assoc]
    exact .closure head tail hInside ih
  | scope head tail texts hVars hBody _ _ ih =>
    rw [List.append_assoc]
    exact .scope head tail texts hVars hBody ih

theorem map_line (texts : List String) : Assigns (texts.map .line) [] := by
  induction texts with
  | nil => exact .nil
  | cons text texts ih => exact .line text ih

/-- Lines around strokes assign nothing. -/
theorem between_lines (h : Assigns strokes ids) (texts more : List String) :
    Assigns (texts.map .line ++ strokes ++ more.map .line) ids := by
  have hAll := ((map_line texts).append h).append (map_line more)
  rwa [List.nil_append, List.append_nil] at hAll

theorem map_assign (ids : List String) : Assigns (ids.map .assign) ids := by
  induction ids with
  | nil => exact .nil
  | cons id ids ih => exact .assign rfl ih

/-- A function that declares what is assigned in it assigns nothing outside. -/
theorem of_isFunction (h : IsFunction strokes assigned.eraseDups assigned) :
    Assigns strokes [] := by
  obtain ⟨head, front, vars, body, tail, rfl, hVars, hBody⟩ := h
  exact .scope head tail front hVars hBody .nil

end Assigns

end Script.Stroke

namespace Script

variable {inside : List Stroke} {assigned : List String}

/-- The declaration of ids is the line that lists them. -/
theorem declares_declaration (ids : List String) : Stroke.Declares (declaration ids) ids := by
  cases ids with
  | nil => exact .nothing
  | cons id ids => exact .line (List.cons_ne_nil id ids) rfl

/-- The factory of a definition declares its variables and assigns what is assigned
inside. The id of the definition itself is a variable of its own. -/
theorem isFunction_nodeBlock {node : Node} (hNode : node.role.isDefinition = true)
    (ids : List String) (parent : String) (h : Stroke.Assigns inside assigned) :
    Stroke.IsFunction (nodeBlock node ids parent inside) ids assigned := by
  obtain ⟨base, hRole⟩ : ∃ base, node.role = .definition base := by
    cases hRole : node.role <;> simp_all [Role.isDefinition]
  have hBody := h.between_lines
    (nodeConstruction node :: node.id.toList.map (fun id => "var " ++ id ++ " = elem;") ++
      entryStatements node) ["return elem;"]
  refine ⟨nodeOpening node parent, [], declaration ids, _, nodeClosing node parent, ?_,
    declares_declaration ids, hBody⟩
  rw [nodeBlock_eq]
  simp [nodeHead, nodeFrame, nodeKeeping, hRole]

/-- The function around an element assigns its id, besides what is assigned inside. -/
theorem assigns_nodeBlock {node : Node} (hNode : node.role.isDefinition = false)
    (parent : String) (h : Stroke.Assigns inside assigned) :
    Stroke.Assigns (nodeBlock node [] parent inside) (node.id.toList ++ assigned) := by
  have hFrame : nodeFrame node = .closure := by
    cases hRole : node.role <;> simp_all [Role.isDefinition, nodeFrame]
  have hKeeping : node.id.toList.map (nodeKeeping node) = node.id.toList.map .assign := by
    cases hRole : node.role <;> simp_all [Role.isDefinition, nodeKeeping]
  have hInside := (Stroke.Assigns.map_assign node.id.toList).append
    (h.between_lines (entryStatements node) ["return elem;"])
  have hFunction := Stroke.Assigns.closure (nodeOpening node parent) (nodeClosing node parent)
    (.line (nodeConstruction node) hInside) .nil
  rw [List.append_nil] at hFunction
  rw [nodeBlock_eq, nodeHead, hFrame, hKeeping]
  simpa [declaration] using hFunction

/-- The strokes inside a node stand among those for the node. -/
theorem infix_nodeBlock (node : Node) (ids : List String) (parent : String)
    (inside : List Stroke) : inside <:+: nodeBlock node ids parent inside := by
  refine ⟨.opening (nodeFrame node) (nodeOpening node parent) ::
    (nodeHead node ids ++ (entryStatements node).map .line),
    [.line "return elem;", .closing (nodeClosing node parent)], ?_⟩
  rw [nodeBlock_eq]
  simp

/-- The strokes of the nodes stand among those of the unit. -/
theorem infix_unitBlock (moduleName : Option String) (ids : List String)
    (nodes : List Stroke) : nodes <:+: unitBlock moduleName ids nodes := by
  rw [unitBlock_eq, List.append_assoc _ nodes, ← List.cons_append, List.append_assoc,
    List.append_assoc nodes]
  exact List.infix_append' _ nodes _

/-- A unit declares its variables and assigns what its nodes assign. -/
theorem isFunction_unitBlock (moduleName : Option String) (ids : List String)
    (h : Stroke.Assigns inside assigned) :
    Stroke.IsFunction (unitBlock moduleName ids inside) ids assigned := by
  -- a declaration is followed by an empty line
  obtain ⟨gap, hGap⟩ : ∃ gap : List String,
      (declaration ids).flatMap (fun stroke => [stroke, .line ""]) =
        declaration ids ++ gap.map .line := by
    cases ids with
    | nil => exact ⟨[], rfl⟩
    | cons id ids => exact ⟨[""], rfl⟩
  have hBody := h.between_lines (gap ++ rootObject ++ [""]) (unitEnd moduleName)
  refine ⟨unitOpening moduleName, ["'use strict';", ""], declaration ids, _,
    unitClosing moduleName, ?_, declares_declaration ids, hBody⟩
  rw [unitBlock_eq, hGap]
  simp

end Script

namespace Outline

-- ---------------------------------------------------------------------------
-- The functions of an outline
-- ---------------------------------------------------------------------------

variable {outline : Outline}

/-- The function of a definition declares the ids of the elements inside. -/
theorem nodeIds_of_isDefinition {i : Nat} (h : (outline.node i).role.isDefinition = true) :
    nodeIds outline i = outline.scopeIds i := by
  cases hRole : (outline.node i).role <;> simp_all [Role.isDefinition, nodeIds, nodeFrame]

/-- The function of an element declares no ids. -/
theorem nodeIds_of_not_isDefinition {i : Nat} (h : (outline.node i).role.isDefinition = false) :
    nodeIds outline i = [] := by
  cases hRole : (outline.node i).role <;> simp_all [Role.isDefinition, nodeIds, nodeFrame]

/-- The strokes for definitions assign nothing around them, and those for elements
assign the ids of their forest. -/
theorem Depicts.assigns (tree : outline.IsTree) {places : List Nat} {forest : Forest}
    (h : outline.Depicts places forest) {definitions : Bool}
    (hPlaces : ∀ i ∈ places, (outline.node i).role.isDefinition = definitions)
    (parent : String) (behind : List String) :
    Stroke.Assigns (places.flatMap fun i => nodeStrokes outline parent i ++ behind.map .line)
      (if definitions then [] else forest.ids) := by
  induction h generalizing definitions parent behind with
  | nil => cases definitions <;> exact .nil
  | @cons i more types elements rest _ hElements _ ihTypes ihElements ihRest =>
    obtain ⟨hHere, hMore⟩ := List.forall_mem_cons.mp hPlaces
    have hInside := (ihTypes (tree.isDefinition_of_mem true i) "elem" []).append
      (ihElements (tree.isDefinition_of_mem false i) "elem" [])
    simp only [List.map_nil, List.append_nil, ← List.flatMap_append] at hInside
    have hNode : Stroke.Assigns (nodeStrokes outline parent i)
        (if definitions then [] else (outline.node i).id.toList ++ elements.ids) := by
      rw [nodeStrokes_eq, tree.typesOf_eq, tree.elementsOf_eq]
      cases definitions with
      | true =>
        -- a factory keeps what is assigned in it to itself
        have hFunction := isFunction_nodeBlock hHere (outline.scopeIds i) parent hInside
        rw [nodeIds_of_isDefinition hHere]
        rw [hElements.scopeIds_eq tree] at hFunction ⊢
        exact .of_isFunction hFunction
      | false =>
        rw [nodeIds_of_not_isDefinition hHere]
        exact assigns_nodeBlock hHere parent hInside
    have hAll := (hNode.append (.map_line behind)).append (ihRest hMore parent behind)
    rw [List.flatMap_cons, Forest.ids]
    cases definitions with
    | true => exact hAll
    | false =>
      simp only [Bool.false_eq_true, if_false, List.append_nil] at hAll ⊢
      exact hAll

/-- The strokes for the children of a node assign the ids of its elements. -/
theorem IsTree.assigns_children (tree : outline.IsTree) {s : Nat} {types elements : Forest}
    (hTypes : outline.Depicts (outline.node s).types types)
    (hElements : outline.Depicts (outline.node s).elements elements)
    (parent : String) (behind : List String) :
    Stroke.Assigns ((outline.typesOf s ++ outline.elementsOf s).flatMap fun i =>
      nodeStrokes outline parent i ++ behind.map .line) elements.ids := by
  have hFirst := hTypes.assigns tree (tree.isDefinition_of_mem true s) parent behind
  have hSecond := hElements.assigns tree (tree.isDefinition_of_mem false s) parent behind
  rw [tree.typesOf_eq, tree.elementsOf_eq, List.flatMap_append]
  exact hFirst.append hSecond

/-- The strokes of the function for a scope. Only the factory of a definition depends
on `parent`, and only the unit on the module name. -/
def functionStrokes (outline : Outline) (moduleName : Option String) (parent : String) (s : Nat) :
    List Stroke :=
  if s = 0 then unitStrokes outline moduleName else nodeStrokes outline parent s

/-- The strokes for a child stand among those for the node around it. -/
theorem IsTree.infix_of_isChild (tree : outline.IsTree) {i p : Nat} (h : outline.IsChild i p)
    (moduleName : Option String) (parent : String) :
    ∃ name, nodeStrokes outline name i <:+: outline.functionStrokes moduleName parent p := by
  have hMem : i ∈ outline.typesOf p ++ outline.elementsOf p := by
    rw [tree.typesOf_eq, tree.elementsOf_eq]
    exact tree.mem_children_iff.mpr h
  obtain ⟨earlier, later, hSiblings⟩ := List.append_of_mem hMem
  unfold functionStrokes
  split
  · next hRoot =>
    subst hRoot
    refine ⟨"root", List.IsInfix.trans ?_ (infix_unitBlock moduleName _ _)⟩
    rw [hSiblings, List.flatMap_append, List.flatMap_cons, List.append_assoc]
    exact List.infix_append' _ _ _
  · refine ⟨"elem", List.IsInfix.trans ?_ (nodeStrokes_eq outline parent p ▸ infix_nodeBlock ..)⟩
    rw [hSiblings, List.flatMap_append, List.flatMap_cons]
    exact List.infix_append' _ _ _

/-- The strokes for all that is inside a node stand among those for the node. -/
theorem IsTree.infix_of_inside (tree : outline.IsTree) {i s : Nat} (h : outline.Inside i s)
    (moduleName : Option String) (parent : String) :
    ∃ name, nodeStrokes outline name i <:+: outline.functionStrokes moduleName parent s := by
  induction h using Relation.TransGen.head_induction_on with
  | single hChild => exact tree.infix_of_isChild hChild moduleName parent
  | @head i q hChild hMore ih =>
    obtain ⟨around, hAround⟩ := ih
    obtain ⟨name, hHere⟩ := tree.infix_of_isChild hChild moduleName around
    have hInner : q ≠ 0 := Nat.ne_zero_of_lt (tree.lt_of_inside hMore)
    rw [functionStrokes, if_neg hInner] at hHere
    exact ⟨name, hHere.trans hAround⟩

/-- A scope other than the root is a definition. -/
theorem IsTree.isDefinition_of_scope (tree : outline.IsTree) {s : Nat} (hPos : 0 < s)
    (hPlace : s < outline.nodes.size) (hScope : (outline.node s).role ≠ .element) :
    (outline.node s).role.isDefinition = true := by
  obtain ⟨p, hChild⟩ := tree.exists_parent s hPos hPlace
  rw [← Bool.not_eq_false, isDefinition_eq_false_iff (tree.not_root hChild)]
  exact hScope

/-- The function for a scope declares the ids of the scope and assigns those of its
elements. -/
theorem IsTree.isFunction_functionStrokes (tree : outline.IsTree) {s : Nat}
    (hPlace : s < outline.nodes.size) (hScope : (outline.node s).role ≠ .element)
    {types elements : Forest} (hTypes : outline.Depicts (outline.node s).types types)
    (hElements : outline.Depicts (outline.node s).elements elements)
    (moduleName : Option String) (parent : String) :
    Stroke.IsFunction (outline.functionStrokes moduleName parent s) (outline.scopeIds s)
      elements.ids := by
  rcases Nat.eq_zero_or_pos s with rfl | hPos
  · have hNodes := tree.assigns_children hTypes hElements "root" [""]
    exact isFunction_unitBlock moduleName (outline.scopeIds 0) hNodes
  · have hDefinition := tree.isDefinition_of_scope hPos hPlace hScope
    have hInside := tree.assigns_children hTypes hElements "elem" []
    simp only [List.map_nil, List.append_nil] at hInside
    rw [functionStrokes, if_neg (Nat.ne_of_gt hPos), nodeStrokes_eq,
      nodeIds_of_isDefinition hDefinition]
    exact isFunction_nodeBlock hDefinition (outline.scopeIds s) parent hInside

/-- The function for a scope stands in the unit. -/
theorem IsTree.functionStrokes_infix (tree : outline.IsTree) {s : Nat}
    (hPlace : s < outline.nodes.size) (moduleName : Option String) :
    ∃ parent,
      outline.functionStrokes moduleName parent s <:+: unitStrokes outline moduleName := by
  rcases Nat.eq_zero_or_pos s with rfl | hPos
  · exact ⟨"", List.infix_rfl⟩
  · obtain ⟨parent, hUnit⟩ :=
      tree.infix_of_inside (tree.inside_root hPos hPlace) moduleName ""
    refine ⟨parent, ?_⟩
    rwa [functionStrokes, if_neg (Nat.ne_of_gt hPos)]

/-- The strokes for an element with an id keep its object under the id. -/
theorem assign_mem_nodeStrokes {i : Nat} (hElement : (outline.node i).role = .element)
    {id : String} (hId : (outline.node i).id = some id) (parent : String) :
    .assign id ∈ nodeStrokes outline parent i := by
  rw [nodeStrokes_eq, nodeBlock_eq]
  simp [nodeHead, nodeKeeping, hElement, hId]

/-- The id of an element is among the ids of its places. -/
theorem mem_idsAt {places : List Nat} {i : Nat} (hPlace : i ∈ places) {id : String}
    (hId : (outline.node i).id = some id) : id ∈ outline.idsAt places :=
  List.mem_flatMap.mpr ⟨i, hPlace, by simp [hId]⟩

end Outline

/-- **Every id is declared where it is assigned.** The ids of a scope, the root or a
definition, are those of its elements in pre-order, each at its first occurrence.
The function for the scope stands in the unit and declares these ids in one line; it
holds the strokes for the elements of the scope, and the ids assigned in it are theirs:
an element with an id is assigned to it there, and the id is one of those declared.
Every element has such a scope. -/
theorem Outline.scopeIds_declared {ts : List Token} {outline : Outline}
    (h : Outline.build ts = .ok outline) :
    (∀ s < outline.nodes.size, (outline.node s).role ≠ .element →
      (outline.scopeIds s).Nodup ∧
        ∃ places, outline.ElementsOfScope s places ∧
          outline.scopeIds s = (outline.idsAt places).eraseDups ∧
          ∀ moduleName, ∃ parent,
            outline.functionStrokes moduleName parent s <:+: unitStrokes outline moduleName ∧
            Stroke.IsFunction (outline.functionStrokes moduleName parent s) (outline.scopeIds s)
              (outline.idsAt places) ∧
            ∀ i ∈ places, ∃ name,
              nodeStrokes outline name i <:+: outline.functionStrokes moduleName parent s ∧
              ∀ id, (outline.node i).id = some id →
                .assign id ∈ nodeStrokes outline name i ∧ id ∈ outline.scopeIds s) ∧
      ∀ i < outline.nodes.size, (outline.node i).role = .element →
        ∃ s < outline.nodes.size, outline.HasScope i s := by
  obtain ⟨contents, -, rfl⟩ := derives_of_build h
  have tree := contents.isTree
  constructor
  · intro s hPlace hScope
    obtain ⟨types, elements, hTypes, hElements⟩ := tree.exists_depicts_children s
    obtain ⟨places, hVisits, hIds⟩ := hElements.exists_visits_elements
    have hPlaces := tree.elementsOfScope_of_visits hScope hVisits
    have hScopeIds := scopeIds_of_visits tree hVisits
    refine ⟨nodup_gatherIds _ [] _ List.nodup_nil, places, hPlaces, hScopeIds,
      fun moduleName => ?_⟩
    obtain ⟨parent, hUnit⟩ := tree.functionStrokes_infix hPlace moduleName
    refine ⟨parent, hUnit, ?_, fun i hMem => ?_⟩
    · rw [hIds]
      exact tree.isFunction_functionStrokes hPlace hScope hTypes hElements moduleName parent
    · obtain ⟨hElement, hIn⟩ := (hPlaces.mem_iff i).mp hMem
      obtain ⟨name, hInfix⟩ := tree.infix_of_inside hIn.inside moduleName parent
      refine ⟨name, hInfix, fun id hId => ⟨assign_mem_nodeStrokes hElement hId name, ?_⟩⟩
      rw [hScopeIds, List.mem_eraseDups]
      exact mem_idsAt hMem hId
  · intro i hPlace hElement
    refine tree.exists_hasScope (Nat.pos_of_ne_zero ?_) hPlace
    rintro rfl
    rw [tree.root_role] at hElement
    exact absurd hElement (by simp)

/-- The factory of the first definition in the document of `nestedTokens`: two labels with
one id, the first of which holds a definition with an element of its own. -/
def nestedFactory : List Stroke :=
  [.opening .scope "var Row = function (id, parent) \x7b",
    .declare ["first"],
    .line "var elem = new Item(id, parent);",
    .opening .closure "elem.addChild((function (parent) \x7b",
    .line "var elem = new Label(\"first\", parent);",
    .assign "first",
    .opening .scope "var Cell = function (id, parent) \x7b",
    .declare ["inner"],
    .line "var elem = new Row(id, parent);",
    .opening .closure "elem.addChild((function (parent) \x7b",
    .line "var elem = new Icon(\"inner\", parent);",
    .assign "inner",
    .line "return elem;",
    .closing "\x7d(elem)));",
    .line "return elem;",
    .closing "\x7d;",
    .line "return elem;",
    .closing "\x7d(elem)));",
    .opening .closure "elem.addChild((function (parent) \x7b",
    .line "var elem = new Label(\"first\", parent);",
    .assign "first",
    .line "return elem;",
    .closing "\x7d(elem)));",
    .line "return elem;",
    .closing "\x7d;"]

/-- The factory of a definition: its strokes, with the declaration and the assignments as
they are written. -/
theorem scopeIds_declared_nested :
    ∃ outline, Outline.build nestedTokens = .ok outline ∧ outline.scopeIds 1 = ["first"] ∧
      ∃ places, outline.ElementsOfScope 1 places ∧
        ["first"] = (outline.idsAt places).eraseDups ∧
        nestedFactory <:+: unitStrokes outline none ∧
        Stroke.IsFunction nestedFactory ["first"] (outline.idsAt places) ∧
        (Stroke.declare ["first"]).text = "var first;" ∧
        (Stroke.assign "first").text = "first = elem;" := by
  have hIds : nestedOutline.scopeIds 1 = ["first"] := by decide +kernel
  have hRole : (nestedOutline.node 1).role = .definition "Item" := by decide +kernel
  obtain ⟨-, places, hPlaces, hScope, hFunctions⟩ :=
    (Outline.scopeIds_declared build_nested).1 1 (by decide +kernel) (by simp [hRole])
  obtain ⟨parent, hUnit, hFunction, -⟩ := hFunctions none
  -- a factory does not depend on the object around it
  have hStrokes : nestedOutline.functionStrokes none parent 1 = nestedFactory := by
    have hRoot : nodeStrokes nestedOutline "root" 1 = nestedFactory := by decide +kernel
    rw [← hRoot, Outline.functionStrokes, if_neg (by decide), nodeStrokes_eq, nodeStrokes_eq]
    simp [nodeBlock, nodeOpening, nodeClosing, hRole]
  rw [hIds] at hFunction hScope
  rw [hStrokes] at hUnit hFunction
  exact ⟨_, build_nested, hIds, places, hPlaces, hScope, hUnit, hFunction, rfl, rfl⟩

end BindingMarkup
