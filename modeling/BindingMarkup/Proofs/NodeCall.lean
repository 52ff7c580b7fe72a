import BindingMarkup.Proofs.Activation
import BindingMarkup.Proofs.Scoping

/-!
# BindingMarkup — calls of the functions for nodes

The strokes for a node are one function. When it is called, it declares the
ids of its scope if it has one, constructs its object, keeps it under the
id of the node, attaches the entries and the children, and returns the
object. Here it is run on the machine of `Activation`.

What the machine reads off the lines of a node is said once for each kind
of line, and from that follow the variables of the function
(`isSome_vars_start_node`). The names that a document brings in have to be
words for this (`Node.Named`). A definition inside only sets a variable, and
an element inside runs where it stands, so a run over the nodes inside is an
induction over their forest (`Depicts.runs`).

* `IsTree.call_node` — in a call of the function for a node, `elem` denotes
  the object of the innermost function whenever it is needed; if the node
  is a definition, the call leaves all variables around it alone.
-/

namespace BindingMarkup

open Text Script

-- ---------------------------------------------------------------------------
-- The lines of a node
-- ---------------------------------------------------------------------------

/-- The names that a node brings into the script are words, and its type is not named
like the object under construction. -/
structure Node.Named (node : Node) : Prop where
  typeName : ' ' ∉ node.typeName.toList
  ne_elem : node.typeName ≠ "elem"
  id : ∀ id ∈ node.id, ' ' ∉ id.toList

namespace Script

variable {m : Machine} {node : Node} {parent : String}

/-- A variable with its value, as a line of the script. -/
theorem initialization?_var {name : String} (h : ' ' ∉ name.toList) (value : List Char) :
    initialization? ("var ".toList ++ name.toList ++ (" = ".toList ++ value)) =
      some (name, value) := by
  have hName : ∀ c ∈ name.toList, (c != ' ') = true := by
    intro c hc
    exact bne_iff_ne.mpr fun hBlank => h (hBlank ▸ hc)
  show some (String.ofList ((name.toList ++ ' ' :: '=' :: ' ' :: value).takeWhile (· != ' ')),
    ((name.toList ++ ' ' :: '=' :: ' ' :: value).dropWhile (· != ' ')).drop 3) = _
  rw [List.takeWhile_append_of_pos hName, List.dropWhile_append_of_pos hName]
  simp

theorem initialization?_elem (rest : List Char) :
    initialization? ("elem.".toList ++ rest) = none := rfl

/-- The construction of a node initializes `elem`. -/
theorem initialization?_nodeConstruction (node : Node) :
    ∃ value, initialization? (nodeConstruction node).toList =
      some ("elem", "new ".toList ++ value) := by
  have hRead : ∀ value, initialization? ("var elem = new ".toList ++ value) =
      some ("elem", "new ".toList ++ value) := fun _ => rfl
  unfold nodeConstruction
  split
  · rw [String.toList_append, String.toList_append, List.append_assoc]
    exact ⟨_, hRead _⟩
  · simp only [String.toList_append, List.append_assoc]
    exact ⟨_, hRead _⟩

/-- A definition keeps its object under its id in a variable of its own. -/
theorem initialization?_keeping {id : String} (h : ' ' ∉ id.toList) :
    initialization? ("var " ++ id ++ " = elem;").toList = some (id, "elem;".toList) := by
  rw [String.toList_append, String.toList_append]
  exact initialization?_var h "elem;".toList

/-- The function of a definition is the value of a variable with its name. -/
theorem initialization?_opening_definition {base : String} (hRole : node.role = .definition base)
    (hNamed : node.Named) (parent : String) :
    initialization? (nodeOpening node parent).toList =
      some (node.typeName, "function (id, parent) \x7b".toList) := by
  simp only [nodeOpening, hRole, String.toList_append]
  exact initialization?_var hNamed.typeName "function (id, parent) \x7b".toList

/-- A call that attaches something begins with `elem.`. -/
theorem exists_attachCall (method name params body : String) :
    ∃ rest, (attachCall method name params body).toList = "elem.".toList ++ rest := by
  unfold attachCall
  rw [String.toList_append, String.toList_append, String.toList_append, String.toList_append,
    String.toList_append, String.toList_append, String.toList_append, String.toList_append]
  simp only [List.append_assoc]
  exact ⟨_, rfl⟩

/-- All that is attached is attached to `elem`. -/
theorem exists_of_mem_entryStatements {text : String} (h : text ∈ entryStatements node) :
    ∃ rest, text.toList = "elem.".toList ++ rest := by
  rcases List.mem_append.mp h with hProperty | hDelegate
  · obtain ⟨p, -, rfl⟩ := List.mem_map.mp hProperty
    unfold propertyStatement
    split <;> exact exists_attachCall ..
  · obtain ⟨d, -, rfl⟩ := List.mem_map.mp hDelegate
    exact exists_attachCall ..

/-- What stands before the parentheses does not matter. -/
theorem parameters_parent (front : List Char) :
    parameters (front ++ "(parent) \x7b".toList) = ["parent"] := by
  unfold parameters
  rw [List.reverse_append]
  rfl

theorem parameters_id_parent (front : List Char) :
    parameters (front ++ "(id, parent) \x7b".toList) = ["id", "parent"] := by
  unfold parameters
  rw [List.reverse_append]
  rfl

/-- The variables that are the arguments of the function for a node. -/
def nodeParameters (node : Node) : List String :=
  match node.role with
  | .definition _ => ["id", "parent"]
  | _ => ["parent"]

/-- The parameters of the function for a node. -/
theorem parameters_nodeOpening (node : Node) (parent : String) :
    parameters (nodeOpening node parent).toList = nodeParameters node := by
  cases hRole : node.role with
  | definition base =>
    have hParts : " = function (id, parent) \x7b".toList =
        " = function ".toList ++ "(id, parent) \x7b".toList := rfl
    simp only [nodeOpening, nodeParameters, hRole, String.toList_append]
    rw [hParts, ← List.append_assoc]
    exact parameters_id_parent _
  | _ =>
    have hParts : ".addChild((function (parent) \x7b".toList =
        ".addChild((function ".toList ++ "(parent) \x7b".toList := rfl
    simp only [nodeOpening, nodeParameters, hRole, String.toList_append]
    rw [hParts, ← List.append_assoc]
    exact parameters_parent _

-- ---------------------------------------------------------------------------
-- The variables of the function for a node
-- ---------------------------------------------------------------------------

/-- The variable for the id of a definition, which is one of its own function. -/
def ownNames (node : Node) : List String :=
  if node.role.isDefinition then node.id.toList else []

/-- The head of a function declares the ids, `elem` and, for a definition, its own id. -/
theorem names_nodeHead (hNamed : node.Named) (ids : List String) :
    (nodeHead node ids).flatMap Stroke.names = ids ++ "elem" :: ownNames node := by
  have hIds : (declaration ids).flatMap Stroke.names = ids := by
    cases ids with
    | nil => rfl
    | cons id ids => exact List.append_nil _
  have hElem : (Stroke.line (nodeConstruction node)).names = ["elem"] := by
    obtain ⟨value, hValue⟩ := initialization?_nodeConstruction node
    exact Stroke.names_line hValue
  have hOwn : (node.id.toList.map (nodeKeeping node)).flatMap Stroke.names = ownNames node := by
    cases hId : node.id with
    | none => simp [ownNames, hId]
    | some id =>
      cases hRole : node.role with
      | definition base =>
        have hKeeping := Stroke.names_line (initialization?_keeping (hNamed.id id hId))
        simp only [ownNames, nodeKeeping, hId, hRole, Role.isDefinition, Option.toList_some,
          List.map_cons, List.map_nil, List.flatMap_singleton, if_true]
        exact hKeeping
      -- an element assigns a variable that is declared further out
      | _ => simp [ownNames, nodeKeeping, hRole, Role.isDefinition, Stroke.names]
  rw [nodeHead, List.flatMap_append, List.flatMap_cons, hIds, hElem, hOwn]
  rfl

/-- What stands between the first and the last line of the function for a node. -/
def nodeBody (outline : Outline) (i : Nat) : List Stroke :=
  nodeHead (outline.node i) (nodeIds outline i) ++ (entryStatements (outline.node i)).map .line ++
    (outline.typesOf i ++ outline.elementsOf i).flatMap (nodeStrokes outline "elem") ++
    [.line "return elem;"]

/-- A node is a function: an opening, its body and a closing. -/
theorem nodeStrokes_eq_function (outline : Outline) (parent : String) (i : Nat) :
    nodeStrokes outline parent i =
      .opening (nodeFrame (outline.node i)) (nodeOpening (outline.node i) parent) ::
        nodeBody outline i ++ [.closing (nodeClosing (outline.node i) parent)] := by
  rw [nodeStrokes_eq, nodeBlock_eq]
  rfl

variable {outline : Outline}

/-- The body of a function closes all that it opens. -/
theorem closed_nodeBody (tree : outline.IsTree) (i : Nat) : Closed (nodeBody outline i) := by
  obtain ⟨types, elements, hTypes, hElements⟩ := tree.exists_depicts_children i
  have hChildren : Closed
      ((outline.typesOf i ++ outline.elementsOf i).flatMap (nodeStrokes outline "elem")) := by
    intro level
    have hDraws := (hTypes.draws tree level "elem" []).append (hElements.draws tree level "elem" [])
    simp only [List.map_nil, List.append_nil, ← List.flatMap_append] at hDraws
    rw [tree.typesOf_eq, tree.elementsOf_eq]
    exact hDraws.counter
  exact (((closed_of_plain (isPlain_nodeHead _ _)).append (closed_map_line _)).append
    hChildren).append (closed_map_line ["return elem;"])

/-- Elements are added to the root object or to the object under construction. -/
def IsParent (parent : String) : Prop :=
  parent = "root" ∨ parent = "elem"

theorem nodeOpening_of_element (hElement : node.role.isDefinition = false) (parent : String) :
    nodeOpening node parent = parent ++ ".addChild((function (parent) \x7b" := by
  cases hRole : node.role <;> simp_all [Role.isDefinition, nodeOpening]

/-- The function of an element has no name. -/
theorem initialization?_opening_element (hElement : node.role.isDefinition = false)
    (hParent : IsParent parent) : initialization? (nodeOpening node parent).toList = none := by
  rw [nodeOpening_of_element hElement]
  rcases hParent with rfl | rfl <;> rfl

/-- A definition is a variable of the function around it. -/
theorem names_opening (hNamed : node.Named) (hParent : IsParent parent) (frame : Frame) :
    (Stroke.opening frame (nodeOpening node parent)).names =
      if node.role.isDefinition then [node.typeName] else [] := by
  cases hRole : node.role with
  | definition base =>
    simp [Stroke.names, initialization?_opening_definition hRole hNamed, Role.isDefinition]
  | _ =>
    have hElement : node.role.isDefinition = false := by rw [hRole]; rfl
    simp [Stroke.names, initialization?_opening_element hElement hParent, Role.isDefinition]

/-- A node closes all that it opens. -/
theorem closed_nodeStrokes (tree : outline.IsTree) (i : Nat) (parent : String) :
    Closed (nodeStrokes outline parent i) := by
  intro level
  have hBody := closed_nodeBody tree i (level + 1)
  rw [nodeStrokes_eq_function, Stroke.counter?]
  simp only [Stroke.counter?, List.cons_append, List.foldlM_cons, List.foldlM_append] at hBody ⊢
  simp [Stroke.step?, Stroke.levelAfter, hBody]

/-- Of the nodes side by side the definitions are variables of the function around. -/
theorem hoisted_places (tree : outline.IsTree) (hNamed : ∀ i, (outline.node i).Named)
    {definitions : Bool} {places : List Nat}
    (hPlaces : ∀ i ∈ places, (outline.node i).role.isDefinition = definitions)
    (hParent : IsParent parent) {behind : List String}
    (hBehind : ∀ text ∈ behind, initialization? text.toList = none) :
    hoisted 0 (places.flatMap fun i => nodeStrokes outline parent i ++ behind.map .line) =
      if definitions then places.map fun i => (outline.node i).typeName else [] := by
  induction places with
  | nil => cases definitions <;> rfl
  | cons i places ih =>
    obtain ⟨hHere, hMore⟩ := List.forall_mem_cons.mp hPlaces
    have hNode : hoisted 0 (nodeStrokes outline parent i) =
        if definitions then [(outline.node i).typeName] else [] := by
      rw [nodeStrokes_eq_function, hoisted_function _ _ _ (closed_nodeBody tree i),
        names_opening (hNamed i) hParent, hHere]
    rw [List.flatMap_cons, List.append_assoc, hoisted_append (closed_nodeStrokes tree i parent 0),
      hoisted_append (closed_map_line behind 0), hoisted_map_line hBehind, hNode, ih hMore]
    cases definitions <;> rfl

/-- Attaching entries initializes no variable. -/
theorem initialization?_of_mem_entryStatements {text : String} (h : text ∈ entryStatements node) :
    initialization? text.toList = none := by
  obtain ⟨rest, hText⟩ := exists_of_mem_entryStatements h
  rw [hText]
  exact initialization?_elem rest

/-- What the function for a node declares. What is declared in the functions inside it does
not count. -/
theorem hoisted_nodeBody (tree : outline.IsTree) (hNamed : ∀ i, (outline.node i).Named) (i : Nat) :
    hoisted 0 (nodeBody outline i) =
      nodeIds outline i ++ "elem" :: ownNames (outline.node i) ++
        (outline.node i).types.map fun child => (outline.node child).typeName := by
  have hTypes : hoisted 0 ((outline.node i).types.flatMap (nodeStrokes outline "elem")) =
      (outline.node i).types.map fun child => (outline.node child).typeName := by
    have hNames := hoisted_places tree hNamed (tree.isDefinition_of_mem true i) (.inr rfl)
      (List.forall_mem_nil _)
    simpa [Node.childList] using hNames
  -- the functions of elements have no names
  have hElements : hoisted 0 ((outline.node i).elements.flatMap (nodeStrokes outline "elem")) =
      [] := by
    have hNames := hoisted_places tree hNamed (tree.isDefinition_of_mem false i) (.inr rfl)
      (List.forall_mem_nil _)
    simpa [Node.childList] using hNames
  have hPlain := isPlain_nodeHead (outline.node i) (nodeIds outline i)
  have hClosed : ∀ places : List Nat, Closed (places.flatMap (nodeStrokes outline "elem")) :=
    fun places => .flatMap fun child _ => closed_nodeStrokes tree child "elem"
  have hReturn : hoisted 0 [.line "return elem;"] = [] := rfl
  rw [nodeBody, tree.typesOf_eq, tree.elementsOf_eq, List.flatMap_append]
  simp only [List.append_assoc]
  rw [hoisted_append (closed_of_plain hPlain 0), hoisted_of_plain hPlain, names_nodeHead (hNamed i),
    hoisted_append (closed_map_line _ 0),
    hoisted_map_line fun _ h => initialization?_of_mem_entryStatements h,
    hoisted_append (hClosed _ 0), hoisted_append (hClosed _ 0), hReturn, hTypes, hElements]
  simp

/-- The variables that the function for a node starts with. -/
theorem isSome_vars_start_node (tree : outline.IsTree) (hNamed : ∀ i, (outline.node i).Named)
    (i : Nat) (parent x : String) :
    ((Activation.start (nodeOpening (outline.node i) parent) (nodeBody outline i)).vars x).isSome =
        true ↔
      x ∈ nodeParameters (outline.node i) ∨ x ∈ nodeIds outline i ∨ x = "elem" ∨
        x ∈ ownNames (outline.node i) ∨
        ∃ child ∈ (outline.node i).types, (outline.node child).typeName = x := by
  rw [Activation.isSome_vars_start, parameters_nodeOpening, hoisted_nodeBody tree hNamed]
  simp

-- ---------------------------------------------------------------------------
-- Runs
-- ---------------------------------------------------------------------------

variable {x : String} {strict : Prop} {i : Nat} {ids : List String}

/-- The object of a node is kept under its id. -/
theorem arrives_keeping (hNamed : node.Named) (hSkip : m.skipping = 0) (hOwns : OwnsElem m.frames)
    (hBound : strict → ∀ id ∈ node.id.toList, (lookup m.frames id).isSome = true) :
    Arrives x strict node.id.toList m (node.id.toList.map (nodeKeeping node)) := by
  cases hId : node.id with
  | none => exact ⟨m, .refl strict m, hSkip, .refl x m.frames⟩
  | some id =>
    obtain ⟨n, hElem, hKeep⟩ := hOwns.exists_keep
    -- both ways to keep the object write it to the name of the id
    have hStep : ∀ rest, m.perform rest (nodeKeeping node id) = m.keep id := by
      intro rest
      unfold nodeKeeping
      split
      · have hValue := initialization?_keeping (hNamed.id id hId)
        rw [Machine.perform, hValue]
        rfl
      · rfl
    have hAssigned : strict → ∀ name, nodeKeeping node id = .assign name →
        (lookup m.frames name).isSome = true := by
      intro hStrict name hName
      have hSame : name = id := by
        unfold nodeKeeping at hName
        split at hName
        · exact absurd hName (by simp)
        · exact (Stroke.assign.inj hName).symm
      rw [hSame]
      exact hBound hStrict id (by rw [hId]; exact List.mem_cons_self)
    refine ⟨m.write id (.object n), .one hSkip ⟨fun _ => hOwns, hAssigned⟩ fun rest => ?_, hSkip,
      .of_write x fun _ => hElem⟩
    rw [hStep, hKeep]

/-- The function for a node constructs its object, and what is inside it follows. -/
theorem exists_passes_nodeBody (hNamed : (outline.node i).Named) {a : Activation}
    {outer : List Activation} (hFrames : m.frames = a :: outer) (hSkip : m.skipping = 0)
    (hElem : (a.vars "elem").isSome = true)
    (hBound : strict → ∀ id ∈ (outline.node i).id.toList,
      (lookup (a.constructed m.count :: outer) id).isSome = true)
    (hInside : ∀ m', m'.skipping = 0 → m'.frames.map Activation.fixed =
        (a.constructed m.count :: outer).map Activation.fixed →
      Arrives x strict ids m'
        ((outline.typesOf i ++ outline.elementsOf i).flatMap (nodeStrokes outline "elem"))) :
    ∃ m', Passes strict m (nodeBody outline i) m' ∧ m'.skipping = 0 ∧
      Settles x ((outline.node i).id.toList ++ ids) (a.constructed m.count :: outer) m'.frames := by
  have hConstruction : Passes strict m [.line (nodeConstruction (outline.node i))]
      ⟨a.constructed m.count :: outer, m.count + 1, 0⟩ := by
    obtain ⟨value, hValue⟩ := initialization?_nodeConstruction (outline.node i)
    refine .one hSkip ⟨fun h => ?_, fun _ _ h => absurd h (by simp)⟩ fun rest => ?_
    · rw [Stroke.usesElem_line hValue] at h
      exact absurd h Bool.false_ne_true
    · rw [Machine.perform, hValue]
      show m.construct "elem" = _
      rw [Machine.construct_eq hFrames hElem, hSkip]
  have hOwns := ownsElem_constructed a m.count outer
  -- behind the construction only the fixed parts of the functions are known from part to part,
  -- and `elem` is one of them
  have hRest : Arrives x strict ((outline.node i).id.toList ++ ([] ++ (ids ++ [])))
      ⟨a.constructed m.count :: outer, m.count + 1, 0⟩
      ((outline.node i).id.toList.map (nodeKeeping (outline.node i)) ++
        ((entryStatements (outline.node i)).map .line ++
          ((outline.typesOf i ++ outline.elementsOf i).flatMap (nodeStrokes outline "elem") ++
            ["return elem;"].map .line))) := by
    refine (arrives_keeping hNamed rfl hOwns hBound).append fun m₁ hSkip₁ hFixed₁ => ?_
    refine Arrives.append (.lines hSkip₁ ?_ ?_) fun m₂ hSkip₂ hFixed₂ => ?_
    · exact fun text h => initialization?_of_mem_entryStatements h
    · exact fun _ _ _ => hOwns.of_fixed hFixed₁
    refine (hInside m₂ hSkip₂ (hFixed₂.trans hFixed₁)).append fun m₃ hSkip₃ hFixed₃ => ?_
    refine .lines hSkip₃ (by simp [initialization?]) fun _ _ _ => ?_
    exact hOwns.of_fixed (hFixed₃.trans (hFixed₂.trans hFixed₁))
  obtain ⟨m', hPasses, hDone, hSettles⟩ := hRest
  rw [List.nil_append, List.append_nil] at hSettles
  refine ⟨m', ?_, hDone, hSettles⟩
  have hAll := ((Passes.declaration hSkip (nodeIds outline i)).append hConstruction).append hPasses
  rw [nodeBody, nodeHead]
  simpa only [List.append_assoc, List.cons_append, List.nil_append, List.map_cons, List.map_nil]
    using hAll

end Script

namespace Outline

variable {outline : Outline} {x : String} {strict : Prop} {m : Machine}

/-- The nodes side by side, all definitions or all elements, can be run over in a function
that is ready for them: it has variables for the definitions, and there are variables for
the ids of the elements. -/
def Runs (outline : Outline) (x : String) (strict : Prop) (definitions : Bool)
    (places : List Nat) (forest : Forest) : Prop :=
  ∀ (parent : String) (behind : List String) (m : Machine), IsParent parent →
    (∀ text ∈ behind, text = "") → m.skipping = 0 → (parent = "elem" → OwnsElem m.frames) →
    (definitions = true → ∀ i ∈ places,
      ∃ a ∈ m.frames.take 1, (a.vars (outline.node i).typeName).isSome = true) →
    (strict → definitions = false → ∀ id ∈ forest.ids, (lookup m.frames id).isSome = true) →
    Arrives x strict (if definitions then [] else forest.ids) m
      (places.flatMap fun i => nodeStrokes outline parent i ++ behind.map .line)

/-- The function for a node when it is called. -/
def startOf (outline : Outline) (parent : String) (i : Nat) : Activation :=
  .start (nodeOpening (outline.node i) parent) (nodeBody outline i)

/-- A run over the body of a function, from runs over the definitions and the elements
inside: the object is constructed and kept, and the ids of the elements are settled. -/
theorem IsTree.exists_passes_nodeBody (tree : outline.IsTree)
    (hNamed : ∀ i, (outline.node i).Named) {i : Nat} {types elements : Forest}
    (hTypes : outline.Runs x strict true (outline.node i).types types)
    (hElements : outline.Runs x strict false (outline.node i).elements elements)
    {parent : String} {outer : List Activation}
    (hFrames : m.frames = outline.startOf parent i :: outer) (hSkip : m.skipping = 0)
    (hBound : strict → ∀ id ∈ (outline.node i).id.toList ++ elements.ids,
      (lookup m.frames id).isSome = true) :
    ∃ m', Passes strict m (nodeBody outline i) m' ∧ m'.skipping = 0 ∧
      Settles x ((outline.node i).id.toList ++ elements.ids)
        ((outline.startOf parent i).constructed m.count :: outer) m'.frames := by
  have hVars := isSome_vars_start_node tree hNamed i parent
  have hElem : ((outline.startOf parent i).vars "elem").isSome = true :=
    (hVars "elem").mpr (.inr (.inr (.inl rfl)))
  have hOwns := ownsElem_constructed (outline.startOf parent i) m.count outer
  -- the definitions inside are variables of this very function
  have hTypeVars : ∀ child ∈ (outline.node i).types,
      ∃ a ∈ ((outline.startOf parent i).constructed m.count :: outer).take 1,
        (a.vars (outline.node child).typeName).isSome = true := by
    intro child hChild
    refine ⟨_, List.mem_cons_self, ?_⟩
    rw [Activation.isSome_vars_constructed hElem]
    exact (hVars _).mpr (.inr (.inr (.inr (.inr ⟨child, hChild, rfl⟩))))
  have hIdVars : strict → ∀ id ∈ (outline.node i).id.toList ++ elements.ids,
      (lookup ((outline.startOf parent i).constructed m.count :: outer) id).isSome = true := by
    intro hStrict id hId
    rw [isSome_lookup_constructed hElem, ← hFrames]
    exact hBound hStrict id hId
  refine Script.exists_passes_nodeBody (hNamed i) hFrames hSkip hElem
    (fun hStrict id hId => hIdVars hStrict id (List.mem_append_left _ hId)) ?_
  intro m₁ hSkip₁ hFixed₁
  -- the definitions come first and assign no id, so that the elements find all as it was
  have hFirst := hTypes "elem" [] m₁ (.inr rfl) (List.forall_mem_nil _) hSkip₁
    (fun _ => hOwns.of_fixed hFixed₁)
    (fun _ child hChild => (exists_bound_iff hFixed₁ 1).mpr (hTypeVars child hChild))
    (fun _ h => absurd h (by simp))
  have hBoth := hFirst.append fun m₂ hSkip₂ hFixed₂ =>
    hElements "elem" [] m₂ (.inr rfl) (List.forall_mem_nil _) hSkip₂
      (fun _ => hOwns.of_fixed (hFixed₂.trans hFixed₁)) (fun h => absurd h (by simp))
      (fun hStrict _ id hId => (isSome_lookup_congr (hFixed₂.trans hFixed₁)).mpr
        (hIdVars hStrict id (List.mem_append_right _ hId)))
  rw [tree.typesOf_eq, tree.elementsOf_eq, List.flatMap_append]
  simpa using hBoth

/-- A definition sets a variable of the function around it. -/
theorem IsTree.arrives_definition (tree : outline.IsTree) (hNamed : ∀ i, (outline.node i).Named)
    {i : Nat} (hDefinition : (outline.node i).role.isDefinition = true)
    (hOther : x ≠ (outline.node i).typeName) (hSkip : m.skipping = 0)
    (hBound : ∃ a ∈ m.frames.take 1, (a.vars (outline.node i).typeName).isSome = true)
    (parent : String) : Arrives x strict [] m (nodeStrokes outline parent i) := by
  obtain ⟨base, hRole⟩ : ∃ base, (outline.node i).role = .definition base := by
    cases hRole : (outline.node i).role <;> simp_all [Role.isDefinition]
  have hName := initialization?_opening_definition hRole (hNamed i) parent
  have hSound : Sound strict m (.opening (nodeFrame (outline.node i))
      (nodeOpening (outline.node i) parent)) := by
    refine ⟨fun hUses => ?_, fun _ _ hAssign => absurd hAssign (by simp)⟩
    rw [Stroke.usesElem, Stroke.not_isPrefixOf_of_initialization? hName] at hUses
    exact absurd hUses Bool.false_ne_true
  rw [nodeStrokes_eq_function]
  exact ⟨_, .definition hSkip hName hSound (closed_nodeBody tree i) _, hSkip,
    .of_write_head hBound (hNamed i).ne_elem hOther _⟩

/-- A name that is none of those that the function around an element has. -/
structure IsFree (outline : Outline) (x : String) : Prop where
  ne_elem : x ≠ "elem"
  ne_parent : x ≠ "parent"
  ne_typeName : ∀ i, x ≠ (outline.node i).typeName

/-- A name that is free in an outline is no variable of the function for an element. -/
theorem IsTree.vars_startOf (tree : outline.IsTree) (hNamed : ∀ i, (outline.node i).Named) {i : Nat}
    (hElement : (outline.node i).role.isDefinition = false) (hFree : outline.IsFree x)
    (parent : String) : (outline.startOf parent i).vars x = none := by
  refine Option.not_isSome_iff_eq_none.mp fun hSome => ?_
  have hParameters : nodeParameters (outline.node i) = ["parent"] := by
    cases hRole : (outline.node i).role <;> simp_all [Role.isDefinition, nodeParameters]
  rcases (isSome_vars_start_node tree hNamed i parent x).mp hSome with
    hParameter | hId | hElem | hOwn | ⟨child, -, hName⟩
  · rw [hParameters] at hParameter
    exact hFree.ne_parent (List.mem_singleton.mp hParameter)
  · rw [nodeIds_of_not_isDefinition hElement] at hId
    exact absurd hId List.not_mem_nil
  · exact hFree.ne_elem hElem
  · rw [ownNames, hElement] at hOwn
    exact absurd hOwn List.not_mem_nil
  · exact hFree.ne_typeName child hName.symm

/-- The function around an element runs where it stands. -/
theorem IsTree.arrives_element (tree : outline.IsTree) (hNamed : ∀ i, (outline.node i).Named)
    (hFree : outline.IsFree x) {i : Nat} (hElement : (outline.node i).role.isDefinition = false)
    {types elements : Forest} (hTypes : outline.Runs x strict true (outline.node i).types types)
    (hElements : outline.Runs x strict false (outline.node i).elements elements) {parent : String}
    (hParent : IsParent parent) (hSkip : m.skipping = 0)
    (hOwns : parent = "elem" → OwnsElem m.frames)
    (hBound : strict → ∀ id ∈ (outline.node i).id.toList ++ elements.ids,
      (lookup m.frames id).isSome = true) :
    Arrives x strict ((outline.node i).id.toList ++ elements.ids) m
      (nodeStrokes outline parent i) := by
  have hText := nodeOpening_of_element hElement parent
  have hSound : Sound strict m (.opening (nodeFrame (outline.node i))
      (nodeOpening (outline.node i) parent)) := by
    refine ⟨fun hUses => ?_, fun _ _ hAssign => absurd hAssign (by simp)⟩
    rcases hParent with rfl | rfl
    · rw [hText] at hUses
      exact absurd hUses (by simp [Stroke.usesElem])
    · exact hOwns rfl
  -- the function has no variable `x`, so what it does to `x` is done further out
  have hNone : ((outline.startOf parent i).constructed m.count).vars x = none := by
    show ((outline.startOf parent i).set "elem" (.object m.count)).vars x = none
    rw [Activation.vars_set_of_ne _ hFree.ne_elem, tree.vars_startOf hNamed hElement hFree]
  obtain ⟨m', hBody, hDone, hSettles⟩ := tree.exists_passes_nodeBody hNamed hTypes hElements
    (m := { m with frames := outline.startOf parent i :: m.frames }) rfl hSkip
    fun hStrict id hId => isSome_lookup_cons _ (hBound hStrict id hId)
  rw [nodeStrokes_eq_function]
  exact ⟨_, .function hSkip (initialization?_opening_element hElement hParent) hSound
    (closed_nodeBody tree i) hBody hDone _, hDone, hSettles.tail hNone⟩

/-- **Runs over nodes side by side.** Definitions are only defined, and the functions around
elements run where they stand. -/
theorem Depicts.runs (tree : outline.IsTree) (hNamed : ∀ i, (outline.node i).Named)
    (hFree : outline.IsFree x) {places : List Nat} {forest : Forest}
    (h : outline.Depicts places forest) {definitions : Bool}
    (hPlaces : ∀ i ∈ places, (outline.node i).role.isDefinition = definitions) :
    outline.Runs x strict definitions places forest := by
  induction h generalizing definitions with
  | nil =>
    intro parent behind m _ _ hSkip _ _ _
    refine ⟨m, .refl strict m, hSkip, ?_⟩
    cases definitions <;> exact .refl x m.frames
  | @cons i more types elements rest _ _ _ ihTypes ihElements ihRest =>
    intro parent behind m hParent hBehind hSkip hOwns hTypeVars hBound
    obtain ⟨hHere, hMore⟩ := List.forall_mem_cons.mp hPlaces
    -- a definition only initializes its variable; the function of an element is called at once
    have hNode : Arrives x strict
        (if definitions then [] else (outline.node i).id.toList ++ elements.ids) m
        (nodeStrokes outline parent i) := by
      cases definitions with
      | true =>
        exact tree.arrives_definition hNamed hHere (hFree.ne_typeName i) hSkip
          (hTypeVars rfl i List.mem_cons_self) parent
      | false =>
        exact tree.arrives_element hNamed hFree hHere (ihTypes (tree.isDefinition_of_mem true i))
          (ihElements (tree.isDefinition_of_mem false i)) hParent hSkip hOwns
          fun hStrict id hId => hBound hStrict rfl id (List.mem_append_left _ hId)
    -- behind a node of the unit stands an empty line
    have hLines : ∀ m' : Machine, m'.skipping = 0 →
        Arrives x strict [] m' (behind.map .line) := by
      intro m' hSkip'
      refine .lines hSkip' (fun text hText => ?_) fun text hText hUses => ?_
      · rw [hBehind text hText]
        rfl
      · rw [hBehind text hText] at hUses
        exact absurd hUses (by simp [Stroke.usesElem, initialization?])
    have hAll := (hNode.append fun m₁ hSkip₁ _ => hLines m₁ hSkip₁).append fun m₂ hSkip₂ hFixed =>
      ihRest hMore parent behind m₂ hParent hBehind hSkip₂
        (fun hElem => (hOwns hElem).of_fixed hFixed)
        (fun hDefinition j hj => (exists_bound_iff hFixed 1).mpr
          (hTypeVars hDefinition j (List.mem_cons_of_mem i hj)))
        (fun hStrict hElement id hId => (isSome_lookup_congr hFixed).mpr
          (hBound hStrict hElement id (List.mem_append_right _ hId)))
    rw [List.flatMap_cons, Forest.ids]
    cases definitions with
    | true => exact hAll
    | false =>
      simp only [Bool.false_eq_true, if_false, List.append_nil] at hAll ⊢
      exact hAll

-- ---------------------------------------------------------------------------
-- Calls
-- ---------------------------------------------------------------------------

/-- The ids of a definition are variables of its function. -/
theorem IsTree.isSome_vars_startOf (tree : outline.IsTree) (hNamed : ∀ i, (outline.node i).Named)
    {i : Nat} (hDefinition : (outline.node i).role.isDefinition = true) {elements : Forest}
    (hElements : outline.Depicts (outline.node i).elements elements) (parent : String) :
    ∀ id ∈ (outline.node i).id.toList ++ elements.ids,
      ((outline.startOf parent i).vars id).isSome = true := by
  intro id hId
  refine (isSome_vars_start_node tree hNamed i parent id).mpr ?_
  rcases List.mem_append.mp hId with hOwn | hInside
  · refine .inr (.inr (.inr (.inl ?_)))
    rw [ownNames, if_pos hDefinition]
    exact hOwn
  · refine .inr (.inl ?_)
    rw [nodeIds_of_isDefinition hDefinition, hElements.scopeIds_eq tree]
    exact List.mem_eraseDups.mpr hInside

/-- **A call of the function for a node.** Whatever runs around it, `elem` denotes the
object of the innermost function whenever it is needed. The function of a definition finds
the variable for every id and leaves those of the functions around it alone. -/
theorem IsTree.call_node (tree : outline.IsTree) (hNamed : ∀ i, (outline.node i).Named)
    (hFree : outline.IsFree x) (i : Nat) (parent : String) (outer : List Activation) (count : Nat) :
    (∀ entry ∈ callTrace outer count (nodeStrokes outline parent i),
      Sound ((outline.node i).role.isDefinition = true) entry.1 entry.2) ∧
    ((outline.node i).role.isDefinition = true →
      (callResult outer count (nodeStrokes outline parent i)).frames = outer) := by
  obtain ⟨types, elements, hTypes, hElements⟩ := tree.exists_depicts_children i
  have hVars := fun hDefinition => tree.isSome_vars_startOf hNamed hDefinition hElements parent
  have hBound : (outline.node i).role.isDefinition = true →
      ∀ id ∈ (outline.node i).id.toList ++ elements.ids,
        (lookup (outline.startOf parent i :: outer) id).isSome = true :=
    fun hDefinition id hId =>
      isSome_lookup_iff.mpr ⟨_, List.mem_cons_self, hVars hDefinition id hId⟩
  have hElem : ((outline.startOf parent i).vars "elem").isSome = true :=
    (isSome_vars_start_node tree hNamed i parent "elem").mpr (.inr (.inr (.inl rfl)))
  obtain ⟨m', hBody, hDone, hSettles⟩ := tree.exists_passes_nodeBody hNamed
    (hTypes.runs tree hNamed hFree (tree.isDefinition_of_mem true i))
    (hElements.runs tree hNamed hFree (tree.isDefinition_of_mem false i))
    (m := ⟨outline.startOf parent i :: outer, count, 0⟩) rfl rfl hBound
  obtain ⟨hSound, hFrames⟩ := hBody.call (closed_nodeBody tree i) hDone
    (nodeFrame (outline.node i)) (nodeClosing (outline.node i) parent)
  rw [nodeStrokes_eq_function]
  refine ⟨hSound, fun hDefinition => ?_⟩
  rw [hFrames, ← List.drop_one]
  -- all ids that are assigned inside are variables of the function itself
  refine hSettles.outer 0 fun id hId => ⟨_, List.mem_cons_self, ?_⟩
  rw [Activation.isSome_vars_constructed hElem]
  exact hVars hDefinition id hId

end Outline

end BindingMarkup
