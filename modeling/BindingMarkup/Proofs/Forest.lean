import BindingMarkup.Script.Unit
import BindingMarkup.Proofs.Shape
import Mathlib.Data.List.Perm.Basic

/-!
# BindingMarkup — the trees that outlines stand for

An outline names the nodes inside a node by their places. A `Forest` holds
them instead: it is the data type whose recursion a printer by hand would
follow. `Outline.Depicts` reads the forest off a list of places, and
`Outline.Represents` the two forests of a document.

* `IsTree.exists_represents` — every outline of the builder stands for
  forests;
* `Represents.perm` — these hold every node of the outline once, apart
  from the root;
* `Depicts.scopeIds_eq` — the ids of a scope, which the script collects
  with a list of places still to visit, are those of the elements of a
  forest in the order of its recursion, each at its first occurrence.
-/

namespace BindingMarkup

/-- A node without the places of others. -/
def Node.unlinked (node : Node) : Node :=
  { node with parent := none, types := [], elements := [] }

/-- Nodes side by side, each with the definitions and the elements inside it. -/
inductive Forest where
  | nil
  | cons (node : Node) (types elements rest : Forest)
  deriving DecidableEq, Repr

namespace Forest

/-- The nodes in the order in which the printers come to them. -/
def nodes : Forest → List Node
  | nil => []
  | cons node types elements rest => node :: (types.nodes ++ elements.nodes ++ rest.nodes)

/-- The ids of the nodes and of the elements inside them, but not of those inside
a definition. -/
def ids : Forest → List String
  | nil => []
  | cons node _ elements rest => node.id.toList ++ elements.ids ++ rest.ids

end Forest

/-- All that is directly inside a node. -/
def Node.children (node : Node) : List Nat :=
  node.types ++ node.elements

namespace Outline

-- ---------------------------------------------------------------------------
-- What outlines depict
-- ---------------------------------------------------------------------------

/-- The forest of the nodes at some places. -/
inductive Depicts (outline : Outline) : List Nat → Forest → Prop where
  | nil : Depicts outline [] .nil
  | cons {i : Nat} {more : List Nat} {types elements rest : Forest}
      (hTypes : Depicts outline (outline.node i).types types)
      (hElements : Depicts outline (outline.node i).elements elements)
      (hRest : Depicts outline more rest) :
      Depicts outline (i :: more) (.cons (outline.node i).unlinked types elements rest)

/-- The definitions and the elements of a document. -/
structure Represents (outline : Outline) (types elements : Forest) : Prop where
  types : outline.Depicts (outline.node 0).types types
  elements : outline.Depicts (outline.node 0).elements elements

variable {outline : Outline}

/-- The forest of two lists of places falls into the forests of both. -/
theorem Depicts.append_inv {front back : List Nat} {forest : Forest}
    (h : outline.Depicts (front ++ back) forest) :
    ∃ first second, outline.Depicts front first ∧ outline.Depicts back second := by
  induction front generalizing forest with
  | nil => exact ⟨.nil, forest, .nil, h⟩
  | cons i front ih =>
    rw [List.cons_append] at h
    cases h with
    | cons hTypes hElements hRest =>
      obtain ⟨first, second, hFirst, hSecond⟩ := ih hRest
      exact ⟨_, second, .cons hTypes hElements hFirst, hSecond⟩

/-- Two walks behind each other are a walk. -/
theorem Visits.append {follow : Node → List Nat} {front back first second : List Nat}
    (hFirst : outline.Visits follow front first) (hSecond : outline.Visits follow back second) :
    outline.Visits follow (front ++ back) (first ++ second) := by
  induction hFirst with
  | done => exact hSecond
  | visit hInside _ _ ih =>
    rw [List.cons_append, List.cons_append, List.append_assoc]
    exact .visit hInside ih

/-- What a walk to all children comes to can be depicted. -/
theorem Visits.exists_depicts {waiting visited : List Nat}
    (h : outline.Visits Node.children waiting visited) :
    ∃ forest, outline.Depicts waiting forest := by
  induction h with
  | done => exact ⟨.nil, .nil⟩
  | visit _ _ ihInside ihRest =>
    obtain ⟨inside, hInside⟩ := ihInside
    obtain ⟨types, elements, hTypes, hElements⟩ := hInside.append_inv
    obtain ⟨rest, hRest⟩ := ihRest
    exact ⟨_, .cons hTypes hElements hRest⟩

/-- The nodes of a forest are those that a walk to all children calls at. -/
theorem Depicts.exists_visits_children {places : List Nat} {forest : Forest}
    (h : outline.Depicts places forest) :
    ∃ visited, outline.Visits Node.children places visited ∧
      forest.nodes = visited.map fun i => (outline.node i).unlinked := by
  induction h with
  | nil => exact ⟨[], .done, rfl⟩
  | @cons i more types elements rest _ _ _ ihTypes ihElements ihRest =>
    obtain ⟨inTypes, hTypes, hTypeNodes⟩ := ihTypes
    obtain ⟨inElements, hElements, hElementNodes⟩ := ihElements
    obtain ⟨behind, hRest, hRestNodes⟩ := ihRest
    refine ⟨i :: (inTypes ++ inElements ++ behind), .visit (hTypes.append hElements) hRest, ?_⟩
    simp only [Forest.nodes, hTypeNodes, hElementNodes, hRestNodes, List.map_cons,
      List.map_append]

-- ---------------------------------------------------------------------------
-- Every node once
-- ---------------------------------------------------------------------------

theorem goesDown_children : GoesDown Node.children :=
  fun node => List.Sublist.refl node.children

/-- Every list of places has a forest: nodes hang below places that come before their own.
-/
theorem IsTree.exists_depicts (tree : outline.IsTree) {places : List Nat}
    (h : ∀ i ∈ places, i < outline.nodes.size) : ∃ forest, outline.Depicts places forest := by
  obtain ⟨visited, hVisits⟩ := tree.exists_visits goesDown_children h
  exact hVisits.exists_depicts

theorem IsTree.exists_depicts_children (tree : outline.IsTree) (i : Nat) :
    ∃ types elements, outline.Depicts (outline.node i).types types ∧
      outline.Depicts (outline.node i).elements elements := by
  have hPlaces : ∀ child ∈ (outline.node i).children, child < outline.nodes.size :=
    fun child hMem => lt_size_of_isChild (tree.isChild_of_mem hMem)
  obtain ⟨forest, hForest⟩ := tree.exists_depicts hPlaces
  exact hForest.append_inv

/-- Every tree is represented by the forests of its definitions and of its elements. -/
theorem IsTree.exists_represents (tree : outline.IsTree) :
    ∃ types elements, outline.Represents types elements := by
  obtain ⟨types, elements, hTypes, hElements⟩ := tree.exists_depicts_children 0
  exact ⟨types, elements, hTypes, hElements⟩

/-- The places that a node lists are those that name it as their parent. -/
theorem IsTree.mem_children_iff (tree : outline.IsTree) {i p : Nat} :
    i ∈ (outline.node p).children ↔ outline.IsChild i p := by
  refine ⟨tree.isChild_of_mem, fun hChild => ?_⟩
  have hListed := (tree.mem_iff _ i p).mpr ⟨hChild, rfl⟩
  rw [Node.children, List.mem_append]
  cases hRole : (outline.node i).role.isDefinition with
  | true => exact .inl (by rwa [hRole] at hListed)
  | false => exact .inr (by rwa [hRole] at hListed)

/-- What a walk from a node to all children calls at is all that is inside the node. -/
theorem IsTree.mem_iff_inside (tree : outline.IsTree) {i p : Nat} {visited : List Nat}
    (h : outline.Visits Node.children (outline.node p).children visited) :
    i ∈ visited ↔ outline.Inside i p := by
  have hRelation : (fun child j => child ∈ (outline.node j).children) = outline.IsChild := by
    funext child j
    exact propext tree.mem_children_iff
  rw [h.mem_iff, hRelation, Inside, Relation.TransGen.tail'_iff]
  simp only [tree.mem_children_iff, and_comm]

/-- A walk from the root calls at every other place once. -/
theorem IsTree.visits_perm (tree : outline.IsTree) {visited : List Nat}
    (h : outline.Visits Node.children (outline.node 0).children visited) :
    visited.Perm (List.range' 1 outline.size) := by
  have hNodup : visited.Nodup :=
    tree.nodup_of_visits goesDown_children h (tree.pairwise_children 0)
  refine (List.perm_ext_iff_of_nodup hNodup List.nodup_range').mpr fun i => ?_
  rw [List.mem_range'_1, Outline.size, tree.mem_iff_inside h]
  constructor
  · intro hInside
    have hPos := tree.lt_of_inside hInside
    have hPlace := lt_size_of_inside hInside
    omega
  · rintro ⟨hPos, hPlace⟩
    exact tree.inside_root hPos (by omega)

/-- The nodes without the root, by their places. -/
theorem tail_nodes_eq (outline : Outline) :
    outline.nodes.toList.tail = (List.range' 1 outline.size).map outline.node := by
  refine List.ext_getElem (by simp [Outline.size]) fun i hLeft hRight => ?_
  have hPlace : i + 1 < outline.nodes.size := by
    simp only [List.length_tail, Array.length_toList] at hLeft
    omega
  simp [Outline.node, Nat.add_comm 1 i, hPlace]

/-- **Every node is in the forests once**, apart from the root. -/
theorem Represents.perm (tree : outline.IsTree) {types elements : Forest}
    (h : outline.Represents types elements) :
    (types.nodes ++ elements.nodes).Perm (outline.nodes.toList.tail.map Node.unlinked) := by
  obtain ⟨inTypes, hTypes, hTypeNodes⟩ := h.types.exists_visits_children
  obtain ⟨inElements, hElements, hElementNodes⟩ := h.elements.exists_visits_children
  have hPerm := tree.visits_perm (hTypes.append hElements)
  rw [hTypeNodes, hElementNodes, ← List.map_append, tail_nodes_eq, List.map_map]
  exact hPerm.map _

-- ---------------------------------------------------------------------------
-- Ids
-- ---------------------------------------------------------------------------

/-- No id is added twice. -/
theorem nodup_addId {ids : List String} (h : ids.Nodup) (id : String) : (addId ids id).Nodup := by
  unfold addId
  split
  · exact h
  · next hNew =>
    refine List.nodup_append.mpr ⟨h, List.nodup_singleton id, ?_⟩
    intro a hMem b hLast
    rw [List.mem_singleton.mp hLast]
    rintro rfl
    exact hNew hMem

/-- Ids are added at their first occurrence. -/
theorem foldl_addId (new ids : List String) :
    new.foldl addId ids = ids ++ (new.removeAll ids).eraseDups := by
  induction new generalizing ids with
  | nil => simp
  | cons id new ih =>
    rw [List.foldl_cons, ih, addId, List.cons_removeAll]
    by_cases hMem : id ∈ ids
    · simp [hMem]
    · -- the ids behind it lose those that were there and this one
      have hBehind : new.removeAll (ids ++ [id]) = (new.removeAll ids).filter (!· == id) := by
        simp only [List.removeAll, List.filter_filter]
        refine List.filter_congr fun other _ => ?_
        rw [Bool.eq_iff_iff]
        simp [and_comm]
      simp only [hMem, if_false, List.elem_eq_mem, decide_false, if_true, List.eraseDups_cons,
        hBehind, List.append_assoc, List.singleton_append]

/-- The ids of the nodes at some places, in order. -/
def idsAt (outline : Outline) (places : List Nat) : List String :=
  places.flatMap fun i => (outline.node i).id.toList

/-- The list of places still to visit makes the walk that goes from each element to
the elements inside it first. -/
theorem gatherIds_append (tree : outline.IsTree) {waiting visited : List Nat}
    (h : outline.Visits Node.elements waiting visited) (ids : List String) (more : List Nat) :
    outline.gatherIds ids (waiting ++ more) =
      outline.gatherIds ((outline.idsAt visited).foldl addId ids) more := by
  induction h generalizing ids more with
  | done => rfl
  | @visit i waiting inside rest _ _ ihInside ihRest =>
    rw [List.cons_append, gatherIds, tree.elementsOf_eq, ihInside, ihRest]
    simp only [idsAt, List.flatMap_cons, List.flatMap_append, List.foldl_append]

/-- The ids of a scope are those of the elements that a walk to elements calls at,
each at its first occurrence. -/
theorem scopeIds_of_visits (tree : outline.IsTree) {i : Nat} {visited : List Nat}
    (h : outline.Visits Node.elements (outline.node i).elements visited) :
    outline.scopeIds i = (outline.idsAt visited).eraseDups := by
  have hGather := gatherIds_append tree h [] []
  rw [List.append_nil, gatherIds, foldl_addId, List.nil_append] at hGather
  rw [scopeIds, tree.elementsOf_eq, hGather]
  simp [List.removeAll]

/-- A walk over the elements meets their ids in the order of the forest. -/
theorem Depicts.exists_visits_elements {places : List Nat} {forest : Forest}
    (h : outline.Depicts places forest) :
    ∃ visited, outline.Visits Node.elements places visited ∧
      outline.idsAt visited = forest.ids := by
  induction h with
  | nil => exact ⟨[], .done, rfl⟩
  | @cons i more types elements rest _ _ _ _ ihElements ihRest =>
    obtain ⟨inside, hInside, hInsideIds⟩ := ihElements
    obtain ⟨behind, hRest, hRestIds⟩ := ihRest
    refine ⟨i :: (inside ++ behind), .visit hInside hRest, ?_⟩
    rw [Forest.ids, ← hInsideIds, ← hRestIds, idsAt, List.flatMap_cons, List.flatMap_append,
      List.append_assoc]
    rfl

/-- The variables of a function are the ids of the elements inside, each once. -/
theorem Depicts.scopeIds_eq (tree : outline.IsTree) {i : Nat} {elements : Forest}
    (h : outline.Depicts (outline.node i).elements elements) :
    outline.scopeIds i = elements.ids.eraseDups := by
  obtain ⟨visited, hVisits, hIds⟩ := h.exists_visits_elements
  rw [scopeIds_of_visits tree hVisits, hIds]

end Outline

end BindingMarkup
