import BindingMarkup.Proofs.Grammar
import Mathlib.Data.List.Nodup
import Mathlib.Logic.Relation

/-!
# BindingMarkup — the shape of outlines

An outline is a flat list of nodes that name each other by their places.
Nothing in that type rules out a place beyond the end, a child in two
lists or a cycle. This module says what the builder makes of it: the list
is a tree in pre-order, and the lists of children and the parents tell the
same story (`Outline.WellFormed`, and `Outline.IsTree` in the form that
proofs use).

The listing of a derivation is a pre-order by construction, so everything
is read off the contents that stand from a place on (`Outline.Lists`), by
induction on these contents:

* `Lists.exists_holds` — every place of a listing holds contents of its
  own, which end no later than the listing does;
* `Lists.linked` — the node around a place comes earlier and has it among
  its children;
* `Contents.isTree` — from both, the shape of the whole outline.

Two consequences are for those who walk down an outline. Such a walk comes
to an end (`IsTree.exists_visits`) and calls nowhere twice
(`IsTree.nodup_of_visits`): the places below two children of one node are
different, since parents lead back to one of the two only.
-/

namespace BindingMarkup

def Role.isDefinition : Role → Bool
  | .definition _ => true
  | _ => false

/-- The list of a node for its definitions, or else the one for its elements. -/
def Node.childList (definitions : Bool) (node : Node) : List Nat :=
  if definitions then node.types else node.elements

namespace Outline

-- ---------------------------------------------------------------------------
-- What is to be shown
-- ---------------------------------------------------------------------------

/-- A node is directly inside another. -/
def IsChild (outline : Outline) (i p : Nat) : Prop :=
  (outline.node i).parent = some p

/-- A node is inside another, at any depth. -/
def Inside (outline : Outline) : Nat → Nat → Prop :=
  Relation.TransGen outline.IsChild

/-- A node is inside another or is that node. -/
def Within (outline : Outline) : Nat → Nat → Prop :=
  Relation.ReflTransGen outline.IsChild

/-- The nodes form a tree, listed in pre-order. -/
structure WellFormed (outline : Outline) : Prop where
  /-- Node `0` is the only root and the only node without a node around it. -/
  root : 0 < outline.nodes.size ∧
    ∀ i < outline.nodes.size,
      ((outline.node i).role = .root ↔ i = 0) ∧ ((outline.node i).parent = none ↔ i = 0)
  /-- Every other node comes after the node around it, and stands in one list of
  children only, once: the list for its role in the node around it. -/
  placed : ∀ i, 0 < i → i < outline.nodes.size →
    ∃ p < i, (outline.node i).parent = some p ∧
      ∀ q < outline.nodes.size,
        (outline.node q).types.count i =
            (if q = p ∧ (outline.node i).role ≠ .element then 1 else 0) ∧
          (outline.node q).elements.count i =
            (if q = p ∧ (outline.node i).role = .element then 1 else 0)
  /-- Children are places of the outline behind their node, in increasing order. -/
  children : ∀ i < outline.nodes.size,
    (∀ child ∈ (outline.node i).types ++ (outline.node i).elements,
        i < child ∧ child < outline.nodes.size) ∧
      (outline.node i).types.Pairwise (· < ·) ∧ (outline.node i).elements.Pairwise (· < ·)
  /-- What is inside a node stands right behind it. -/
  preorder : ∀ i < outline.nodes.size,
    ∃ k, ∀ j, outline.Inside j i ↔ i < j ∧ j ≤ i + k

/-- The same as a working invariant: the children of a node, definitions or elements,
are the nodes of that kind whose parent it is. -/
structure IsTree (outline : Outline) : Prop where
  root_role : (outline.node 0).role = .root
  root_parent : (outline.node 0).parent = none
  nonempty : 0 < outline.nodes.size
  exists_parent : ∀ i, 0 < i → i < outline.nodes.size → ∃ p, outline.IsChild i p
  lt : ∀ {i p : Nat}, outline.IsChild i p → p < i
  not_root : ∀ {i p : Nat}, outline.IsChild i p → (outline.node i).role ≠ .root
  mem_iff : ∀ (definitions : Bool) (i p : Nat),
    i ∈ (outline.node p).childList definitions ↔
      outline.IsChild i p ∧ (outline.node i).role.isDefinition = definitions
  increasing : ∀ (definitions : Bool) (p : Nat),
    ((outline.node p).childList definitions).Pairwise (· < ·)
  preorder : ∀ i < outline.nodes.size,
    ∃ k, ∀ j, outline.Inside j i ↔ i < j ∧ j ≤ i + k

/-- Only places of the outline have a node around them. -/
theorem lt_size_of_isChild {outline : Outline} {i p : Nat} (h : outline.IsChild i p) :
    i < outline.nodes.size := by
  refine Nat.lt_of_not_le fun hLe => ?_
  rw [IsChild, node_of_size_le hLe] at h
  exact absurd h (by simp [Node.root])

/-- What is inside a node is a node. -/
theorem lt_size_of_inside {outline : Outline} {i p : Nat} (h : outline.Inside i p) :
    i < outline.nodes.size := by
  obtain ⟨q, hChild, -⟩ := Relation.TransGen.head'_iff.mp h
  exact lt_size_of_isChild hChild

/-- The places that a walk calls at, in order, when it has the places `waiting` before
it and goes from each node to what `follow` names there first. -/
inductive Visits (outline : Outline) (follow : Node → List Nat) : List Nat → List Nat → Prop where
  | done : Visits outline follow [] []
  | visit {i : Nat} {waiting inside rest : List Nat}
      (hInside : Visits outline follow (follow (outline.node i)) inside)
      (hRest : Visits outline follow waiting rest) :
      Visits outline follow (i :: waiting) (i :: (inside ++ rest))

/-- A walk that goes to some of the children of each node, in their order. -/
def GoesDown (follow : Node → List Nat) : Prop :=
  ∀ node, (follow node).Sublist (node.types ++ node.elements)

/-- A walk calls at all that it is led to, and at nothing else. -/
theorem Visits.mem_iff {outline : Outline} {follow : Node → List Nat} {waiting visited : List Nat}
    (h : outline.Visits follow waiting visited) {x : Nat} :
    x ∈ visited ↔ ∃ i ∈ waiting,
      Relation.ReflTransGen (fun child i => child ∈ follow (outline.node i)) x i := by
  induction h with
  | done => simp
  | @visit i waiting inside rest _ _ ihInside ihRest =>
    rw [List.mem_cons, List.mem_append, ihInside, ihRest, List.exists_mem_cons_iff,
      Relation.ReflTransGen.cases_tail_iff, ← or_assoc, eq_comm]
    simp only [and_comm]

end Outline

-- ---------------------------------------------------------------------------
-- The nodes at the top of contents
-- ---------------------------------------------------------------------------

def Header.isDefinition : Header → Bool
  | .definition _ _ => true
  | .element _ => false

namespace Contents

/-- The places of the definitions at the top, or else of the elements, when the
first node takes place `i`. -/
def tops (definitions : Bool) (i : Nat) : Contents → List Nat
  | nil => []
  | entry _ rest => rest.tops definitions i
  | node header _ inside rest =>
    if header.isDefinition = definitions then i :: rest.tops definitions (i + (inside.size + 1))
    else rest.tops definitions (i + (inside.size + 1))

theorem types_eq_tops (contents : Contents) (i : Nat) :
    contents.types i = contents.tops true i := by
  induction contents generalizing i with
  | nil => rfl
  | entry entry rest ih => exact ih i
  | node header line inside rest _ ih =>
    cases header <;> simp [types, tops, Header.isDefinition, ih]

theorem elements_eq_tops (contents : Contents) (i : Nat) :
    contents.elements i = contents.tops false i := by
  induction contents generalizing i with
  | nil => rfl
  | entry entry rest ih => exact ih i
  | node header line inside rest _ ih =>
    cases header <;> simp [elements, tops, Header.isDefinition, ih]

/-- The nodes at the top are the first one and those behind it. -/
theorem mem_tops_node {definitions : Bool} {header : Header} {line i child : Nat}
    {inside rest : Contents} :
    child ∈ (node header line inside rest).tops definitions i ↔
      (child = i ∧ header.isDefinition = definitions) ∨
        child ∈ rest.tops definitions (i + (inside.size + 1)) := by
  rw [tops]
  split
  · next hHere => simp [hHere]
  · next hHere => simp [hHere]

/-- The nodes at the top take places of the contents. -/
theorem mem_tops {definitions : Bool} {contents : Contents} {i child : Nat}
    (h : child ∈ contents.tops definitions i) : i ≤ child ∧ child < i + contents.size := by
  induction contents generalizing i with
  | nil => exact absurd h List.not_mem_nil
  | entry entry rest ih => exact ih h
  | node header line inside rest _ ih =>
    simp only [size]
    rcases mem_tops_node.mp h with ⟨rfl, -⟩ | hMore
    · omega
    · have hRest := ih hMore
      omega

/-- The nodes at the top come in the order of their places. -/
theorem pairwise_tops (definitions : Bool) (contents : Contents) (i : Nat) :
    (contents.tops definitions i).Pairwise (· < ·) := by
  induction contents generalizing i with
  | nil => exact List.Pairwise.nil
  | entry entry rest ih => exact ih i
  | node header line inside rest _ ih =>
    unfold tops
    split
    · refine List.pairwise_cons.mpr ⟨?_, ih _⟩
      intro child hChild
      have hLow := (mem_tops hChild).1
      omega
    · exact ih _

end Contents

namespace Outline

-- ---------------------------------------------------------------------------
-- Contents at a place
-- ---------------------------------------------------------------------------

/-- The nodes of some contents stand in an outline from place `i` on, those at the
top inside the node at `parent`. -/
def Lists (outline : Outline) (parent i : Nat) (contents : Contents) : Prop :=
  contents.nodes parent i <+: outline.nodes.toList.drop i

/-- The node at a place has the given contents. -/
structure Holds (outline : Outline) (i : Nat) (contents : Contents) : Prop where
  children : ∀ definitions,
    (outline.node i).childList definitions = contents.tops definitions (i + 1)
  lists : outline.Lists i (i + 1) contents

/-- A node lists all nodes at the top of its contents. -/
theorem Holds.tops_subset {outline : Outline} {i : Nat} {contents : Contents}
    (h : outline.Holds i contents) (definitions : Bool) :
    contents.tops definitions (i + 1) ⊆ (outline.node i).childList definitions := by
  rw [h.children]
  exact List.Subset.refl _

/-- A node is in the list for its role of an earlier node, its parent. -/
structure Linked (outline : Outline) (i p : Nat) : Prop where
  parent : outline.IsChild i p
  lt : p < i
  not_root : (outline.node i).role ≠ .root
  mem : i ∈ (outline.node p).childList (outline.node i).role.isDefinition

variable {outline : Outline}

/-- The first of the nodes that follow is the one at this place. -/
theorem node_eq_of_prefix {i : Nat} {node : Node} {more : List Node}
    (h : node :: more <+: outline.nodes.toList.drop i) :
    outline.node i = node ∧ more <+: outline.nodes.toList.drop (i + 1) := by
  obtain ⟨rest, hRest⟩ := h
  have hPlace : i < outline.nodes.toList.length := by
    refine Nat.lt_of_not_le fun hLe => ?_
    rw [List.drop_eq_nil_of_le hLe] at hRest
    exact absurd hRest (by simp)
  rw [List.drop_eq_getElem_cons hPlace, List.cons_append] at hRest
  obtain ⟨hNode, hMore⟩ := List.cons.inj hRest
  refine ⟨?_, rest, hMore⟩
  unfold Outline.node
  rw [Array.getD_eq_getD_getElem?, ← Array.getElem?_toList, List.getElem?_eq_getElem hPlace,
    Option.getD_some, hNode]

/-- What follows, in two parts. -/
theorem prefix_drop_of_append {front back : List Node} {i : Nat}
    (h : front ++ back <+: outline.nodes.toList.drop i) :
    front <+: outline.nodes.toList.drop i ∧
      back <+: outline.nodes.toList.drop (i + front.length) := by
  obtain ⟨rest, hRest⟩ := h
  rw [List.append_assoc] at hRest
  refine ⟨⟨back ++ rest, hRest⟩, rest, ?_⟩
  rw [← List.drop_drop, ← hRest, List.drop_left]

/-- The children of a filled node are those at the top of its contents. -/
theorem childList_fill (contents : Contents) (i : Nat) {node : Node} (hTypes : node.types = [])
    (hElements : node.elements = []) (definitions : Bool) :
    (contents.fill i node).childList definitions = contents.tops definitions i := by
  cases definitions with
  | true => simp [Node.childList, Contents.fill, hTypes, Contents.types_eq_tops]
  | false => simp [Node.childList, Contents.fill, hElements, Contents.elements_eq_tops]

namespace Lists

variable {parent i j : Nat} {contents : Contents}

/-- A node takes its own place, the places behind it go to what is inside, and those
behind that to the rest. -/
theorem of_node {header : Header} {line : Nat} {inside rest : Contents}
    (h : outline.Lists parent i (.node header line inside rest)) :
    (outline.node i).role = header.role ∧ outline.IsChild i parent ∧ outline.Holds i inside ∧
      outline.Lists parent (i + (inside.size + 1)) rest := by
  unfold Lists at h
  rw [Contents.nodes, List.cons_append] at h
  obtain ⟨hNode, hMore⟩ := node_eq_of_prefix h
  obtain ⟨hInside, hRest⟩ := prefix_drop_of_append hMore
  rw [Contents.length_nodes, Nat.add_assoc, Nat.add_comm 1] at hRest
  refine ⟨by rw [hNode]; rfl, by rw [IsChild, hNode]; rfl, ⟨?_, hInside⟩, hRest⟩
  rw [hNode]
  exact childList_fill inside (i + 1) rfl rfl

/-- **Every place of a listing holds contents of its own**, which end no later than
the listing does. -/
theorem exists_holds (h : outline.Lists parent i contents) (hLow : i ≤ j)
    (hHigh : j < i + contents.size) :
    ∃ inside, outline.Holds j inside ∧ j + inside.size < i + contents.size := by
  induction contents generalizing parent i with
  | nil =>
    simp only [Contents.size] at hHigh
    omega
  | entry entry rest ih => exact ih h hLow hHigh
  | node header line inside rest ihInside ihRest =>
    obtain ⟨-, -, hHolds, hRest⟩ := h.of_node
    simp only [Contents.size] at hHigh ⊢
    rcases Nat.lt_trichotomy j i with hLt | rfl | hGt
    · omega
    · exact ⟨inside, hHolds, by omega⟩
    · by_cases hIn : j < i + 1 + inside.size
      · obtain ⟨deeper, hDeeper, hEnd⟩ := ihInside hHolds.lists (by omega) hIn
        exact ⟨deeper, hDeeper, by omega⟩
      · obtain ⟨deeper, hDeeper, hEnd⟩ := ihRest hRest (by omega) (by omega)
        exact ⟨deeper, hDeeper, by omega⟩

/-- **Every place of a listing is linked**, to the node around the listing or to one
inside it. -/
theorem linked (h : outline.Lists parent i contents) (hParent : parent < i)
    (hTops : ∀ definitions,
      contents.tops definitions i ⊆ (outline.node parent).childList definitions)
    (hLow : i ≤ j) (hHigh : j < i + contents.size) :
    ∃ p, outline.Linked j p ∧ (p = parent ∨ i ≤ p) := by
  induction contents generalizing parent i with
  | nil =>
    simp only [Contents.size] at hHigh
    omega
  | entry entry rest ih => exact ih h hParent hTops hLow hHigh
  | node header line inside rest ihInside ihRest =>
    obtain ⟨hRole, hChild, hHolds, hRest⟩ := h.of_node
    simp only [Contents.size] at hHigh
    -- the node itself, a node inside it or one behind it
    rcases Nat.lt_trichotomy j i with hLt | rfl | hGt
    · omega
    · have hDefinition : (outline.node j).role.isDefinition = header.isDefinition := by
        rw [hRole]
        cases header <;> rfl
      have hNotRoot : (outline.node j).role ≠ .root := by
        rw [hRole]
        cases header <;> simp [Header.role]
      refine ⟨parent, ⟨hChild, hParent, hNotRoot, ?_⟩, .inl rfl⟩
      rw [hDefinition]
      exact hTops _ (Contents.mem_tops_node.mpr (.inl ⟨rfl, rfl⟩))
    · by_cases hIn : j < i + 1 + inside.size
      · obtain ⟨p, hLinked, hPlace⟩ :=
          ihInside hHolds.lists (Nat.lt_succ_self i) hHolds.tops_subset (by omega) hIn
        exact ⟨p, hLinked, by omega⟩
      · -- what stands behind the node hangs below the same parent
        have hMore : ∀ definitions, rest.tops definitions (i + (inside.size + 1)) ⊆
            (outline.node parent).childList definitions := by
          intro definitions child hMem
          exact hTops definitions (Contents.mem_tops_node.mpr (.inr hMem))
        obtain ⟨p, hLinked, hPlace⟩ := ihRest hRest (by omega) hMore (by omega) (by omega)
        exact ⟨p, hLinked, by omega⟩

/-- The nodes at the top of a listing are children of the node around it. -/
theorem isChild_of_mem_tops (h : outline.Lists parent i contents) {definitions : Bool}
    {child : Nat} (hMem : child ∈ contents.tops definitions i) :
    outline.IsChild child parent ∧ (outline.node child).role.isDefinition = definitions := by
  induction contents generalizing i with
  | nil => exact absurd hMem List.not_mem_nil
  | entry entry rest ih => exact ih h hMem
  | node header line inside rest _ ih =>
    obtain ⟨hRole, hChild, -, hRest⟩ := h.of_node
    rcases Contents.mem_tops_node.mp hMem with ⟨rfl, hDefinition⟩ | hMore
    · refine ⟨hChild, ?_⟩
      rw [hRole, ← hDefinition]
      cases header <;> rfl
    · exact ih hRest hMore

end Lists

end Outline

namespace Contents

-- ---------------------------------------------------------------------------
-- The outline of contents
-- ---------------------------------------------------------------------------

variable (contents : Contents)

theorem size_outline : contents.outline.nodes.size = contents.size + 1 := by
  simp [outline]

/-- The root holds the contents of the document. -/
theorem holds_root : contents.outline.Holds 0 contents :=
  ⟨Outline.childList_fill contents 1 rfl rfl, List.prefix_rfl⟩

variable {contents} {i p : Nat}

/-- Every node holds some contents. -/
theorem exists_holds (h : i < contents.outline.nodes.size) :
    ∃ inside, contents.outline.Holds i inside := by
  rw [size_outline] at h
  rcases Nat.eq_zero_or_pos i with rfl | hPos
  · exact ⟨contents, contents.holds_root⟩
  · obtain ⟨inside, hHolds, -⟩ := contents.holds_root.lists.exists_holds hPos (by omega)
    exact ⟨inside, hHolds⟩

/-- Every node but the root hangs below another one that lists it. -/
theorem exists_linked (hPos : 0 < i) (h : i < contents.outline.nodes.size) :
    ∃ p, contents.outline.Linked i p := by
  rw [size_outline] at h
  obtain ⟨p, hLinked, -⟩ := contents.holds_root.lists.linked Nat.zero_lt_one
    contents.holds_root.tops_subset hPos (by omega)
  exact ⟨p, hLinked⟩

/-- A node with a node around it is linked to that one. -/
theorem linked_of_isChild (h : contents.outline.IsChild i p) : contents.outline.Linked i p := by
  have hPos : 0 < i := by
    rcases Nat.eq_zero_or_pos i with rfl | hPos
    · exact absurd h (by simp [Outline.IsChild, outline, Outline.node, fill, Node.root])
    · exact hPos
  obtain ⟨q, hLinked⟩ := exists_linked hPos (Outline.lt_size_of_isChild h)
  obtain rfl : p = q := Option.some.inj (h.symm.trans hLinked.parent)
  exact hLinked

/-- Children and parents tell the same story. -/
theorem mem_childList_iff {definitions : Bool} :
    i ∈ (contents.outline.node p).childList definitions ↔
      contents.outline.IsChild i p ∧
        (contents.outline.node i).role.isDefinition = definitions := by
  constructor
  · intro hMem
    have hPlace : p < contents.outline.nodes.size := by
      refine Nat.lt_of_not_le fun hLe => ?_
      rw [Outline.node_of_size_le hLe] at hMem
      cases definitions <;> exact absurd hMem List.not_mem_nil
    obtain ⟨inside, hHolds⟩ := exists_holds hPlace
    rw [hHolds.children] at hMem
    exact hHolds.lists.isChild_of_mem_tops hMem
  · rintro ⟨hChild, rfl⟩
    exact (linked_of_isChild hChild).mem

/-- What is inside a node stands right behind it: its contents and nothing else. -/
theorem inside_iff {inside : Contents} (hHolds : contents.outline.Holds i inside) (j : Nat) :
    contents.outline.Inside j i ↔ i < j ∧ j ≤ i + inside.size := by
  constructor
  · -- the child of a place of the contents is a place of the contents
    have hStep : ∀ {j m : Nat}, contents.outline.IsChild j m → i ≤ m → m ≤ i + inside.size →
        i < j ∧ j ≤ i + inside.size := by
      intro j m hChild hLow hHigh
      obtain ⟨deeper, hDeeper, hLast⟩ : ∃ deeper, contents.outline.Holds m deeper ∧
          m + deeper.size ≤ i + inside.size := by
        rcases Nat.eq_or_lt_of_le hLow with rfl | hLt
        · exact ⟨inside, hHolds, Nat.le_refl _⟩
        · obtain ⟨deeper, hDeeper, hLast⟩ := hHolds.lists.exists_holds hLt (by omega)
          exact ⟨deeper, hDeeper, by omega⟩
      have hMem := (linked_of_isChild hChild).mem
      rw [hDeeper.children] at hMem
      have hBounds := mem_tops hMem
      omega
    intro hInside
    induction hInside using Relation.TransGen.head_induction_on with
    | single hChild => exact hStep hChild (Nat.le_refl i) (Nat.le_add_right i _)
    | head hChild _ ih => exact hStep hChild (Nat.le_of_lt ih.1) ih.2
  · rintro ⟨hLow, hHigh⟩
    induction j using Nat.strongRecOn with
    | _ j ih =>
      obtain ⟨q, hLinked, rfl | hPlace⟩ :=
        hHolds.lists.linked (Nat.lt_succ_self i) hHolds.tops_subset hLow (by omega)
      · exact .single hLinked.parent
      · have hLt := hLinked.lt
        exact .head hLinked.parent (ih q hLt hPlace (by omega))

/-- **The listing of contents is a tree in pre-order.** -/
theorem isTree (contents : Contents) : contents.outline.IsTree where
  root_role := rfl
  root_parent := rfl
  nonempty := by
    rw [size_outline]
    omega
  exists_parent := by
    intro i hPos hPlace
    obtain ⟨p, hLinked⟩ := exists_linked hPos hPlace
    exact ⟨p, hLinked.parent⟩
  lt := fun hChild => (linked_of_isChild hChild).lt
  not_root := fun hChild => (linked_of_isChild hChild).not_root
  mem_iff := fun _ _ _ => mem_childList_iff
  increasing := by
    intro definitions p
    rcases Nat.lt_or_ge p contents.outline.nodes.size with hPlace | hOut
    · -- the lists of a node are the tops of what it holds, in the order of their places
      obtain ⟨inside, hHolds⟩ := exists_holds hPlace
      rw [hHolds.children]
      exact pairwise_tops definitions inside (p + 1)
    · rw [Outline.node_of_size_le hOut]
      cases definitions <;> exact List.Pairwise.nil
  preorder := by
    intro i hPlace
    obtain ⟨inside, hHolds⟩ := exists_holds hPlace
    exact ⟨inside.size, inside_iff hHolds⟩

end Contents

namespace Outline.IsTree

-- ---------------------------------------------------------------------------
-- Trees are well formed
-- ---------------------------------------------------------------------------

variable {outline : Outline} {i p : Nat}

/-- What a node lists names it as its parent. -/
theorem isChild_of_mem (tree : outline.IsTree)
    (h : i ∈ (outline.node p).types ++ (outline.node p).elements) : outline.IsChild i p := by
  rcases List.mem_append.mp h with hType | hElement
  · exact ((tree.mem_iff true i p).mp hType).1
  · exact ((tree.mem_iff false i p).mp hElement).1

theorem isDefinition_eq_false_iff {role : Role} (h : role ≠ .root) :
    role.isDefinition = false ↔ role = .element := by
  cases role <;> simp_all [Role.isDefinition]

/-- A place stands in the list for its role of its parent, once, and in no other
list of children. -/
theorem count_childList (tree : outline.IsTree) (hChild : outline.IsChild i p) (q : Nat)
    (definitions : Bool) :
    ((outline.node q).childList definitions).count i =
      if q = p ∧ (outline.node i).role.isDefinition = definitions then 1 else 0 := by
  have hMem : i ∈ (outline.node q).childList definitions ↔
      q = p ∧ (outline.node i).role.isDefinition = definitions := by
    rw [tree.mem_iff, IsChild, hChild, Option.some.injEq, eq_comm]
  have hNodup : ((outline.node q).childList definitions).Nodup :=
    (tree.increasing definitions q).imp Nat.ne_of_lt
  split
  · next hHere => exact List.count_eq_one_of_mem hNodup (hMem.mpr hHere)
  · next hOther => exact List.count_eq_zero.mpr (mt hMem.mp hOther)

/-- A tree is well formed. -/
theorem wellFormed (tree : outline.IsTree) : outline.WellFormed where
  root := by
    refine ⟨tree.nonempty, fun i hPlace => ?_⟩
    rcases Nat.eq_zero_or_pos i with rfl | hPos
    · simp [tree.root_role, tree.root_parent]
    · obtain ⟨p, hChild⟩ := tree.exists_parent i hPos hPlace
      have hSome : (outline.node i).parent = some p := hChild
      simp [tree.not_root hChild, hSome, Nat.ne_of_gt hPos]
  placed := by
    intro i hPos hPlace
    obtain ⟨p, hChild⟩ := tree.exists_parent i hPos hPlace
    refine ⟨p, tree.lt hChild, hChild, fun q _ => ?_⟩
    -- the list that the role names has the node once, every other list has it nowhere
    have hTypes := tree.count_childList hChild q true
    have hElements := tree.count_childList hChild q false
    simp only [← Bool.not_eq_false, isDefinition_eq_false_iff (tree.not_root hChild)] at hTypes
    simp only [isDefinition_eq_false_iff (tree.not_root hChild)] at hElements
    exact ⟨hTypes, hElements⟩
  children := by
    intro i _
    refine ⟨fun child hMem => ?_, tree.increasing true i, tree.increasing false i⟩
    have hChild := tree.isChild_of_mem hMem
    exact ⟨tree.lt hChild, lt_size_of_isChild hChild⟩
  preorder := tree.preorder

/-- A walk over the lists of children, as `dump` and the script do it, misses no child. -/
theorem typesOf_eq (tree : outline.IsTree) (i : Nat) :
    outline.typesOf i = (outline.node i).types := by
  refine List.filter_eq_self.mpr fun child hMem => decide_eq_true ?_
  exact tree.lt ((tree.mem_iff true child i).mp hMem).1

/-- All elements that a node lists come behind it, so none is left out of a walk. -/
theorem elementsOf_eq (tree : outline.IsTree) (i : Nat) :
    outline.elementsOf i = (outline.node i).elements := by
  refine List.filter_eq_self.mpr fun child hMem => decide_eq_true ?_
  exact tree.lt ((tree.mem_iff false child i).mp hMem).1

-- ---------------------------------------------------------------------------
-- Walks
-- ---------------------------------------------------------------------------

variable {follow : Node → List Nat} {waiting visited : List Nat}

/-- **Every walk comes to an end.** -/
theorem exists_visits (tree : outline.IsTree) (hFollow : GoesDown follow)
    (hWaiting : ∀ i ∈ waiting, i < outline.nodes.size) :
    ∃ visited, outline.Visits follow waiting visited := by
  -- the walk from a node on has fewer places before it than the walk to the node
  have hBounded : ∀ (n : Nat) (waiting : List Nat),
      (∀ i ∈ waiting, i < outline.nodes.size ∧ outline.nodes.size ≤ i + n) →
        ∃ visited, outline.Visits follow waiting visited := by
    intro n
    induction n with
    | zero =>
      intro waiting hWaiting
      cases waiting with
      | nil => exact ⟨[], .done⟩
      | cons i more =>
        have hBounds := hWaiting i List.mem_cons_self
        omega
    | succ n ihDeeper =>
      intro waiting hWaiting
      induction waiting with
      | nil => exact ⟨[], .done⟩
      | cons i more ihMore =>
        have hHere := hWaiting i List.mem_cons_self
        obtain ⟨inside, hInside⟩ := ihDeeper (follow (outline.node i)) fun child hMem => by
          have hChild := tree.isChild_of_mem ((hFollow _).subset hMem)
          have hLater := tree.lt hChild
          exact ⟨lt_size_of_isChild hChild, by omega⟩
        obtain ⟨rest, hRest⟩ := ihMore fun j hMem => hWaiting j (List.mem_cons_of_mem i hMem)
        exact ⟨i :: (inside ++ rest), .visit hInside hRest⟩
  exact hBounded outline.nodes.size waiting fun i hMem => ⟨hWaiting i hMem, Nat.le_add_left _ _⟩

/-- A node comes before all that is inside it. -/
theorem le_of_within (tree : outline.IsTree) {j : Nat} (h : outline.Within j i) : i ≤ j := by
  induction h using Relation.ReflTransGen.head_induction_on with
  | refl => exact Nat.le_refl i
  | head hChild _ ih => exact Nat.le_trans ih (Nat.le_of_lt (tree.lt hChild))

theorem lt_of_inside (tree : outline.IsTree) (h : outline.Inside i p) : p < i := by
  obtain ⟨q, hChild, hWithin⟩ := Relation.TransGen.head'_iff.mp h
  exact Nat.lt_of_le_of_lt (tree.le_of_within hWithin) (tree.lt hChild)

/-- Everything else is inside the root. -/
theorem inside_root (tree : outline.IsTree) (hPos : 0 < i) (hPlace : i < outline.nodes.size) :
    outline.Inside i 0 := by
  induction i using Nat.strongRecOn with
  | _ i ih =>
    obtain ⟨p, hChild⟩ := tree.exists_parent i hPos hPlace
    have hBefore := tree.lt hChild
    rcases Nat.eq_zero_or_pos p with rfl | hInner
    · exact .single hChild
    · exact .head hChild (ih p hBefore hInner (by omega))

/-- No node is within two children of one node: the parents of a node form a single
line, so one of the two would lie within the other, beyond their common parent. -/
theorem not_within_siblings (tree : outline.IsTree) {a b x : Nat} (hA : outline.IsChild a p)
    (hB : outline.IsChild b p) (hNe : a ≠ b) (hXA : outline.Within x a) :
    ¬outline.Within x b := by
  have hNotWithin : ∀ {a b : Nat}, outline.IsChild a p → outline.IsChild b p → a ≠ b →
      ¬outline.Within a b := by
    intro a b hA hB hNe hWithin
    rcases Relation.ReflTransGen.cases_head hWithin with hEq | ⟨q, hChild, hMore⟩
    · exact hNe hEq
    · obtain rfl : q = p := Option.some.inj (hChild.symm.trans hA)
      have hBeyond := tree.le_of_within hMore
      have hBefore := tree.lt hB
      omega
  intro hXB
  have hUnique : Relator.RightUnique outline.IsChild := fun _ _ _ hFirst hSecond =>
    Option.some.inj (hFirst.symm.trans hSecond)
  rcases Relation.ReflTransGen.total_of_right_unique hUnique hXA hXB with hAB | hBA
  · exact hNotWithin hA hB hNe hAB
  · exact hNotWithin hB hA (Ne.symm hNe) hBA

/-- A relation holds between all that is within one place and all that is within another. -/
def Across (outline : Outline) (R : Nat → Nat → Prop) (a b : Nat) : Prop :=
  ∀ x y, outline.Within x a → outline.Within y b → R x y

/-- What is inside one child is not inside another one. -/
theorem pairwise_children (tree : outline.IsTree) (i : Nat) :
    ((outline.node i).types ++ (outline.node i).elements).Pairwise (Across outline (· ≠ ·)) := by
  have hSiblings : ∀ {a b : Nat}, outline.IsChild a i → outline.IsChild b i → a ≠ b →
      Across outline (· ≠ ·) a b := by
    rintro a b hA hB hNe x y hX hY rfl
    exact tree.not_within_siblings hA hB hNe hX hY
  have hList : ∀ definitions,
      ((outline.node i).childList definitions).Pairwise (Across outline (· ≠ ·)) := by
    intro definitions
    refine List.Pairwise.imp_of_mem ?_ (tree.increasing definitions i)
    intro a b hA hB hLt
    exact hSiblings ((tree.mem_iff _ _ _).mp hA).1 ((tree.mem_iff _ _ _).mp hB).1
      (Nat.ne_of_lt hLt)
  refine List.pairwise_append.mpr ⟨hList true, hList false, ?_⟩
  intro a hA b hB
  obtain ⟨hChildA, hDefinition⟩ := (tree.mem_iff true a i).mp hA
  obtain ⟨hChildB, hElement⟩ := (tree.mem_iff false b i).mp hB
  refine hSiblings hChildA hChildB ?_
  rintro rfl
  rw [hDefinition] at hElement
  exact absurd hElement (by simp)

/-- A walk stays within the places that it has before it. -/
theorem within_of_visits (tree : outline.IsTree) (hFollow : GoesDown follow)
    (h : outline.Visits follow waiting visited) {x : Nat} (hMem : x ∈ visited) :
    ∃ i ∈ waiting, outline.Within x i := by
  obtain ⟨i, hWaits, hLeads⟩ := h.mem_iff.mp hMem
  refine ⟨i, hWaits, Relation.ReflTransGen.mono ?_ _ _ hLeads⟩
  intro child j hChild
  exact tree.isChild_of_mem ((hFollow _).subset hChild)

/-- A relation holds along a walk, when it holds from each node to what is inside it
and across the places that stand next to each other. -/
theorem pairwise_of_visits (tree : outline.IsTree) (hFollow : GoesDown follow)
    {R : Nat → Nat → Prop} (hBelow : ∀ {i x : Nat}, i < x → R i x)
    (hChildren : ∀ i, (follow (outline.node i)).Pairwise (Across outline R))
    (h : outline.Visits follow waiting visited)
    (hWaiting : waiting.Pairwise (Across outline R)) : visited.Pairwise R := by
  induction h with
  | done => exact List.Pairwise.nil
  | @visit i waiting inside rest hInside hRest ihInside ihRest =>
    obtain ⟨hHere, hMore⟩ := List.pairwise_cons.mp hWaiting
    -- what is visited for `i` lies below it, and the rest within other places
    have hBelowInside : ∀ x ∈ inside, i < x ∧ outline.Within x i := by
      intro x hMem
      obtain ⟨child, hChild, hWithin⟩ := tree.within_of_visits hFollow hInside hMem
      have hParent := tree.isChild_of_mem ((hFollow _).subset hChild)
      have hBefore := tree.lt hParent
      have hBeyond := tree.le_of_within hWithin
      exact ⟨by omega, hWithin.tail hParent⟩
    have hAcross : ∀ x, outline.Within x i → ∀ y ∈ rest, R x y := by
      intro x hWithin y hMem
      obtain ⟨j, hWaits, hOther⟩ := tree.within_of_visits hFollow hRest hMem
      exact hHere j hWaits x y hWithin hOther
    refine List.pairwise_cons.mpr ⟨?_, List.pairwise_append.mpr
      ⟨ihInside (hChildren i), ihRest hMore, ?_⟩⟩
    · intro x hMem
      rcases List.mem_append.mp hMem with hIn | hBehind
      · exact hBelow (hBelowInside x hIn).1
      · exact hAcross i .refl x hBehind
    · intro x hMem y hBehind
      exact hAcross x (hBelowInside x hMem).2 y hBehind

/-- **No walk calls at a place twice**, when no node is within two of the places that
it has before it. -/
theorem nodup_of_visits (tree : outline.IsTree) (hFollow : GoesDown follow)
    (h : outline.Visits follow waiting visited)
    (hWaiting : waiting.Pairwise (Across outline (· ≠ ·))) : visited.Nodup :=
  tree.pairwise_of_visits hFollow Nat.ne_of_lt
    (fun i => (tree.pairwise_children i).sublist (hFollow _)) h hWaiting

end Outline.IsTree

-- ---------------------------------------------------------------------------
-- The outlines of the builder
-- ---------------------------------------------------------------------------

/-- The tokens of a definition with an element that holds a definition, and of an
element behind it. Two of the elements have the same id. -/
def nestedTokens : List Token :=
  List.map (fun kind => { kind, line := 1, context := "" })
    [.element "Row", .isA, .element "Item", .scopeStart,
      .element "Label", .scopeStart, .expression "id", .colon, .expression "first",
      .element "Cell", .isA, .element "Row", .scopeStart,
      .element "Icon", .scopeStart, .expression "id", .colon, .expression "inner", .scopeEnd,
      .scopeEnd, .scopeEnd,
      .element "Label", .scopeStart, .expression "id", .colon, .expression "first", .scopeEnd,
      .scopeEnd,
      .element "Row", .scopeStart, .expression "id", .colon, .expression "last",
      .expression "width", .colon, .expression "3", .scopeEnd]

def nestedOutline : Outline :=
  (Outline.build nestedTokens).toOption.getD .empty

theorem build_nested : Outline.build nestedTokens = .ok nestedOutline := by
  decide +kernel

/-- **The builder makes trees.** The nodes of an outline form a tree in pre-order.
A walk down its children, whichever of them it goes to, comes to an end and
calls at no place twice; and the walks of the dump and of the script go to all of
them. -/
theorem Outline.wellFormed_of_build {ts : List Token} {outline : Outline}
    (h : Outline.build ts = .ok outline) :
    outline.WellFormed ∧
      (∀ i, outline.typesOf i = (outline.node i).types ∧
        outline.elementsOf i = (outline.node i).elements) ∧
      ∀ follow, GoesDown follow → ∀ i < outline.nodes.size,
        (∃ visited, outline.Visits follow [i] visited) ∧
          ∀ visited, outline.Visits follow [i] visited → visited.Nodup := by
  obtain ⟨contents, -, rfl⟩ := derives_of_build h
  have tree := contents.isTree
  refine ⟨tree.wellFormed, fun i => ⟨tree.typesOf_eq i, tree.elementsOf_eq i⟩, ?_⟩
  intro follow hFollow i hPlace
  constructor
  · refine tree.exists_visits hFollow fun j hMem => ?_
    rw [List.mem_singleton.mp hMem]
    exact hPlace
  · intro visited hVisits
    exact tree.nodup_of_visits hFollow hVisits (List.pairwise_singleton _ i)

theorem wellFormed_nested :
    ∃ outline, Outline.build nestedTokens = .ok outline ∧ outline.nodes.size = 7 ∧
      outline.WellFormed :=
  ⟨_, build_nested, by decide +kernel, (Outline.wellFormed_of_build build_nested).1⟩

end BindingMarkup
