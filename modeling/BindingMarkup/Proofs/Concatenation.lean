import BindingMarkup.Proofs.Shape

/-!
# BindingMarkup — documents behind each other

Behind a document with an outline the builder stands where it started, but
for the nodes that are already there: nothing is pending, and only the root
is open. So a second document is built behind the first one as it is built
alone, with the same problem or with the same nodes, whose places are
shifted by the number of nodes of the first.

* `Outline.append` — the nodes of one outline behind those of another. The
  two roots become one, and every other place of the second outline moves.
* `Draft.behind` — the same for a draft; `step_behind` says that a step and
  this shift can be exchanged, whether the step succeeds or fails, and
  `foldlM_step_behind` says it of a run.
* `Outline.build_append` — the statement about whole documents.
-/

namespace BindingMarkup

-- ---------------------------------------------------------------------------
-- Shifted places
-- ---------------------------------------------------------------------------

/-- The place of a node when `n` nodes are put in behind the root. The root keeps
its place. -/
def shiftPlace (n i : Nat) : Nat :=
  if i = 0 then 0 else i + n

theorem shiftPlace_eq_zero_iff {n i : Nat} : shiftPlace n i = 0 ↔ i = 0 := by
  unfold shiftPlace
  split <;> omega

theorem shiftPlace_of_ne_zero {n i : Nat} (h : i ≠ 0) : shiftPlace n i = i + n :=
  if_neg h

/-- The node with all places in it shifted. -/
def Node.shift (n : Nat) (node : Node) : Node :=
  { node with
    parent := node.parent.map (shiftPlace n)
    types := node.types.map (shiftPlace n)
    elements := node.elements.map (shiftPlace n) }

/-- A root with the children of another one behind its own. -/
def Node.adopt (n : Nat) (other root : Node) : Node :=
  { root with
    types := root.types ++ other.types.map (shiftPlace n)
    elements := root.elements ++ other.elements.map (shiftPlace n) }

namespace Outline

/-- The nodes of the second outline behind those of the first, under one root. -/
def append (first second : Outline) : Outline where
  nodes :=
    (first.nodes.toList.modify 0 ((second.node 0).adopt first.size) ++
      second.nodes.toList.tail.map (Node.shift first.size)).toArray

variable {first second : Outline}

/-- An outline has a root. -/
theorem exists_cons {outline : Outline} (h : 0 < outline.nodes.size) :
    ∃ root rest, outline = ⟨(root :: rest).toArray⟩ := by
  obtain ⟨⟨nodes⟩⟩ := outline
  cases nodes with
  | nil => exact absurd h (by simp)
  | cons root rest => exact ⟨root, rest, rfl⟩

/-- The outline of two lists that each start with their root. -/
theorem append_cons (root other : Node) (front back : List Node) :
    append ⟨(root :: front).toArray⟩ ⟨(other :: back).toArray⟩ =
      ⟨(other.adopt front.length root ::
        (front ++ back.map (Node.shift front.length))).toArray⟩ := by
  simp [append, size, node]

/-- Nothing is added by a document without nodes. -/
theorem append_empty (first : Outline) : first.append Outline.empty = first := by
  have hAdopt : Node.adopt first.size Node.root = id := by
    funext root
    simp [Node.adopt, Node.root]
  obtain ⟨⟨nodes⟩⟩ := first
  simp [append, Outline.empty, node, hAdopt]

/-- The two roots become one. -/
theorem size_append (hFirst : 0 < first.nodes.size) (hSecond : 0 < second.nodes.size) :
    (first.append second).nodes.size = shiftPlace first.size second.nodes.size := by
  rw [shiftPlace_of_ne_zero (by omega)]
  simp only [append, size, List.size_toArray, List.length_append, List.length_modify,
    List.length_map, List.length_tail, Array.length_toList]
  omega

/-- The new root has what both roots have. -/
theorem node_append_zero (hFirst : 0 < first.nodes.size) (hSecond : 0 < second.nodes.size) :
    (first.append second).node 0 = (second.node 0).adopt first.size (first.node 0) := by
  obtain ⟨root, front, rfl⟩ := exists_cons hFirst
  obtain ⟨other, back, rfl⟩ := exists_cons hSecond
  rw [append_cons]
  simp [node, size]

/-- The nodes of the second outline are found again at their new places. -/
theorem node_append {i : Nat} (hFirst : 0 < first.nodes.size) (hRoot : i ≠ 0)
    (hPlace : i < second.nodes.size) :
    (first.append second).node (shiftPlace first.size i) = (second.node i).shift first.size := by
  obtain ⟨root, front, rfl⟩ := exists_cons hFirst
  obtain ⟨other, back, rfl⟩ := exists_cons (Nat.lt_of_le_of_lt (Nat.zero_le i) hPlace)
  obtain ⟨j, rfl⟩ := Nat.exists_eq_succ_of_ne_zero hRoot
  have hBack : j < back.length := by simpa using hPlace
  rw [append_cons, shiftPlace_of_ne_zero hRoot]
  have hIndex : j.succ + size ⟨(root :: front).toArray⟩ = front.length + j + 1 := by
    simp only [size, List.size_toArray, List.length_cons]
    omega
  rw [hIndex]
  simp [node, size, hBack]

/-- A new node of the second outline stands behind all others. -/
theorem append_push {nodes : Array Node} (hNodes : 0 < nodes.size) (node : Node) :
    first.append ⟨nodes.push node⟩ =
      ⟨(first.append ⟨nodes⟩).nodes.push (node.shift first.size)⟩ := by
  have hSize : 0 < (Outline.nodes ⟨nodes⟩).size := hNodes
  obtain ⟨other, back, hEq⟩ := exists_cons hSize
  obtain rfl : nodes = _ := congrArg Outline.nodes hEq
  simp [append, Outline.node]

/-- A change to one node can be made before or after all are shifted. -/
theorem map_modify {change changed shift : Node → Node}
    (h : ∀ node, shift (change node) = changed (shift node)) (i : Nat) (nodes : List Node) :
    (nodes.modify i change).map shift = (nodes.map shift).modify i changed := by
  induction nodes generalizing i with
  | nil => simp
  | cons node rest ih =>
    cases i with
    | zero => simp [h]
    | succ i => simp [ih]

/-- A change of a node of the second outline is the same change at its new place,
if the change goes along with the shift. -/
theorem append_modify {i : Nat} {change changed : Node → Node} (hFirst : 0 < first.nodes.size)
    (hPlace : i < second.nodes.size)
    (hNode : ∀ node : Node, (change node).shift first.size = changed (node.shift first.size))
    (hRoot : i = 0 → ∀ root node : Node,
      (change node).adopt first.size root = changed (node.adopt first.size root)) :
    first.append ⟨second.nodes.modify i change⟩ =
      ⟨(first.append second).nodes.modify (shiftPlace first.size i) changed⟩ := by
  obtain ⟨root, front, rfl⟩ := exists_cons hFirst
  obtain ⟨other, back, rfl⟩ := exists_cons (Nat.lt_of_le_of_lt (Nat.zero_le i) hPlace)
  have hSize : size ⟨(root :: front).toArray⟩ = front.length := by simp [size]
  rw [hSize] at hNode hRoot ⊢
  cases i with
  | zero =>
    rw [List.modify_toArray, List.modify_zero_cons, append_cons, append_cons, hRoot rfl]
    simp [shiftPlace]
  | succ j =>
    -- the place lies in the second part, as far from its start as before
    have hIndex : shiftPlace front.length (j + 1) = front.length + j + 1 := by
      rw [shiftPlace_of_ne_zero (Nat.succ_ne_zero j)]
      omega
    have hBack : (front ++ back.map (Node.shift front.length)).modify (front.length + j) changed =
        front ++ (back.modify j change).map (Node.shift front.length) := by
      rw [map_modify hNode]
      exact List.modifyTailIdx_add _ j front _
    rw [List.modify_toArray, List.modify_succ_cons, append_cons, append_cons, hIndex,
      List.modify_toArray, List.modify_succ_cons, hBack]

end Outline

-- ---------------------------------------------------------------------------
-- Drafts behind an outline
-- ---------------------------------------------------------------------------

namespace Draft

/-- The draft as it is built behind a finished outline. -/
def behind (first : Outline) (draft : Draft) : Draft where
  outline := first.append draft.outline
  current := shiftPlace first.size draft.current
  pending := draft.pending

variable {first : Outline} {draft : Draft}

theorem behind_empty (first : Outline) : empty.behind first = ⟨first, 0, .nothing⟩ := by
  simp only [behind, empty, Outline.append_empty, shiftPlace, if_true]

/-- An entry is added to a node inside, which is only shifted. -/
theorem enter_behind {change : Node → Node} (hFirst : 0 < first.nodes.size)
    (hPlace : draft.current < draft.outline.nodes.size) (hInside : draft.current ≠ 0)
    (hChange : ∀ node : Node, (change node).shift first.size = change (node.shift first.size)) :
    (draft.behind first).enter change = (draft.enter change).behind first := by
  simp only [enter, behind,
    Outline.append_modify hFirst hPlace hChange fun hRoot => absurd hRoot hInside]

theorem openNode_eq (draft : Draft) (typeName : String) (role : Role) (line : Nat) :
    draft.openNode typeName role line =
      { outline.nodes :=
          (draft.outline.nodes.modify draft.current (role.link draft.outline.nodes.size)).push
            { typeName, role, parent := some draft.current, line }
        current := draft.outline.nodes.size
        pending := .nothing } := rfl

/-- The place of a new node is the same for both, up to the shift. -/
theorem openNode_behind (hFirst : 0 < first.nodes.size)
    (hPlace : draft.current < draft.outline.nodes.size) (typeName : String) (role : Role)
    (line : Nat) :
    (draft.behind first).openNode typeName role line =
      (draft.openNode typeName role line).behind first := by
  have hSecond : 0 < draft.outline.nodes.size := Nat.lt_of_le_of_lt (Nat.zero_le _) hPlace
  have hSize := Outline.size_append hFirst hSecond
  have hLink : ∀ node : Node, (role.link draft.outline.nodes.size node).shift first.size =
      role.link (first.append draft.outline).nodes.size (node.shift first.size) := by
    intro node
    cases role <;> simp [Role.link, Node.shift, hSize]
  -- a node at the top of the second document is linked from the common root, which is not
  -- shifted
  have hRoot : draft.current = 0 → ∀ root node : Node,
      (role.link draft.outline.nodes.size node).adopt first.size root =
        role.link (first.append draft.outline).nodes.size (node.adopt first.size root) := by
    intro _ root node
    cases role <;> simp [Role.link, Node.adopt, hSize]
  have hLinked : 0 < (draft.outline.nodes.modify draft.current
      (role.link draft.outline.nodes.size)).size := by simpa using hSecond
  rw [openNode_eq, openNode_eq]
  simp only [behind, Outline.append_push hLinked, Outline.append_modify hFirst hPlace hLink hRoot,
    hSize]
  rfl

-- ---------------------------------------------------------------------------
-- Steps behind an outline
-- ---------------------------------------------------------------------------

theorem afterKey_behind (key : Token) (name : String) (t : Token) :
    (draft.behind first).afterKey key name t =
      (draft.afterKey key name t).map (behind first) := by
  have hRoot : (draft.behind first).current = 0 ↔ draft.current = 0 := shiftPlace_eq_zero_iff
  unfold afterKey
  simp only [hRoot]
  split_ifs <;> rfl

/-- The check of an id does not look at the outline. -/
theorem addEntry_behind {add : Node → Node} (hFirst : 0 < first.nodes.size)
    (hPlace : draft.current < draft.outline.nodes.size) (hInside : draft.current ≠ 0)
    (hAdd : ∀ node : Node, (add node).shift first.size = add (node.shift first.size))
    (name value : String) (t : Token) :
    (draft.behind first).addEntry name value t add =
      (draft.addEntry name value t add).map (behind first) := by
  have hId : ∀ node : Node, ((Entry.id value).put node).shift first.size =
      (Entry.id value).put (node.shift first.size) := fun _ => rfl
  unfold addEntry
  split_ifs
  · exact congrArg Except.ok (enter_behind hFirst hPlace hInside hId)
  · rfl
  · exact congrArg Except.ok (enter_behind hFirst hPlace hInside hAdd)

/-- A value is taken the same way behind a first document. -/
theorem afterColon_behind (hFirst : 0 < first.nodes.size)
    (hPlace : draft.current < draft.outline.nodes.size) (hInside : draft.current ≠ 0)
    (name : String) (t : Token) :
    (draft.behind first).afterColon name t = (draft.afterColon name t).map (behind first) := by
  unfold afterColon
  split
  · refine addEntry_behind hFirst hPlace hInside ?_ ..
    exact fun _ => rfl
  · refine addEntry_behind hFirst hPlace hInside ?_ ..
    exact fun _ => rfl
  · rfl

theorem onElement_behind (name : String) (t : Token) :
    (draft.behind first).onElement name t = (draft.onElement name t).map (behind first) := by
  obtain ⟨outline, current, pending⟩ := draft
  cases pending <;> rfl

theorem onIsA_behind (t : Token) :
    (draft.behind first).onIsA t = (draft.onIsA t).map (behind first) := by
  obtain ⟨outline, current, pending⟩ := draft
  cases pending <;> rfl

/-- A node that opens takes the next place, in the shifted outline too. -/
theorem onScopeStart_behind (hFirst : 0 < first.nodes.size)
    (hPlace : draft.current < draft.outline.nodes.size) (t : Token) :
    (draft.behind first).onScopeStart t = (draft.onScopeStart t).map (behind first) := by
  have hOpen := openNode_behind hFirst hPlace
  have hPending : (draft.behind first).pending = draft.pending := rfl
  unfold onScopeStart
  rw [hPending]
  split
  · rw [hOpen]; rfl
  · rw [hOpen]; rfl
  · rfl
  · rfl

/-- The node around an open node is the same, and the root has none. -/
theorem parent_behind (hFirst : 0 < first.nodes.size) (hRoot : (first.node 0).parent = none)
    (hNested : draft.Nested) :
    ((draft.behind first).outline.node (draft.behind first).current).parent =
      (draft.outline.node draft.current).parent.map (shiftPlace first.size) := by
  obtain ⟨depth, hDepth⟩ := hNested.exists_depth
  have hPlace := hDepth.lt_size
  simp only [behind]
  by_cases hCurrent : draft.current = 0
  · have hSecond : 0 < draft.outline.nodes.size := hCurrent ▸ hPlace
    rw [hCurrent, shiftPlace, if_pos rfl, Outline.node_append_zero hFirst hSecond,
      hDepth.parent_root]
    exact hRoot
  · rw [Outline.node_append hFirst hCurrent hPlace]
    rfl

/-- A node that closes leads back to the shifted node around it. -/
theorem onScopeEnd_behind (hFirst : 0 < first.nodes.size) (hRoot : (first.node 0).parent = none)
    (hNested : draft.Nested) (t : Token) :
    (draft.behind first).onScopeEnd t = (draft.onScopeEnd t).map (behind first) := by
  have hPending : (draft.behind first).pending = draft.pending := rfl
  unfold onScopeEnd
  rw [parent_behind hFirst hRoot hNested, hPending]
  cases draft.pending.header? with
  | some name => rfl
  | none =>
    cases (draft.outline.node draft.current).parent with
    | some parent => rfl
    | none => rfl

theorem onKey_behind (name : String) (t : Token) :
    (draft.behind first).onKey name t = (draft.onKey name t).map (behind first) := by
  obtain ⟨outline, current, pending⟩ := draft
  cases pending <;> rfl

/-- **A step behind an outline is the same step.** It fails with the same problem, or
leads to the same draft behind the outline. -/
theorem step_behind (hFirst : 0 < first.nodes.size) (hRoot : (first.node 0).parent = none)
    (hNested : draft.Nested) (t : Token) :
    (draft.behind first).step t = (draft.step t).map (behind first) := by
  obtain ⟨depth, hDepth⟩ := hNested.exists_depth
  have hPlace := hDepth.lt_size
  have hPending : (draft.behind first).pending = draft.pending := rfl
  unfold step
  rw [hPending]
  split
  · exact afterKey_behind ..
  · -- a value is only read inside a node, never at the common root
    next name hValue => exact afterColon_behind hFirst hPlace (hNested.inside name hValue) ..
  · split
    · exact onElement_behind ..
    · exact onIsA_behind ..
    · exact onScopeStart_behind hFirst hPlace ..
    · exact onScopeEnd_behind hFirst hRoot hNested ..
    · exact onKey_behind ..
    · rfl
    · rfl

/-- A run behind an outline is the same run. -/
theorem foldlM_step_behind (hFirst : 0 < first.nodes.size) (hRoot : (first.node 0).parent = none)
    (hNested : draft.Nested) (us : List Token) :
    us.foldlM step (draft.behind first) = (us.foldlM step draft).map (behind first) := by
  induction us generalizing draft with
  | nil => rfl
  | cons t us ih =>
    rw [List.foldlM_cons, List.foldlM_cons, step_behind hFirst hRoot hNested]
    cases hStep : draft.step t with
    | error problem => rfl
    | ok next => exact ih ((step_eq_ok_iff.mp hStep).nested hNested)

/-- The end of a document behind an outline is the same end: an unclosed node is known by
its name and its line. -/
theorem finish_behind (hFirst : 0 < first.nodes.size) (hNested : draft.Nested)
    (last : Option Token) :
    (draft.behind first).finish last = (draft.finish last).map first.append := by
  obtain ⟨depth, hDepth⟩ := hNested.exists_depth
  have hCurrent : (draft.behind first).current = 0 ↔ draft.current = 0 := shiftPlace_eq_zero_iff
  have hPending : (draft.behind first).pending = draft.pending := rfl
  unfold finish
  rw [hPending]
  split
  case h_6 =>
    simp only [hCurrent]
    split_ifs with hOpen
    · rfl
    · simp only [behind, Outline.node_append hFirst hOpen hDepth.lt_size]
      rfl
  all_goals rfl

end Draft

-- ---------------------------------------------------------------------------
-- Whole documents
-- ---------------------------------------------------------------------------

namespace Outline

/-- A list of tokens behind one with an outline is built as it is alone. -/
theorem build_append_eq_map {ts : List Token} {first : Outline} (h : Outline.build ts = .ok first)
    (us : List Token) : Outline.build (ts ++ us) = (Outline.build us).map first.append := by
  obtain ⟨⟨outline, current, pending⟩, hRun, hFinish⟩ := build_eq_ok_iff_run.mp h
  obtain ⟨rfl, rfl, rfl⟩ := Draft.finish_eq_ok_iff.mp hFinish
  obtain ⟨⟨depth, hDepth⟩, -⟩ := Draft.nested_of_foldlM_step Draft.nested_empty hRun
  have hFirst : 0 < first.nodes.size := hDepth.lt_size
  have hMore : (ts ++ us).foldlM Draft.step Draft.empty =
      (us.foldlM Draft.step Draft.empty).map (Draft.behind first) := by
    rw [Draft.foldlM_step_append hRun, ← Draft.behind_empty]
    exact Draft.foldlM_step_behind hFirst hDepth.parent_root Draft.nested_empty us
  unfold build
  rw [hMore]
  cases hSecond : us.foldlM Draft.step Draft.empty with
  | error problem => rfl
  | ok last =>
    have hNested := Draft.nested_of_foldlM_step Draft.nested_empty hSecond
    -- the last token is one of the second document, unless that has none
    cases us with
    | nil =>
      obtain rfl : Draft.empty = last := by simpa [pure, Except.pure] using hSecond
      exact Draft.finish_behind hFirst hNested (ts ++ []).getLast?
    | cons t us =>
      have hLast : (ts ++ t :: us).getLast? = (t :: us).getLast? := by
        simp [List.getLast?_append, List.getLast?_cons]
      rw [hLast]
      exact Draft.finish_behind hFirst hNested (t :: us).getLast?

/-- **Documents can be put behind each other.** Behind a list of tokens with an
outline, a second one has an outline if it has one alone. Its nodes then stand
behind those of the first, with their places shifted, and the two roots are one.
Otherwise its problem is the one that it has alone. -/
theorem build_append (ts us : List Token) (first : Outline) (h : Outline.build ts = .ok first) :
    ((∃ outline, Outline.build (ts ++ us) = .ok outline) ↔
        ∃ second, Outline.build us = .ok second) ∧
      (∀ second, Outline.build us = .ok second →
        Outline.build (ts ++ us) = .ok (first.append second)) ∧
      (∀ problem, Outline.build us = .error problem →
        Outline.build (ts ++ us) = .error problem) := by
  rw [build_append_eq_map h us]
  cases hMore : Outline.build us with
  | ok second => simp [Except.map]
  | error problem => simp [Except.map]

/-- The second copy hangs below the same root, with all its places moved. -/
theorem build_append_nested :
    Outline.build (nestedTokens ++ nestedTokens) = .ok (nestedOutline.append nestedOutline) ∧
      ((nestedOutline.append nestedOutline).node 0).elements = [6, 12] ∧
      ((nestedOutline.append nestedOutline).nodes.toList.map Node.parent).drop 7 =
        [some 0, some 7, some 8, some 9, some 7, some 0] :=
  ⟨(build_append _ _ _ build_nested).2.1 _ build_nested, by decide +kernel, by decide +kernel⟩

end Outline

end BindingMarkup
