import BindingMarkup.Proofs.Bases
import BindingMarkup.Proofs.Vocabulary
import Mathlib.Data.List.Chain
import Mathlib.Tactic.Tauto

/-!
# BindingMarkup — where type names stand

The table of known types lists every type name among the tokens. Here the
same names are found in the outline: as the type of a node, as the base of
a definition, as the target of a delegate, or as an id that looks like a
type name. The last leaves no trace in the outline when a later id takes
its place, so it is looked for among the tokens (`GivesId`).

* `mem_keys_knownTypes_iff` — the names of the table are those of the
  tokens.
* `mem_names_of_hasElement`, `hasElement_of_mem_names` — along a
  derivation the names of the tokens become those of the contents, and
  `Contents.mem_names_iff` finds these again in the listing.
* `knownTypes_iff_outline` — both together, with the base of each name.
-/

namespace BindingMarkup

-- ---------------------------------------------------------------------------
-- Names in an outline
-- ---------------------------------------------------------------------------

/-- A type name stands in a node: as its type, as its base or as the target of a
delegate. -/
def Node.Names (name : String) (node : Node) : Prop :=
  node.typeName = name ∨ node.role = .definition name ∨ ∃ d ∈ node.delegates, d.target = name

/-- A type name stands in one of the nodes behind the root. -/
def Outline.Names (outline : Outline) (name : String) : Prop :=
  ∃ node ∈ outline.nodes.toList.tail, node.Names name

/-- The last definition of a name. -/
def Outline.lastType? (outline : Outline) (name : String) : Option Node :=
  outline.definitions.reverse.find? fun node => node.typeName == name

/-- The first base of a name is that of its first definition. -/
theorem findSome?_baseFor {nodes : List Node}
    (h : ∀ node ∈ nodes, ∃ base, node.role = .definition base) (name : String) :
    nodes.findSome? (Node.baseFor name) =
      (nodes.find? fun node => node.typeName == name).bind (·.role.base?) := by
  induction nodes with
  | nil => rfl
  | cons node rest ih =>
    obtain ⟨⟨base, hRole⟩, hRest⟩ := List.forall_mem_cons.mp h
    by_cases hName : node.typeName = name
    · simp [Node.baseFor, hName, hRole, Role.base?]
    · simp [Node.baseFor, hName, ih hRest]

theorem Outline.role_of_lastType? {outline : Outline} {name : String} {node : Node}
    (h : outline.lastType? name = some node) : ∃ base, node.role = .definition base :=
  role_of_mem_definitions (List.mem_reverse.mp (List.mem_of_find?_eq_some h))

/-- The last base of a name is that of its last definition. -/
theorem Outline.getLast?_basesOf (outline : Outline) (name : String) :
    (outline.basesOf name).getLast? = (outline.lastType? name).bind (·.role.base?) := by
  have hRoles : ∀ node ∈ outline.definitions.reverse, ∃ base, node.role = .definition base :=
    fun node hNode => role_of_mem_definitions (List.mem_reverse.mp hNode)
  rw [basesOf, List.getLast?_filterMap, findSome?_baseFor hRoles, lastType?]

-- ---------------------------------------------------------------------------
-- Names in the contents
-- ---------------------------------------------------------------------------

def Header.names : Header → List String
  | .element name => [name]
  | .definition name base => [name, base]

def Entry.names : Entry → List String
  | .delegate d => [d.target]
  | _ => []

namespace Contents

/-- The type names of some contents, at any depth. -/
def names : Contents → List String
  | nil => []
  | entry first rest => first.names ++ rest.names
  | node header _ inside rest => header.names ++ inside.names ++ rest.names

/-- The targets of delegates, entry by entry. -/
theorem mem_delegates_entry {entry : Entry} {rest : Contents} {name : String} :
    (∃ d ∈ (Contents.entry entry rest).delegates, d.target = name) ↔
      name ∈ entry.names ∨ ∃ d ∈ rest.delegates, d.target = name := by
  cases entry <;> simp [delegates, Entry.names, eq_comm]

/-- A name of the contents stands in a node of the listing, or it is the target of a
delegate at the top, which belongs to the node around. -/
theorem mem_names_iff (contents : Contents) (parent i : Nat) (name : String) :
    name ∈ contents.names ↔
      (∃ d ∈ contents.delegates, d.target = name) ∨
        ∃ node ∈ contents.nodes parent i, node.Names name := by
  induction contents generalizing parent i with
  | nil => simp [names, delegates, nodes]
  | entry entry rest ih =>
    rw [names, List.mem_append, ih parent i, mem_delegates_entry, nodes, or_assoc]
  | node header line inside rest ihInside ihRest =>
    have hOpened : Node.Names name (inside.fill (i + 1)
        { typeName := header.typeName, role := header.role, parent := some parent, line }) ↔
          name ∈ header.names ∨ ∃ d ∈ inside.delegates, d.target = name := by
      cases header <;>
        simp [Node.Names, fill, Header.names, Header.typeName, Header.role, eq_comm, or_assoc]
    rw [names, List.mem_append, List.mem_append, ihInside i (i + 1),
      ihRest parent (i + (inside.size + 1)), nodes]
    simp only [delegates, List.cons_append, List.exists_mem_cons_iff, hOpened, List.mem_append,
      or_and_right, exists_or]
    exact iff_of_eq (by ac_rfl)

/-- The names of a document are those of its outline. -/
theorem mem_names_iff_outline {ts : List Token} {contents : Contents}
    (h : contents.Derives .document ts) (name : String) :
    name ∈ contents.names ↔ contents.outline.Names name := by
  rw [mem_names_iff contents 0 1 name, (entries_of_document h).2.2]
  simp [Outline.Names, outline]

end Contents

namespace Editor

-- ---------------------------------------------------------------------------
-- Names in the table
-- ---------------------------------------------------------------------------

namespace TypeTable

variable {table : TypeTable} {name : String}

/-- A name is known if it has an entry. -/
theorem isSome_find?_iff : (table.find? name).isSome ↔ name ∈ table.map Prod.fst := by
  induction table with
  | nil => simp [find?]
  | cons first rest ih =>
    obtain ⟨key, known⟩ := first
    by_cases hKey : name = key <;> simp [find?, hKey, ih]

/-- Entering a name adds it and keeps all others. -/
theorem mem_keys_foldl_record (h : table.Sorted) (entries : List (String × Option String)) :
    name ∈ (entries.foldl (fun table entry => table.record entry.1 entry.2) table).map Prod.fst ↔
      name ∈ entries.map Prod.fst ∨ name ∈ table.map Prod.fst := by
  induction entries generalizing table with
  | nil => simp
  | cons entry rest ih =>
    have hEntered : name ∈ (table.record entry.1 entry.2).map Prod.fst ↔
        name = entry.1 ∨ name ∈ table.map Prod.fst := by
      rw [← isSome_find?_iff, find?_record h, ← isSome_find?_iff]
      by_cases hName : name = entry.1 <;> simp [hName]
    rw [List.foldl_cons, ih (sorted_record h), hEntered, List.map_cons, List.mem_cons]
    tauto

end TypeTable

section Tokens

variable {name : String} {ts us : List Token}

/-- The tokens have a type name. -/
def HasElement (name : String) (ts : List Token) : Prop :=
  ∃ t ∈ ts, t.kind = .element name

/-- An id is given that is a type name. -/
def GivesId (name : String) (ts : List Token) : Prop :=
  ∃ key colon value, [key, colon, value] <:+: ts ∧ key.kind = .expression "id" ∧
    colon.kind = .colon ∧ value.kind = .element name

/-- No semicolon stands directly before or behind the mark of a base. -/
def BareMarks (ts : List Token) : Prop :=
  ts.IsChain fun t u =>
    ¬(t.kind = .semicolon ∧ u.kind = .isA) ∧ ¬(t.kind = .isA ∧ u.kind = .semicolon)

instance (ts : List Token) : Decidable (BareMarks ts) :=
  inferInstanceAs (Decidable (List.IsChain _ _))

theorem GivesId.mono (h : GivesId name ts) (hInfix : ts <:+: us) : GivesId name us := by
  obtain ⟨key, colon, value, hEntry, hKinds⟩ := h
  exact ⟨key, colon, value, hEntry.trans hInfix, hKinds⟩

/-- An id that looks like a type is among the names of types. -/
theorem GivesId.hasElement (h : GivesId name ts) : HasElement name ts := by
  obtain ⟨key, colon, value, hEntry, -, -, hValue⟩ := h
  exact ⟨value, hEntry.subset (by simp), hValue⟩

/-- Without semicolons beside `@` no definition is divided. -/
theorem BareMarks.undivided (h : BareMarks ts) (name : String) : Undivided name ts := by
  intro t s₁ mark s₂ hInfix _ hMark hs₁ hs₂
  have hChain := h.infix hInfix
  constructor
  · rcases List.eq_nil_or_concat' s₁ with rfl | ⟨front, last, rfl⟩
    · rfl
    · have hPair : [last, mark] <:+: t :: (front ++ [last]) ++ mark :: s₂ :=
        ⟨t :: front, s₂, by simp⟩
      have hBare := List.isChain_pair.mp <| hChain.infix hPair
      exact absurd ⟨hs₁ last (by simp), hMark⟩ hBare.1
  · cases s₂ with
    | nil => rfl
    | cons first s₂ =>
      have hPair : [mark, first] <:+: t :: s₁ ++ mark :: first :: s₂ := ⟨t :: s₁, s₂, by simp⟩
      have hBare := List.isChain_pair.mp <| hChain.infix hPair
      exact absurd ⟨hMark, hs₂ first List.mem_cons_self⟩ hBare.2

/-- The names in the table are those of all tokens of type names. -/
theorem mem_typeNames_iff : name ∈ (typeNames ts).map Prod.fst ↔ HasElement name ts := by
  fun_induction typeNames ts with
  | case1 => simp [HasElement]
  | case2 other line context rest ih =>
    simp only [HasElement] at ih
    simp [HasElement, ih, eq_comm]
  | case3 t rest hOther ih =>
    have hKind : t.kind ≠ .element name := fun hKind => hOther name t.line t.context (hKind ▸ rfl)
    simp only [HasElement] at ih
    simp [HasElement, ih, hKind]

theorem mem_keys_knownTypes_iff (text name : String) :
    name ∈ (knownTypes text).map Prod.fst ↔ HasElement name (Token.tokenize text) := by
  unfold knownTypes
  rw [TypeTable.mem_keys_foldl_record List.Pairwise.nil, mem_typeNames_iff]
  simp

-- ---------------------------------------------------------------------------
-- Names along a derivation
-- ---------------------------------------------------------------------------

theorem hasElement_append :
    HasElement name (ts ++ us) ↔ HasElement name ts ∨ HasElement name us := by
  simp only [HasElement, List.mem_append, or_and_right, exists_or]

/-- An element among semicolons is none of them. -/
theorem not_hasElement_semicolons (hs : Semicolons ts) : ¬HasElement name ts := by
  rintro ⟨t, hMem, hKind⟩
  exact absurd (hs t hMem) (by simp [hKind])

theorem hasElement_cons {t : Token} :
    HasElement name (t :: ts) ↔ t.kind = .element name ∨ HasElement name ts := by
  simp only [HasElement, List.exists_mem_cons_iff]

/-- A header has the names of its tokens. -/
theorem hasElement_header {hs : List Token} {header : Header} (h : header.Derives hs) :
    HasElement name hs ↔ name ∈ header.names := by
  cases h with
  | element hName hs =>
    simp [hasElement_cons, not_hasElement_semicolons hs, hName, Header.names, eq_comm]
  | definition hName hs₁ hIsA hs₂ hBase hs₃ =>
    simp [hasElement_append, hasElement_cons, not_hasElement_semicolons hs₁,
      not_hasElement_semicolons hs₂, not_hasElement_semicolons hs₃, hName, hIsA, hBase,
      Header.names, eq_comm]

/-- The value of an entry is the target of a delegate or an id. -/
theorem hasElement_entry {es : List Token} {entry : Entry} (h : entry.Derives es) :
    HasElement name es ↔ name ∈ entry.names ∨ GivesId name es := by
  refine ⟨fun hElement => ?_, fun hEither => hEither.elim (fun hMem => ?_) GivesId.hasElement⟩
  · cases h with
    | @mk key colon value _ _ hKey _ hColon hMade =>
      -- of the three tokens only the value can be an element
      have hValue : value.kind = .element name := by
        simpa [HasElement, hKey, hColon] using hElement
      cases hMade with
      | id hName _ _ =>
        exact .inr ⟨key, colon, value, List.infix_rfl, hName ▸ hKey, hColon, hValue⟩
      | property _ hKind => exact absurd hKind (by simp [hValue])
      | delegate _ hKind =>
        obtain rfl := Token.Kind.element.inj (hValue.symm.trans hKind)
        exact .inl List.mem_cons_self
  · cases h with
    | mk _ _ _ hMade =>
      cases hMade with
      | id => exact absurd hMem List.not_mem_nil
      | property => exact absurd hMem List.not_mem_nil
      | delegate _ hKind =>
        obtain rfl := List.mem_singleton.mp hMem
        exact ⟨_, by simp, hKind⟩

/-- A name among the tokens of some contents is one of theirs, or an id. -/
theorem mem_names_of_hasElement {scope : Scope} {contents : Contents}
    (h : contents.Derives scope ts) (hElement : HasElement name ts) :
    name ∈ contents.names ∨ GivesId name ts := by
  induction h with
  | nil => exact absurd hElement (by simp [HasElement])
  | @semicolon _ t ts _ hKind _ ih =>
    have hLater : HasElement name ts := by simpa [hasElement_cons, hKind] using hElement
    exact (ih hLater).imp_right (·.mono (List.suffix_cons t ts).isInfix)
  | @entry es ts _ _ hEntry _ ih =>
    rw [Contents.names, List.mem_append]
    rcases hasElement_append.mp hElement with hHere | hLater
    · exact ((hasElement_entry hEntry).mp hHere).imp .inl
        (·.mono (List.prefix_append es ts).isInfix)
    · exact (ih hLater).imp .inr (·.mono (List.suffix_append es ts).isInfix)
  | @node _ hs body ts start stop header inside rest hHeader hStart _ hStop _ ihInside ihRest =>
    rw [Contents.names, List.mem_append, List.mem_append]
    simp only [hasElement_append, hasElement_cons, hStart, hStop, reduceCtorEq,
      false_or] at hElement
    rcases hElement with hHere | hInside | hLater
    · exact .inl (.inl (.inl ((hasElement_header hHeader).mp hHere)))
    · exact (ihInside hInside).imp (fun hMem => .inl (.inr hMem))
        (·.mono ⟨hs ++ [start], stop :: ts, by simp⟩)
    · exact (ihRest hLater).imp .inr
        (·.mono ⟨hs ++ start :: (body ++ [stop]), [], by simp⟩)

/-- The names of some contents stand among their tokens. -/
theorem hasElement_of_mem_names {scope : Scope} {contents : Contents}
    (h : contents.Derives scope ts) (hMem : name ∈ contents.names) : HasElement name ts := by
  induction h with
  | nil => exact absurd hMem List.not_mem_nil
  | semicolon _ _ ih => exact hasElement_cons.mpr (.inr (ih hMem))
  | entry hEntry _ ih =>
    rcases List.mem_append.mp hMem with hHere | hLater
    · exact hasElement_append.mpr (.inl ((hasElement_entry hEntry).mpr (.inl hHere)))
    · exact hasElement_append.mpr (.inr (ih hLater))
  | node hHeader _ _ _ _ ihInside ihRest =>
    simp only [hasElement_append, hasElement_cons]
    rcases List.mem_append.mp hMem with hFront | hLater
    · rcases List.mem_append.mp hFront with hHere | hInside
      · exact .inl ((hasElement_header hHeader).mpr hHere)
      · exact .inr (.inr (.inl (ihInside hInside)))
    · exact .inr (.inr (.inr (.inr (ihRest hLater))))

end Tokens

-- ---------------------------------------------------------------------------
-- The table and the outline
-- ---------------------------------------------------------------------------

/-- The table of a document with an outline. Its names are those that stand in the
outline and the ids that are type names. A name has a base exactly when it has
a definition, and the base is that of the last one. -/
theorem knownTypes_iff_outline {text : String} {outline : Outline}
    (hParse : Outline.parse text = .ok outline) (hBare : BareMarks (Token.tokenize text))
    (name : String) :
    (name ∈ (knownTypes text).map Prod.fst ↔
      outline.Names name ∨ GivesId name (Token.tokenize text)) ∧
    (∀ base, (knownTypes text).find? name = some (some base) ↔
      ∃ node, outline.lastType? name = some node ∧ node.role = .definition base) ∧
    ((knownTypes text).find? name = some none ↔
      name ∈ (knownTypes text).map Prod.fst ∧ outline.lastType? name = none) := by
  have hKeys : name ∈ (knownTypes text).map Prod.fst ↔
      outline.Names name ∨ GivesId name (Token.tokenize text) := by
    obtain ⟨contents, hDerives, rfl⟩ := Outline.derives_of_build hParse
    rw [mem_keys_knownTypes_iff, ← Contents.mem_names_iff_outline hDerives]
    refine ⟨mem_names_of_hasElement hDerives, ?_⟩
    rintro (hMem | hId)
    · exact hasElement_of_mem_names hDerives hMem
    · exact hId.hasElement
  -- the table keeps the base that was read last, and bare marks make the reader see every base
  have hBase : ((knownTypes text).find? name).join =
      (outline.lastType? name).bind (·.role.base?) := by
    rw [← Outline.getLast?_basesOf, ← (basesIn_of_parse hParse name).2 (hBare.undivided name),
      ← base?_knownTypes, TypeTable.base?]
  refine ⟨hKeys, ?_⟩
  rw [← TypeTable.isSome_find?_iff]
  cases hLast : outline.lastType? name with
  | none =>
    rw [hLast] at hBase
    cases hFind : (knownTypes text).find? name <;> simp_all
  | some node =>
    obtain ⟨base, hRole⟩ := Outline.role_of_lastType? hLast
    have hFind : (knownTypes text).find? name = some (some base) := by
      simpa [hLast, hRole, Role.base?, Option.join_eq_some_iff] using hBase
    simp [hFind, hRole]

/-- A definition inside another of the same name, and an id that does not last. -/
def nestedSource : String :=
  "Badge @ Label \x7b\n    id: Tag\n    id: tag\n    delegate: Row\n" ++
    "    Badge @ Panel \x7b\n    \x7d\n\x7d\n"

def innerBadge : Node where
  typeName := "Badge"
  role := .definition "Panel"
  parent := some 1
  line := 5

def nestedOutline : Outline where
  nodes := #[
    { Node.root with types := [1] },
    { id := some "tag", typeName := "Badge", role := .definition "Label", parent := some 0,
      types := [2], delegates := [{ name := "delegate", target := "Row", line := 4 }], line := 1 },
    innerBadge]

/-- A base, a definition and an element inside each other. -/
theorem knownTypes_iff_outline_nested :
    Outline.parse nestedSource = .ok nestedOutline ∧ BareMarks (Token.tokenize nestedSource) ∧
      "Tag" ∈ (knownTypes nestedSource).map Prod.fst ∧
      (knownTypes nestedSource).find? "Badge" = some (some "Panel") ∧
      (knownTypes nestedSource).find? "Row" = some none := by
  have hParse : Outline.parse nestedSource = .ok nestedOutline := by decide +kernel
  have hBare : BareMarks (Token.tokenize nestedSource) := by decide +kernel
  have hId : GivesId "Tag" (Token.tokenize nestedSource) :=
    ⟨{ kind := .expression "id", line := 2, context := "id: Tag" },
      { kind := .colon, line := 2, context := ": Tag" },
      { kind := .element "Tag", line := 2, context := "Tag" }, by decide +kernel, rfl, rfl, rfl⟩
  have hLast : nestedOutline.lastType? "Badge" = some innerBadge := by decide +kernel
  have hRow : nestedOutline.Names "Row" :=
    ⟨_, List.mem_cons_self, .inr (.inr ⟨_, List.mem_cons_self, rfl⟩)⟩
  have hNone : nestedOutline.lastType? "Row" = none := by decide +kernel
  obtain ⟨hTagKey, -⟩ := knownTypes_iff_outline hParse hBare "Tag"
  obtain ⟨-, hBadge, -⟩ := knownTypes_iff_outline hParse hBare "Badge"
  obtain ⟨hRowKey, -, hRowBase⟩ := knownTypes_iff_outline hParse hBare "Row"
  exact ⟨hParse, hBare, hTagKey.mpr (.inr hId), (hBadge "Panel").mpr ⟨innerBadge, hLast, rfl⟩,
    hRowBase.mpr ⟨hRowKey.mpr (.inl hRow), hNone⟩⟩

end Editor

end BindingMarkup
