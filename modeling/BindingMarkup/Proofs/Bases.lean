import BindingMarkup.Editor.Completion
import BindingMarkup.Editor.Hover
import BindingMarkup.Proofs.Grammar

/-!
# BindingMarkup — what a type extends

The editor answers this question in two ways. Over a name it looks for the
first definition of that name in the outline; among its offers it shows
the base that the table of known types has, and this table is read off the
tokens, where only a name, a mark and a base side by side count and the
last such group decides.

* `base?_foldl_record` — a table has the base that was entered last.
* `finds_of_derives` — the groups among the tokens of a document are
  definitions of it, in order, and all of them if no semicolon stands
  beside a mark (`Undivided`).
* `knownTypes_of_parse` — what follows for the two answers. A name without
  a definition has no base in the table. A name whose definitions are
  undivided has the base of the last one, so both answers are the same
  where its definitions agree.
-/

namespace BindingMarkup

-- ---------------------------------------------------------------------------
-- The definitions of a name
-- ---------------------------------------------------------------------------

/-- The base that a node gives a name. -/
def Node.baseFor (name : String) (node : Node) : Option String :=
  if node.typeName = name then node.role.base? else none

/-- The bases of the definitions of a name, in the order of the document. -/
def Outline.basesOf (outline : Outline) (name : String) : List String :=
  outline.definitions.filterMap (Node.baseFor name)

def Header.basesOf (name : String) : Header → List String
  | .element _ => []
  | .definition other base => if other = name then [base] else []

def Contents.basesOf (name : String) : Contents → List String
  | nil => []
  | entry _ rest => rest.basesOf name
  | node header _ inside rest =>
    header.basesOf name ++ inside.basesOf name ++ rest.basesOf name

/-- The bases of a name, read off all nodes at once. -/
theorem Outline.basesOf_eq (outline : Outline) (name : String) :
    outline.basesOf name = outline.nodes.toList.filterMap (Node.baseFor name) := by
  unfold basesOf definitions
  rw [List.filterMap_filter]
  congr 1
  funext node
  cases hBase : node.role.base? <;> simp [Node.baseFor, hBase]

theorem Outline.role_of_mem_definitions {outline : Outline} {node : Node}
    (h : node ∈ outline.definitions) : ∃ base, node.role = .definition base := by
  have hBase : node.role.base?.isSome := by simpa using (List.mem_filter.mp h).2
  cases hRole : node.role <;> simp_all [Role.base?]

/-- The definitions in the listing are those of the contents, in the same order. -/
theorem Contents.filterMap_nodes (name : String) (contents : Contents) (parent i : Nat) :
    (contents.nodes parent i).filterMap (Node.baseFor name) = contents.basesOf name := by
  induction contents generalizing parent i with
  | nil => rfl
  | entry _ _ ih => exact ih parent i
  | node header line inside rest ihInside ihRest =>
    rw [nodes, List.filterMap_append, List.filterMap_cons, ihInside, ihRest, basesOf]
    cases header with
    | element other => simp [Node.baseFor, fill, Header.role, Role.base?, Header.basesOf]
    | definition other base =>
      by_cases hName : other = name <;>
        simp [Node.baseFor, fill, Header.role, Header.typeName, Role.base?, Header.basesOf, hName]

theorem Contents.basesOf_outline (contents : Contents) (name : String) :
    contents.outline.basesOf name = contents.basesOf name := by
  have hRoot : Node.baseFor name (contents.fill 1 Node.root) = none := by
    simp [Node.baseFor, fill, Node.root, Role.base?]
  rw [Outline.basesOf_eq, outline, List.filterMap_cons, hRoot]
  exact filterMap_nodes name contents 0 1

namespace Editor

-- ---------------------------------------------------------------------------
-- Tables
-- ---------------------------------------------------------------------------

/-- The base that an entry has for a name. -/
def baseFor (name : String) (entry : String × Option String) : Option String :=
  if entry.1 = name then entry.2 else none

namespace TypeTable

variable {table : TypeTable} {name other key : String} {base known : Option String}

/-- The names are in order, each of them once. -/
def Sorted (table : TypeTable) : Prop :=
  table.Pairwise fun a b => a.1 < b.1

/-- The base of a name, if it is known and has one. -/
def base? (table : TypeTable) (name : String) : Option String :=
  (table.find? name).join

/-- What comes before the first name comes before all names. -/
theorem Sorted.forall_lt {rest : TypeTable} (h : Sorted ((key, known) :: rest))
    (hBefore : name < key) : ∀ entry ∈ (key, known) :: rest, name < entry.1 := by
  intro entry hEntry
  rcases List.mem_cons.mp hEntry with rfl | hLater
  · exact hBefore
  · exact String.lt_trans hBefore ((List.pairwise_cons.mp h).1 entry hLater)

/-- A record adds no entry for another name. -/
theorem mem_record {entry : String × Option String} (h : entry ∈ table.record name base) :
    entry.1 = name ∨ entry ∈ table := by
  induction table with
  | nil => exact .inl (by simp_all [record])
  | cons first rest ih =>
    obtain ⟨key, known⟩ := first
    rw [record] at h
    split at h
    · next hKey =>
      rcases List.mem_cons.mp h with rfl | hRest
      · exact .inl hKey.symm
      · exact .inr (List.mem_cons_of_mem _ hRest)
    · split at h
      · rcases List.mem_cons.mp h with rfl | hRest
        · exact .inl rfl
        · exact .inr hRest
      · rcases List.mem_cons.mp h with rfl | hRest
        · exact .inr List.mem_cons_self
        · exact (ih hRest).imp_right (List.mem_cons_of_mem _)

/-- A record keeps the names in order, each once. -/
theorem sorted_record (h : table.Sorted) : (table.record name base).Sorted := by
  induction table with
  | nil => simp [record, Sorted]
  | cons first rest ih =>
    obtain ⟨key, known⟩ := first
    obtain ⟨hFirst, hRest⟩ := List.pairwise_cons.mp h
    rw [record]
    split
    · exact List.pairwise_cons.mpr ⟨hFirst, hRest⟩
    · next hKey =>
      split
      · next hBefore => exact List.pairwise_cons.mpr ⟨h.forall_lt hBefore, h⟩
      · next hBehind =>
        refine List.pairwise_cons.mpr ⟨fun entry hEntry => ?_, ih hRest⟩
        -- what comes behind the first entry now is the new name or was there before
        rcases mem_record hEntry with hName | hLater
        · rw [hName]
          exact Std.lt_of_le_of_ne (String.not_lt.mp hBehind) (Ne.symm hKey)
        · exact hFirst entry hLater

/-- Nothing is found for a name that comes before all others. -/
theorem find?_eq_none (h : ∀ entry ∈ table, name < entry.1) : table.find? name = none := by
  induction table with
  | nil => rfl
  | cons first rest ih =>
    obtain ⟨key, known⟩ := first
    have hKey : name < key := h (key, known) List.mem_cons_self
    have hNe : name ≠ key := fun hEq => String.lt_irrefl key (hEq ▸ hKey)
    rw [find?, if_neg hNe]
    exact ih fun entry hEntry => h entry (List.mem_cons_of_mem _ hEntry)

/-- A new base replaces the one known before, and no other name is touched. -/
theorem find?_record (h : table.Sorted) :
    (table.record name base).find? other =
      if other = name then some (base.or (table.base? name)) else table.find? other := by
  induction table with
  | nil => simp [record, find?, base?]
  | cons first rest ih =>
    obtain ⟨key, known⟩ := first
    rw [record]
    split
    · next hKey =>
      subst hKey
      by_cases hOther : other = name <;> simp [find?, base?, hOther]
    · next hKey =>
      split
      · next hBefore =>
        -- the names behind are larger, so this one was not known
        have hNone : find? name ((key, known) :: rest) = none :=
          find?_eq_none (h.forall_lt hBefore)
        rw [base?, hNone, find?]
        simp
      · rw [find?, ih (List.pairwise_cons.mp h).2]
        by_cases hOther : other = name
        · simp [hOther, hKey, base?, find?]
        · simp [hOther, find?]

/-- A record replaces the base of its own name only, and only by a base. -/
theorem base?_record (h : table.Sorted) :
    (table.record name base).base? other =
      (baseFor other (name, base)).or (table.base? other) := by
  rw [base?, find?_record h, baseFor]
  by_cases hOther : other = name
  · simp [hOther]
  · simp [hOther, Ne.symm hOther, base?]

/-- The base of a name is the last that was entered for it. -/
theorem base?_foldl_record (h : table.Sorted) (entries : List (String × Option String)) :
    base? (entries.foldl (fun table entry => table.record entry.1 entry.2) table) name =
      ((entries.filterMap (baseFor name)).getLast?).or (table.base? name) := by
  induction entries generalizing table with
  | nil => rfl
  | cons entry rest ih =>
    rw [List.foldl_cons, ih (sorted_record h), base?_record h, List.filterMap_cons]
    cases baseFor name entry with
    | none => simp
    | some base => simp [List.getLast?_cons]

/-- A base that is found was recorded. -/
theorem mem_of_base? {base : String} (h : table.base? name = some base) :
    (name, some base) ∈ table := by
  induction table with
  | nil => exact absurd h (by simp [base?, find?])
  | cons first rest ih =>
    obtain ⟨key, known⟩ := first
    rw [base?, find?] at h
    split at h
    · next hKey =>
      obtain rfl : known = some base := h
      exact hKey ▸ List.mem_cons_self
    · exact List.mem_cons_of_mem _ (ih h)

/-- With the names in order, an entry is what is found under its name. -/
theorem find?_of_mem (hSorted : table.Sorted) (h : (name, base) ∈ table) :
    table.find? name = some base := by
  induction table with
  | nil => exact absurd h List.not_mem_nil
  | cons first rest ih =>
    obtain ⟨key, known⟩ := first
    obtain ⟨hFirst, hRest⟩ := List.pairwise_cons.mp hSorted
    rw [find?]
    rcases List.mem_cons.mp h with hEq | hLater
    · obtain ⟨rfl, rfl⟩ := Prod.mk.inj hEq
      rw [if_pos rfl]
    · -- the names come in order, so the first entry has another one
      have hNe : name ≠ key := fun hEq => String.lt_irrefl name (hEq ▸ hFirst (name, base) hLater)
      rw [if_neg hNe]
      exact ih hRest hLater

theorem sorted_foldl_record (h : table.Sorted) (entries : List (String × Option String)) :
    Sorted (entries.foldl (fun table entry => table.record entry.1 entry.2) table) := by
  induction entries generalizing table with
  | nil => exact h
  | cons entry rest ih => exact ih (sorted_record h)

end TypeTable

-- ---------------------------------------------------------------------------
-- Tokens
-- ---------------------------------------------------------------------------

section Tokens

variable {name : String} {t : Token} {ts us : List Token}

/-- The bases that the tokens give a name, in order. -/
def basesIn (name : String) (ts : List Token) : List String :=
  (typeNames ts).filterMap (baseFor name)

/-- The tokens do not begin with the mark of a base. -/
def BeginsPlain (ts : List Token) : Prop :=
  ∀ t ∈ ts.head?, t.kind ≠ .isA

/-- No semicolon stands beside the mark of a base in a definition of the name. -/
def Undivided (name : String) (ts : List Token) : Prop :=
  ∀ t s₁ mark s₂, t :: s₁ ++ mark :: s₂ <:+: ts → t.kind = .element name → mark.kind = .isA →
    Semicolons s₁ → Semicolons s₂ → s₁ = [] ∧ s₂ = []

theorem Undivided.of_infix (h : Undivided name us) (hInfix : ts <:+: us) : Undivided name ts :=
  fun t s₁ mark s₂ hHeader => h t s₁ mark s₂ (hHeader.trans hInfix)

/-- Without semicolons no definition is divided. -/
theorem undivided_of_forall_ne (h : ∀ t ∈ ts, t.kind ≠ .semicolon) : Undivided name ts := by
  intro t s₁ mark s₂ hInfix _ _ hs₁ hs₂
  constructor
  · refine List.eq_nil_iff_forall_not_mem.mpr fun u hu => ?_
    exact h u (hInfix.subset (by simp [hu])) (hs₁ u hu)
  · refine List.eq_nil_iff_forall_not_mem.mpr fun u hu => ?_
    exact h u (hInfix.subset (by simp [hu])) (hs₂ u hu)

/-- No base follows where the tokens do not go on with `@`. -/
theorem baseAhead?_eq_none (h : BeginsPlain ts) : baseAhead? ts = none := by
  unfold baseAhead?
  split
  · exact absurd rfl (h _ rfl)
  · rfl

/-- A token contributes a base if it has the name and a base follows. -/
theorem basesIn_cons (name : String) (t : Token) (ts : List Token) :
    basesIn name (t :: ts) =
      (if t.kind = .element name then (baseAhead? ts).toList else []) ++ basesIn name ts := by
  obtain ⟨kind, line, context⟩ := t
  cases kind with
  | element other =>
    by_cases hName : other = name
    · cases hAhead : baseAhead? ts <;> simp [basesIn, typeNames, baseFor, hName, hAhead]
    · simp [basesIn, typeNames, baseFor, hName]
  | _ => simp [basesIn, typeNames]

theorem basesIn_cons_of_ne (h : ∀ name, t.kind ≠ .element name) :
    basesIn name (t :: ts) = basesIn name ts := by
  rw [basesIn_cons, if_neg (h name), List.nil_append]

theorem basesIn_cons_of_beginsPlain (h : BeginsPlain ts) :
    basesIn name (t :: ts) = basesIn name ts := by
  rw [basesIn_cons, baseAhead?_eq_none h]
  simp

/-- Semicolons contribute nothing. -/
theorem basesIn_semicolons (hs : Semicolons us) : basesIn name (us ++ ts) = basesIn name ts := by
  induction us with
  | nil => rfl
  | cons u us ih =>
    have hKind : ∀ name, u.kind ≠ .element name := by simp [hs u List.mem_cons_self]
    rw [List.cons_append, basesIn_cons_of_ne hKind]
    exact ih fun v hv => hs v (List.mem_cons_of_mem u hv)

theorem beginsPlain_semicolons (hs : Semicolons us) (h : BeginsPlain ts) :
    BeginsPlain (us ++ ts) := by
  cases us with
  | nil => exact h
  | cons u us =>
    rintro v ⟨⟩
    simp [hs u List.mem_cons_self]

/-- The base of a name is found where nothing divides the header. -/
theorem baseAhead?_header {mark b : Token} {s₁ s₂ : List Token} {base : String}
    (hs₁ : Semicolons s₁) (hMark : mark.kind = .isA) (hs₂ : Semicolons s₂)
    (hBase : b.kind = .element base) :
    baseAhead? (s₁ ++ mark :: (s₂ ++ b :: ts)) = if s₁ = [] ∧ s₂ = [] then some base else none := by
  obtain ⟨kind, line, context⟩ := mark
  obtain ⟨baseKind, baseLine, baseContext⟩ := b
  obtain rfl : kind = .isA := hMark
  obtain rfl : baseKind = .element base := hBase
  -- a semicolon on either side of `@` hides the base
  cases s₁ with
  | cons u s₁ =>
    have hKind : u.kind = .semicolon := hs₁ u List.mem_cons_self
    rw [if_neg (by simp)]
    refine baseAhead?_eq_none ?_
    rintro v ⟨⟩
    simp [hKind]
  | nil =>
    cases s₂ with
    | nil => rfl
    | cons u s₂ =>
      obtain ⟨kind, line, context⟩ := u
      obtain rfl : kind = .semicolon := hs₂ _ List.mem_cons_self
      simp [baseAhead?]

end Tokens

-- ---------------------------------------------------------------------------
-- Documents
-- ---------------------------------------------------------------------------

section Documents

variable {name : String} {ts us vs : List Token} {bases more : List String}

/-- Some of the bases are found among the tokens `ts`, with `us` behind them; all of
them, if no definition of the name is divided. -/
def Finds (name : String) (ts us : List Token) (bases : List String) : Prop :=
  ∃ found, basesIn name (ts ++ us) = found ++ basesIn name us ∧ found.Sublist bases ∧
    (Undivided name ts → found = bases)

namespace Finds

theorem of_basesIn_eq (h : basesIn name (ts ++ us) = basesIn name us) : Finds name ts us [] :=
  ⟨[], h, List.Sublist.refl [], fun _ => rfl⟩

/-- What two parts contribute, one behind the other. -/
theorem append (hFirst : Finds name ts (vs ++ us) bases) (hSecond : Finds name vs us more) :
    Finds name (ts ++ vs) us (bases ++ more) := by
  obtain ⟨found, hFound, hSome, hAll⟩ := hFirst
  obtain ⟨found', hFound', hSome', hAll'⟩ := hSecond
  refine ⟨found ++ found', ?_, hSome.append hSome', fun h => ?_⟩
  · rw [List.append_assoc, hFound, hFound', List.append_assoc]
  · rw [hAll (h.of_infix (List.infix_append' [] ts vs)),
      hAll' (h.of_infix (List.suffix_append ts vs).isInfix)]

end Finds

/-- The name in front of a definition is followed by its base, unless the header is
divided. -/
theorem finds_header {hs : List Token} {header : Header} (h : header.Derives hs)
    (hPlain : BeginsPlain us) : Finds name hs us (header.basesOf name) := by
  cases h with
  | element hName hs =>
    refine .of_basesIn_eq ?_
    rw [List.cons_append, basesIn_cons_of_beginsPlain (beginsPlain_semicolons hs hPlain),
      basesIn_semicolons hs]
  | @definition t mark b s₁ s₂ s₃ other base hName hs₁ hMark hs₂ hBase hs₃ =>
    have hRest : basesIn name (s₁ ++ mark :: (s₂ ++ b :: (s₃ ++ us))) = basesIn name us := by
      rw [basesIn_semicolons hs₁, basesIn_cons_of_ne (by simp [hMark]), basesIn_semicolons hs₂,
        basesIn_cons_of_beginsPlain (beginsPlain_semicolons hs₃ hPlain), basesIn_semicolons hs₃]
    -- the base is found only where no semicolon stands on either side of `@`
    have hTokens : basesIn name (t :: s₁ ++ mark :: s₂ ++ b :: s₃ ++ us) =
        (if other = name ∧ s₁ = [] ∧ s₂ = [] then [base] else []) ++ basesIn name us := by
      have hSplit : t :: s₁ ++ mark :: s₂ ++ b :: s₃ ++ us =
          t :: (s₁ ++ mark :: (s₂ ++ b :: (s₃ ++ us))) := by simp
      rw [hSplit, basesIn_cons, hRest, baseAhead?_header hs₁ hMark hs₂ hBase, hName]
      by_cases hOther : other = name <;> by_cases hDivided : s₁ = [] ∧ s₂ = [] <;>
        simp [hOther, hDivided]
    refine ⟨_, hTokens, ?_, fun hUndivided => ?_⟩
    · by_cases hOther : other = name <;> by_cases hDivided : s₁ = [] ∧ s₂ = [] <;>
        simp [Header.basesOf, hOther, hDivided]
    · by_cases hOther : other = name
      · have hNone : s₁ = [] ∧ s₂ = [] :=
          hUndivided t s₁ mark s₂ (List.prefix_append _ _).isInfix (hOther ▸ hName) hMark hs₁ hs₂
        simp [Header.basesOf, hOther, hNone]
      · simp [Header.basesOf, hOther]

/-- Contents begin with a name, a key or a semicolon, but never with `@`. -/
theorem beginsPlain_of_derives {scope : Scope} {contents : Contents}
    (h : contents.Derives scope ts) (hPlain : BeginsPlain us) : BeginsPlain (ts ++ us) := by
  cases h with
  | nil => exact hPlain
  | semicolon hKind _ =>
    rintro t ⟨⟩
    simp [hKind]
  | entry hEntry _ =>
    cases hEntry with
    | mk hKey _ _ _ =>
      rintro t ⟨⟩
      simp [hKey]
  | node hHeader _ _ _ _ =>
    cases hHeader with
    | element hName _ =>
      rintro t ⟨⟩
      simp [hName]
    | definition hName _ _ _ _ _ =>
      rintro t ⟨⟩
      simp [hName]

/-- **The groups among the tokens are the definitions.** What the tokens of some
contents give a name are bases of its definitions, in order. -/
theorem finds_of_derives {scope : Scope} {contents : Contents} (h : contents.Derives scope ts)
    (hPlain : BeginsPlain us) : Finds name ts us (contents.basesOf name) := by
  induction h generalizing us with
  | nil => exact .of_basesIn_eq rfl
  | @semicolon scope t ts contents hKind _ ih =>
    have hMark : Finds name [t] (ts ++ us) [] :=
      .of_basesIn_eq (basesIn_cons_of_ne (by simp [hKind]))
    exact hMark.append (ih hPlain)
  | @entry es ts entry rest hEntry hRest ih =>
    have hAfter : BeginsPlain (ts ++ us) := beginsPlain_of_derives hRest hPlain
    -- the value of an entry may be a type name; what follows it does not begin with `@`
    have hNone : Finds name es (ts ++ us) [] := by
      cases hEntry with
      | mk hKey _ hColon _ =>
        refine .of_basesIn_eq ?_
        rw [List.cons_append, basesIn_cons_of_ne (by simp [hKey]), List.cons_append,
          basesIn_cons_of_ne (by simp [hColon])]
        exact basesIn_cons_of_beginsPlain hAfter
    exact hNone.append (ih hPlain)
  | @node scope hs body ts start stop header inside rest hHeader hStart _ hStop _ ihInside ihRest =>
    have hOpening : Finds name [start] (body ++ stop :: ts ++ us) [] :=
      .of_basesIn_eq (basesIn_cons_of_ne (by simp [hStart]))
    have hClosing : Finds name [stop] (ts ++ us) [] :=
      .of_basesIn_eq (basesIn_cons_of_ne (by simp [hStop]))
    have hBody : Finds name body (stop :: ts ++ us) (inside.basesOf name) :=
      ihInside (by rintro t ⟨⟩; simp [hStop])
    have hFront : Finds name hs (start :: (body ++ stop :: ts) ++ us) (header.basesOf name) :=
      finds_header hHeader (by rintro t ⟨⟩; simp [hStart])
    have hAll := hFront.append (hOpening.append (hBody.append (hClosing.append (ihRest hPlain))))
    simpa [Contents.basesOf] using hAll

end Documents

-- ---------------------------------------------------------------------------
-- The two answers
-- ---------------------------------------------------------------------------

variable {text : String} {outline : Outline}

theorem sorted_knownTypes (text : String) : (knownTypes text).Sorted :=
  TypeTable.sorted_foldl_record List.Pairwise.nil _

/-- The base of a name is the last one among the tokens. -/
theorem base?_knownTypes (text name : String) :
    (knownTypes text).base? name = (basesIn name (Token.tokenize text)).getLast? := by
  unfold knownTypes
  rw [TypeTable.base?_foldl_record List.Pairwise.nil]
  simp [TypeTable.base?, TypeTable.find?, basesIn]

/-- The bases that the table may have are those of definitions. -/
theorem basesIn_of_parse (hParse : Outline.parse text = .ok outline) (name : String) :
    (basesIn name (Token.tokenize text)).Sublist (outline.basesOf name) ∧
      (Undivided name (Token.tokenize text) →
        basesIn name (Token.tokenize text) = outline.basesOf name) := by
  obtain ⟨contents, hDerives, rfl⟩ := Outline.derives_of_build hParse
  have hFinds : Finds name (Token.tokenize text) [] (contents.basesOf name) :=
    finds_of_derives hDerives (by simp [BeginsPlain])
  obtain ⟨found, hFound, hSome, hAll⟩ := hFinds
  have hTokens : basesIn name (Token.tokenize text) = found := by
    simpa [basesIn, typeNames] using hFound
  rw [hTokens, Contents.basesOf_outline]
  exact ⟨hSome, hAll⟩

/-- The bases of a name are those of its definitions. -/
theorem mem_basesOf_iff {name base : String} :
    base ∈ outline.basesOf name ↔
      ∃ node ∈ outline.definitions, node.typeName = name ∧ node.role = .definition base := by
  have hRole (role : Role) : role.base? = some base ↔ role = .definition base := by
    cases role <;> simp [Role.base?]
  simp [Outline.basesOf, Node.baseFor, hRole]

/-- What is found under a name is a definition of that name. -/
theorem findType?_eq_some {name : String} {node : Node} (h : outline.findType? name = some node) :
    node ∈ outline.definitions ∧ node.typeName = name ∧ ∃ base, node.role = .definition base := by
  have hMem := List.mem_of_find?_eq_some h
  have hName : node.typeName = name := by simpa using List.find?_some h
  exact ⟨hMem, hName, Outline.role_of_mem_definitions hMem⟩

/-- A name that is not defined has no bases. -/
theorem basesOf_of_findType?_eq_none {name : String} (h : outline.findType? name = none) :
    outline.basesOf name = [] := by
  refine List.eq_nil_iff_forall_not_mem.mpr fun base hBase => ?_
  obtain ⟨node, hMem, hName, -⟩ := mem_basesOf_iff.mp hBase
  exact absurd hName (by simpa using List.find?_eq_none.mp h node hMem)

/-- The hover text of a name begins with its base. -/
def HoverTells (text name base : String) : Prop :=
  ∃ rest, hoverType text name = some ("**" ++ name ++ "** extends **" ++ base ++ "**" ++ rest)

/-- A name is offered, and every offer of it shows its base. -/
def OffersTell (text name base : String) : Prop :=
  ∀ withBraces, typeItem withBraces name (some base) ∈ typeItems text withBraces ∧
    ∀ item ∈ typeItems text withBraces, item.label = name → item.detail = "extends " ++ base

/-- The editor tells the base of the first definition. -/
theorem hoverTells_of_findType? (hParse : Outline.parse text = .ok outline) {name base : String}
    {node : Node} (h : outline.findType? name = some node) (hRole : node.role = .definition base) :
    HoverTells text name base := by
  have hDefinition : definitionOf? text name = some node := by
    simp only [definitionOf?, hParse, h]
  obtain ⟨-, rfl, -⟩ := findType?_eq_some h
  refine ⟨"\n\n" ++ toString node.properties.length ++ " properties, " ++
    toString node.delegates.length ++ " delegates, " ++ toString node.elements.length ++
    " children · line " ++ toString node.line, ?_⟩
  have hBreak : "**\n\n" = "**" ++ "\n\n" := rfl
  unfold hoverType describeDefinition
  rw [hDefinition]
  simp only [hRole, Role.base?, Option.getD_some, hBreak, String.append_assoc]

/-- The suggestions tell the base that is recorded. -/
theorem offersTell_of_base? {name base : String} (h : (knownTypes text).base? name = some base) :
    OffersTell text name base := by
  intro withBraces
  refine ⟨List.mem_map.mpr ⟨_, TypeTable.mem_of_base? h, rfl⟩, ?_⟩
  intro item hItem hLabel
  obtain ⟨⟨other, known⟩, hKnown, rfl⟩ := List.mem_map.mp hItem
  obtain rfl : other = name := hLabel
  have hFind := TypeTable.find?_of_mem (sorted_knownTypes text) hKnown
  obtain rfl : known = some base := by simpa [TypeTable.base?, hFind] using h
  rfl

/-- A name without a definition has no base in the table, and a base in the table
is that of a definition. Where no definition of a name is divided, its
base is that of the last one; if the definitions agree, the hover text
and the offers show the same base. -/
theorem knownTypes_of_parse (hParse : Outline.parse text = .ok outline) (name : String) :
    (outline.findType? name = none → (knownTypes text).base? name = none) ∧
    (∀ base, (knownTypes text).base? name = some base →
      ∃ node ∈ outline.definitions, node.typeName = name ∧ node.role = .definition base) ∧
    (Undivided name (Token.tokenize text) →
      (knownTypes text).base? name = (outline.basesOf name).getLast? ∧
      ∀ first, outline.findType? name = some first →
        (∀ node ∈ outline.definitions, node.typeName = name → node.role = first.role) →
        ∃ base, first.role = .definition base ∧ (knownTypes text).find? name = some (some base) ∧
          HoverTells text name base ∧ OffersTell text name base) := by
  obtain ⟨hSome, hAll⟩ := basesIn_of_parse hParse name
  have hKnown (base : String) (h : (knownTypes text).base? name = some base) :
      base ∈ outline.basesOf name := by
    rw [base?_knownTypes] at h
    exact hSome.subset (List.mem_of_getLast? h)
  refine ⟨fun hNone => ?_, fun base hBase => mem_basesOf_iff.mp (hKnown base hBase), ?_⟩
  · rw [basesOf_of_findType?_eq_none hNone] at hSome
    rw [base?_knownTypes, List.sublist_nil.mp hSome]
    rfl
  · intro hUndivided
    have hLast : (knownTypes text).base? name = (outline.basesOf name).getLast? := by
      rw [base?_knownTypes, hAll hUndivided]
    refine ⟨hLast, fun first hFirst hSame => ?_⟩
    obtain ⟨hMem, hName, base, hRole⟩ := findType?_eq_some hFirst
    have hNonempty : outline.basesOf name ≠ [] :=
      List.ne_nil_of_mem (mem_basesOf_iff.mpr ⟨first, hMem, hName, hRole⟩)
    rw [List.getLast?_eq_some_getLast hNonempty] at hLast
    obtain ⟨node, hNode, hNodeName, hNodeRole⟩ :=
      mem_basesOf_iff.mp (List.getLast_mem hNonempty)
    -- the first and the last definition have the same role, so the same base
    obtain rfl : base = (outline.basesOf name).getLast hNonempty :=
      Role.definition.inj (hRole.symm.trans ((hSame node hNode hNodeName).symm.trans hNodeRole))
    exact ⟨_, hRole, Option.join_eq_some_iff.mp hLast, hoverTells_of_findType? hParse hFirst hRole,
      offersTell_of_base? hLast⟩

/-- A document with two definitions of one name. -/
def badgeSource : String :=
  "Badge @ Label \x7b\n\x7d\n" ++
    "Card @ Item \x7b\n    Badge @ Label \x7b\n    \x7d\n    Badge \x7b\n    \x7d\n\x7d\n"

def badgeNode : Node where
  typeName := "Badge"
  role := .definition "Label"
  parent := some 0
  line := 1

def badgeOutline : Outline where
  nodes := #[
    { Node.root with types := [1, 2] },
    badgeNode,
    { typeName := "Card", role := .definition "Item", parent := some 0, types := [3],
      elements := [4], line := 3 },
    { badgeNode with parent := some 2, line := 4 },
    { typeName := "Badge", role := .element, parent := some 2, line := 6 }]

theorem knownTypes_of_parse_badge :
    Outline.parse badgeSource = .ok badgeOutline ∧
      Undivided "Badge" (Token.tokenize badgeSource) ∧
      HoverTells badgeSource "Badge" "Label" ∧ OffersTell badgeSource "Badge" "Label" := by
  have hParse : Outline.parse badgeSource = .ok badgeOutline := by decide +kernel
  have hUndivided : Undivided "Badge" (Token.tokenize badgeSource) :=
    undivided_of_forall_ne (by decide +kernel)
  have hSame : ∀ node ∈ badgeOutline.definitions, node.typeName = "Badge" →
      node.role = badgeNode.role := by
    decide +kernel
  obtain ⟨-, -, hBoth⟩ := knownTypes_of_parse hParse "Badge"
  have hFirst : badgeOutline.findType? "Badge" = some badgeNode := by decide +kernel
  obtain ⟨base, hBase, -, hHover, hOffers⟩ := (hBoth hUndivided).2 badgeNode hFirst hSame
  obtain rfl : "Label" = base := Role.definition.inj hBase
  exact ⟨hParse, hUndivided, hHover, hOffers⟩

end Editor

end BindingMarkup
