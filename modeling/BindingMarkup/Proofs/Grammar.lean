import BindingMarkup.Proofs.Draft

/-!
# BindingMarkup — the grammar of documents

The builder reads tokens from left to right and never looks back. Here the
documents it accepts are described by a grammar instead, and the two are
shown to agree on every list of tokens:

    document ::= (node | semicolon)*
    node     ::= header scopeStart body scopeEnd
    header   ::= element s | element s isA s element s
    body     ::= (node | entry | semicolon)*
    entry    ::= expression colon (expression | element)
    s        ::= semicolon*

The name of an entry does not start with a digit, and the value of an `id`
is an identifier. A derivation leaves out the semicolons and keeps the
rest as `Contents`, which has a listing of its own: `Contents.outline`
writes the nodes in the order in which they open, without a builder.

* `foldlM_step_of_derives` — a derivation drives the builder. The draft
  behind it is known in full: the open node has absorbed the contents, and
  the nodes inside stand behind all that was there.
* `closes_of_foldlM_step` — a run that ends with nothing open has a
  derivation. `Closes` says what the open nodes still ask of the tokens to
  come, and `Pending.Reads` which tokens an unfinished header or entry
  stands for.
* `build_eq_ok_iff_derives` — both together.
* `exists_tokens_of_build` — every entry of an outline was made from three
  tokens, a key, a colon and a value.
-/

namespace BindingMarkup

-- ---------------------------------------------------------------------------
-- Contents and their listing
-- ---------------------------------------------------------------------------

/-- The front of a node. -/
inductive Header where
  | element (name : String)
  | definition (name base : String)
  deriving DecidableEq, Repr

def Header.typeName : Header → String
  | .element name => name
  | .definition name _ => name

def Header.role : Header → Role
  | .element _ => .element
  | .definition _ base => .definition base

/-- What a draft remembers of a header. -/
def Header.pending : Header → Pending
  | .element name => .header name
  | .definition name base => .base name base

/-- What stands inside a node or a document, in order. A node carries the line of
its opening brace. -/
inductive Contents where
  | nil
  | entry (entry : Entry) (rest : Contents)
  | node (header : Header) (line : Nat) (inside rest : Contents)
  deriving DecidableEq, Repr

namespace Contents

/-- The number of nodes, at any depth. -/
def size : Contents → Nat
  | nil => 0
  | entry _ rest => rest.size
  | node _ _ inside rest => inside.size + 1 + rest.size

/-- The last id. -/
def id? : Contents → Option String
  | nil => none
  | entry (.id name) rest => rest.id?.or (some name)
  | entry _ rest => rest.id?
  | node _ _ _ rest => rest.id?

/-- The properties at the top, in order. -/
def properties : Contents → List Property
  | nil => []
  | entry (.property p) rest => p :: rest.properties
  | entry _ rest => rest.properties
  | node _ _ _ rest => rest.properties

/-- The delegates at the top, in order. -/
def delegates : Contents → List Delegate
  | nil => []
  | entry (.delegate d) rest => d :: rest.delegates
  | entry _ rest => rest.delegates
  | node _ _ _ rest => rest.delegates

/-- The places of the definitions at the top, when the first node takes place
`i`. -/
def types (i : Nat) : Contents → List Nat
  | nil => []
  | entry _ rest => rest.types i
  | node (.definition _ _) _ inside rest => i :: rest.types (i + (inside.size + 1))
  | node (.element _) _ inside rest => rest.types (i + (inside.size + 1))

/-- The places of the elements at the top, when the first node takes place
`i`. -/
def elements (i : Nat) : Contents → List Nat
  | nil => []
  | entry _ rest => rest.elements i
  | node (.definition _ _) _ inside rest => rest.elements (i + (inside.size + 1))
  | node (.element _) _ inside rest => i :: rest.elements (i + (inside.size + 1))

/-- The node with the contents added to it, when the first node inside takes
place `i`. -/
def fill (contents : Contents) (i : Nat) (node : Node) : Node :=
  { node with
    id := contents.id?.or node.id
    types := node.types ++ contents.types i
    elements := node.elements ++ contents.elements i
    properties := node.properties ++ contents.properties
    delegates := node.delegates ++ contents.delegates }

/-- The nodes in the order in which they open, each before the nodes inside it.
The first takes place `i`, and those at the top stand in the node at `parent`. -/
def nodes (parent i : Nat) : Contents → List Node
  | nil => []
  | entry _ rest => rest.nodes parent i
  | node header line inside rest =>
    inside.fill (i + 1)
        { typeName := header.typeName, role := header.role, parent := some parent, line } ::
      inside.nodes i (i + 1) ++ rest.nodes parent (i + (inside.size + 1))

/-- The outline of a document with the given contents. -/
def outline (contents : Contents) : Outline where
  nodes := (contents.fill 1 Node.root :: contents.nodes 0 1).toArray

@[simp] theorem length_nodes (contents : Contents) (parent i : Nat) :
    (contents.nodes parent i).length = contents.size := by
  induction contents generalizing parent i with
  | nil => rfl
  | entry _ _ ih => exact ih parent i
  | node _ _ inside rest ihInside ihRest =>
    simp only [nodes, size, List.cons_append, List.length_cons, List.length_append, ihInside,
      ihRest]
    omega

@[simp] theorem fill_nil (i : Nat) : fill nil i = id := by
  funext node
  simp [fill, id?, types, elements, properties, delegates]

/-- An entry is added before what follows it. -/
theorem fill_entry (entry : Entry) (rest : Contents) (i : Nat) :
    fill (.entry entry rest) i = rest.fill i ∘ entry.put := by
  funext node
  cases entry <;>
    simp [fill, id?, types, elements, properties, delegates, Entry.put]

end Contents

-- ---------------------------------------------------------------------------
-- Derivations
-- ---------------------------------------------------------------------------

/-- Any number of semicolons. -/
def Semicolons (ts : List Token) : Prop :=
  ∀ t ∈ ts, t.kind = .semicolon

/-- The tokens of a header. -/
inductive Header.Derives : List Token → Header → Prop where
  | element {t : Token} {s : List Token} {name : String} (hName : t.kind = .element name)
      (hs : Semicolons s) : Derives (t :: s) (.element name)
  | definition {t isA b : Token} {s₁ s₂ s₃ : List Token} {name base : String}
      (hName : t.kind = .element name) (hs₁ : Semicolons s₁) (hIsA : isA.kind = .isA)
      (hs₂ : Semicolons s₂) (hBase : b.kind = .element base) (hs₃ : Semicolons s₃) :
      Derives (t :: s₁ ++ isA :: s₂ ++ b :: s₃) (.definition name base)

/-- The tokens of an entry. -/
inductive Entry.Derives : List Token → Entry → Prop where
  | mk {key colon value : Token} {name : String} {entry : Entry}
      (hKey : key.kind = .expression name)
      (hDigit : name.toList.head?.any Char.isDigit = false) (hColon : colon.kind = .colon)
      (hMade : entry.Made name value) : Derives [key, colon, value] entry

/-- Where contents stand: entries are for nodes only. -/
inductive Scope where
  | document
  | node
  deriving DecidableEq, Repr

/-- The tokens of the contents of a document or a node. -/
inductive Contents.Derives : Scope → List Token → Contents → Prop where
  | nil {scope : Scope} : Derives scope [] .nil
  | semicolon {scope : Scope} {t : Token} {ts : List Token} {contents : Contents}
      (hKind : t.kind = .semicolon) (hRest : Derives scope ts contents) :
      Derives scope (t :: ts) contents
  | entry {es ts : List Token} {entry : Entry} {rest : Contents} (hEntry : entry.Derives es)
      (hRest : Derives .node ts rest) : Derives .node (es ++ ts) (.entry entry rest)
  | node {scope : Scope} {hs body ts : List Token} {start stop : Token} {header : Header}
      {inside rest : Contents} (hHeader : header.Derives hs) (hStart : start.kind = .scopeStart)
      (hInside : Derives .node body inside) (hStop : stop.kind = .scopeEnd)
      (hRest : Derives scope ts rest) :
      Derives scope (hs ++ start :: (body ++ stop :: ts)) (.node header start.line inside rest)

-- ---------------------------------------------------------------------------
-- A derivation drives the builder
-- ---------------------------------------------------------------------------

/-- The node with a new child of the given role at place `i`. -/
def Role.link (role : Role) (i : Nat) (node : Node) : Node :=
  match role with
  | .definition _ => { node with types := node.types ++ [i] }
  | _ => { node with elements := node.elements ++ [i] }

/-- A node is linked before what follows it is added. -/
theorem Contents.fill_node (header : Header) (line : Nat) (inside rest : Contents) (i : Nat) :
    fill (.node header line inside rest) i =
      rest.fill (i + (inside.size + 1)) ∘ header.role.link i := by
  funext node
  cases header <;> simp [fill, id?, types, elements, properties, delegates, Header.role, Role.link]

/-- A change in the front of a list leaves the rest alone. -/
theorem modify_append_of_lt {l m : List Node} {i : Nat} (f : Node → Node) (h : i < l.length) :
    (l ++ m).modify i f = l.modify i f ++ m := by
  induction l generalizing i with
  | nil => exact absurd h (by simp)
  | cons a l ih =>
    cases i with
    | zero => rfl
    | succ i =>
      rw [List.cons_append, List.modify_succ_cons, List.modify_succ_cons, List.cons_append,
        ih (Nat.lt_of_succ_lt_succ h)]

theorem modify_append_cons {l m : List Node} {a : Node} {i : Nat} (f : Node → Node)
    (h : i = l.length) : (l ++ a :: m).modify i f = l ++ f a :: m := by
  subst h
  induction l with
  | nil => rfl
  | cons b l ih => rw [List.cons_append, List.length_cons, List.modify_succ_cons, ih]; rfl

namespace Draft

/-- The draft after the contents of its open node have been read: the node is
filled, and the nodes inside stand behind all others. -/
def absorb (draft : Draft) (contents : Contents) : Draft where
  outline.nodes :=
    (draft.outline.nodes.toList.modify draft.current (contents.fill draft.outline.nodes.size) ++
      contents.nodes draft.current draft.outline.nodes.size).toArray
  current := draft.current
  pending := .nothing

theorem absorb_nil {draft : Draft} (hPending : draft.pending = .nothing) :
    draft.absorb .nil = draft := by
  obtain ⟨⟨nodes⟩, current, pending⟩ := draft
  obtain rfl : pending = .nothing := hPending
  simp [absorb, Contents.nodes]

/-- An entry can be added at once or together with what follows it. -/
theorem absorb_entry (draft : Draft) (entry : Entry) (rest : Contents) :
    (draft.enter entry.put).absorb rest = draft.absorb (.entry entry rest) := by
  simp only [absorb, enter, Array.size_modify, Array.toList_modify, List.modify_modify_eq,
    Contents.fill_entry, Contents.nodes]

/-- A new node is filled with what is inside it, and the node around it is linked
to the new one. -/
theorem absorb_openNode (draft : Draft) (header : Header) (line : Nat) (inside : Contents) :
    ((draft.openNode header.typeName header.role line).absorb inside).outline.nodes.toList =
      draft.outline.nodes.toList.modify draft.current
          (header.role.link draft.outline.nodes.size) ++
        inside.fill (draft.outline.nodes.size + 1)
            { typeName := header.typeName, role := header.role, parent := some draft.current,
              line } ::
          inside.nodes draft.outline.nodes.size (draft.outline.nodes.size + 1) := by
  have hLink : (draft.openNode header.typeName header.role line).outline.nodes =
      (draft.outline.nodes.modify draft.current (header.role.link draft.outline.nodes.size)).push
        { typeName := header.typeName, role := header.role, parent := some draft.current,
          line } := rfl
  have hPlace : (draft.openNode header.typeName header.role line).current =
      draft.outline.nodes.size := rfl
  simp only [absorb, hLink, hPlace, Array.size_push, Array.size_modify, Array.toList_push,
    Array.toList_modify]
  rw [modify_append_cons _ (by simp)]
  simp

/-- A node adds itself and the nodes inside it. -/
theorem size_absorb_openNode (draft : Draft) (header : Header) (line : Nat) (inside : Contents) :
    ((draft.openNode header.typeName header.role line).absorb inside).outline.nodes.size =
      draft.outline.nodes.size + (inside.size + 1) := by
  rw [← Array.length_toList, absorb_openNode]
  simp

/-- Opening a node, reading what is inside, closing it and reading on fills the
outer node with all of it. -/
theorem absorb_node {draft : Draft} (header : Header) (line : Nat) (inside rest : Contents)
    (hCurrent : draft.current < draft.outline.nodes.size) :
    absorb
        { (draft.openNode header.typeName header.role line).absorb inside with
          current := draft.current } rest =
      draft.absorb (.node header line inside rest) := by
  have hNodes := absorb_openNode draft header line inside
  have hSize := size_absorb_openNode draft header line inside
  generalize (draft.openNode header.typeName header.role line).absorb inside = closed
    at hNodes hSize ⊢
  simp only [absorb, hNodes, hSize]
  rw [modify_append_of_lt _ (by simpa using hCurrent), List.modify_modify_eq,
    ← Contents.fill_node header line inside rest]
  simp [Contents.nodes]

/-- The closing brace of a node leads back to the node around it. -/
theorem parent_absorb_openNode (draft : Draft) (header : Header) (line : Nat)
    (inside : Contents) :
    (((draft.openNode header.typeName header.role line).absorb inside).outline.node
      draft.outline.nodes.size).parent = some draft.current := by
  have hNodes := absorb_openNode draft header line inside
  unfold Outline.node
  rw [Array.getD_eq_getD_getElem?, ← Array.getElem?_toList, hNodes,
    List.getElem?_append_right (by simp)]
  simp [Contents.fill]

/-- Semicolons between nodes and entries change nothing. -/
theorem foldlM_step_semicolons {s : List Token} (hs : Semicolons s) {draft : Draft}
    (hEntry : draft.pending.inEntry = false) : s.foldlM step draft = .ok draft := by
  induction s with
  | nil => rfl
  | cons t s ih =>
    rw [foldlM_step_cons (.semicolon hEntry (hs t List.mem_cons_self))]
    exact ih fun u hu => hs u (List.mem_cons_of_mem t hu)

/-- A header is read up to its brace, with semicolons at any place. -/
theorem foldlM_step_header {hs : List Token} {header : Header} (h : header.Derives hs)
    {draft : Draft} (hPending : draft.pending = .nothing) :
    hs.foldlM step draft = .ok { draft with pending := header.pending } := by
  cases h with
  | element hName hs =>
    rw [foldlM_step_cons (.header hPending hName)]
    exact foldlM_step_semicolons hs rfl
  | @definition t isA b s₁ s₂ s₃ name base hName hs₁ hIsA hs₂ hBase hs₃ =>
    rw [List.append_assoc, List.cons_append, foldlM_step_cons (.header hPending hName),
      foldlM_step_append (foldlM_step_semicolons hs₁ rfl), List.cons_append,
      foldlM_step_cons (.isA rfl hIsA), foldlM_step_append (foldlM_step_semicolons hs₂ rfl),
      foldlM_step_cons (.base rfl hBase)]
    exact foldlM_step_semicolons hs₃ rfl

/-- Three tokens make an entry, if a node is open. -/
theorem foldlM_step_entry {es : List Token} {entry : Entry} (h : entry.Derives es)
    {draft : Draft} (hPending : draft.pending = .nothing) (hInside : draft.current ≠ 0) :
    es.foldlM step draft = .ok (draft.enter entry.put) := by
  cases h with
  | @mk key colon value name entry hKey hDigit hColon hMade =>
    have hAfterKey : Move { draft with pending := .key key name } colon
        { draft with pending := .value name } := .colon rfl hColon hDigit hInside
    rw [foldlM_step_cons (.key hPending hKey), foldlM_step_cons hAfterKey,
      foldlM_step_cons (.entry rfl hMade)]
    rfl

/-- **A derivation drives the builder.** Behind the tokens of some contents the
open node has absorbed them. -/
theorem foldlM_step_of_derives {scope : Scope} {ts : List Token} {contents : Contents}
    (h : contents.Derives scope ts) {draft : Draft} (hPending : draft.pending = .nothing)
    (hCurrent : draft.current < draft.outline.nodes.size)
    (hScope : scope = .node → draft.current ≠ 0) :
    ts.foldlM step draft = .ok (draft.absorb contents) := by
  induction h generalizing draft with
  | nil => rw [absorb_nil hPending]; rfl
  | semicolon hKind _ ih =>
    rw [foldlM_step_cons (.semicolon (by rw [hPending]; rfl) hKind)]
    exact ih hPending hCurrent hScope
  | @entry es ts entry rest hEntry _ ih =>
    rw [foldlM_step_append (foldlM_step_entry hEntry hPending (hScope rfl)), ← absorb_entry]
    exact ih rfl (by simpa [enter] using hCurrent) hScope
  | @node scope hs body ts start stop header inside rest hHeader hStart _ hStop _ ihInside ihRest =>
    have hOpen : Move { draft with pending := header.pending } start
        (draft.openNode header.typeName header.role start.line) := by
      cases header with
      | element name => exact .openElement rfl hStart
      | definition name base => exact .openDefinition rfl hStart
    -- inside the braces the new node is the open one
    have hRunInside : body.foldlM step (draft.openNode header.typeName header.role start.line) =
        .ok ((draft.openNode header.typeName header.role start.line).absorb inside) := by
      refine ihInside rfl (by simp [openNode]) fun _ => ?_
      simp only [openNode]
      omega
    have hClose : Move ((draft.openNode header.typeName header.role start.line).absorb inside) stop
        { (draft.openNode header.typeName header.role start.line).absorb inside with
          current := draft.current } :=
      .close rfl hStop (parent_absorb_openNode draft header start.line inside)
    rw [foldlM_step_append (foldlM_step_header hHeader hPending), foldlM_step_cons hOpen,
      foldlM_step_append hRunInside, foldlM_step_cons hClose, ← absorb_node header _ _ _ hCurrent]
    refine ihRest rfl ?_ hScope
    have hSize := size_absorb_openNode draft header start.line inside
    simp only at hSize ⊢
    omega

end Draft

-- ---------------------------------------------------------------------------
-- A run has a derivation
-- ---------------------------------------------------------------------------

/-- What the tokens to come must be when so many nodes are open: the rest of each
node and its closing brace, from the innermost out, and the rest of the
document. -/
inductive Closes : Nat → List Token → Prop where
  | document {ts : List Token} {contents : Contents} (h : contents.Derives .document ts) :
      Closes 0 ts
  | node {depth : Nat} {ts us : List Token} {stop : Token} {contents : Contents}
      (h : contents.Derives .node ts) (hStop : stop.kind = .scopeEnd) (hOuter : Closes depth us) :
      Closes (depth + 1) (ts ++ stop :: us)

namespace Closes

variable {depth : Nat} {ts : List Token}

/-- A semicolon may stand before what the open nodes still need. -/
theorem semicolon {t : Token} (hKind : t.kind = .semicolon) (h : Closes depth ts) :
    Closes depth (t :: ts) := by
  cases h with
  | document h => exact .document (.semicolon hKind h)
  | node h hStop hOuter => exact .node (.semicolon hKind h) hStop hOuter

/-- An entry may stand before what the open nodes still need. -/
theorem entry {es : List Token} {entry : Entry} (hEntry : entry.Derives es)
    (h : Closes (depth + 1) ts) : Closes (depth + 1) (es ++ ts) := by
  cases h with
  | node h hStop hOuter =>
    rw [← List.append_assoc]
    exact .node (.entry hEntry h) hStop hOuter

/-- An opening brace and its header take one node off what is asked: its body
runs to its closing brace, and what follows goes to the node around it. -/
theorem openNode {hs : List Token} {start : Token} {header : Header}
    (hHeader : header.Derives hs) (hStart : start.kind = .scopeStart)
    (h : Closes (depth + 1) ts) : Closes depth (hs ++ start :: ts) := by
  cases h with
  | @node _ body us stop inside hInside hStop hOuter =>
    cases hOuter with
    | document hRest => exact .document (.node hHeader hStart hInside hStop hRest)
    | @node _ more vs last contents hRest hLast hOuter =>
      have hNode := Contents.Derives.node hHeader hStart hInside hStop hRest
      have hSplit : hs ++ start :: (body ++ stop :: (more ++ last :: vs)) =
          (hs ++ start :: (body ++ stop :: more)) ++ last :: vs := by
        simp
      rw [hSplit]
      exact .node hNode hLast hOuter

end Closes

/-- The tokens since the last finished entry or brace, for each thing that can be
pending inside so many nodes. -/
inductive Pending.Reads (depth : Nat) : Pending → List Token → Prop where
  | nothing : Reads depth .nothing []
  | header {t : Token} {s : List Token} {name : String} (hName : t.kind = .element name)
      (hs : Semicolons s) : Reads depth (.header name) (t :: s)
  | definition {t isA : Token} {s₁ s₂ : List Token} {name : String}
      (hName : t.kind = .element name) (hs₁ : Semicolons s₁) (hIsA : isA.kind = .isA)
      (hs₂ : Semicolons s₂) : Reads depth (.definition name) (t :: s₁ ++ isA :: s₂)
  | base {t isA b : Token} {s₁ s₂ s₃ : List Token} {name base : String}
      (hName : t.kind = .element name) (hs₁ : Semicolons s₁) (hIsA : isA.kind = .isA)
      (hs₂ : Semicolons s₂) (hBase : b.kind = .element base) (hs₃ : Semicolons s₃) :
      Reads depth (.base name base) (t :: s₁ ++ isA :: s₂ ++ b :: s₃)
  | key {t : Token} {name : String} (hKey : t.kind = .expression name) :
      Reads depth (.key t name) [t]
  | value {key colon : Token} {name : String} (hKey : key.kind = .expression name)
      (hDigit : name.toList.head?.any Char.isDigit = false) (hColon : colon.kind = .colon)
      (hInside : depth ≠ 0) : Reads depth (.value name) [key, colon]

theorem Semicolons.nil : Semicolons [] := by
  intro t ht
  exact absurd ht List.not_mem_nil

theorem Semicolons.concat {s : List Token} {t : Token} (hs : Semicolons s)
    (hKind : t.kind = .semicolon) : Semicolons (s ++ [t]) := by
  intro u hu
  rcases List.mem_append.mp hu with hMem | hMem
  · exact hs u hMem
  · rw [List.mem_singleton.mp hMem]
    exact hKind

/-- A semicolon belongs to the unfinished header before it, or stands between
entries. -/
theorem Closes.of_semicolon {depth : Nat} {pending : Pending} {hs ts : List Token} {t : Token}
    (hReads : pending.Reads depth hs) (hEntry : pending.inEntry = false)
    (hKind : t.kind = .semicolon)
    (h : ∀ {hs : List Token}, pending.Reads depth hs → Closes depth (hs ++ ts)) :
    Closes depth (hs ++ t :: ts) := by
  cases hReads with
  | nothing => exact .semicolon hKind (h .nothing)
  | header hName hs => simpa using h (.header hName (hs.concat hKind))
  | definition hName hs₁ hIsA hs₂ =>
    simpa using h (.definition hName hs₁ hIsA (hs₂.concat hKind))
  | base hName hs₁ hIsA hs₂ hBase hs₃ =>
    simpa using h (.base hName hs₁ hIsA hs₂ hBase (hs₃.concat hKind))
  | key => simp [Pending.inEntry] at hEntry
  | value => simp [Pending.inEntry] at hEntry

/-- **A run has a derivation.** A run that ends with nothing pending and nothing
open read what its first draft asked for. -/
theorem closes_of_foldlM_step {ts hs : List Token} {draft last : Draft} {depth : Nat}
    (h : ts.foldlM Draft.step draft = .ok last) (hPending : last.pending = .nothing)
    (hRoot : last.current = 0) (hDepth : draft.outline.Depth draft.current depth)
    (hReads : draft.pending.Reads depth hs) : Closes depth (hs ++ ts) := by
  induction ts generalizing draft depth hs with
  | nil =>
    obtain rfl : draft = last := by simpa [pure, Except.pure] using h
    obtain rfl : depth = 0 := hDepth.eq_zero_iff.mp hRoot
    rw [hPending] at hReads
    cases hReads
    exact .document .nil
  | cons t ts ih =>
    obtain ⟨next, hMove, hRun⟩ := Draft.foldlM_step_cons_eq_ok_iff.mp h
    -- the tokens that are not yet part of a derivation are those that the pending state stands
    -- for; a move adds one to them or finishes a header or an entry
    cases hMove with
    | semicolon hEntry hKind => exact .of_semicolon hReads hEntry hKind (ih hRun hDepth)
    | header hNothing hKind =>
      rw [hNothing] at hReads
      cases hReads
      exact ih hRun hDepth (.header hKind .nil)
    | isA hHeader hKind =>
      rw [hHeader] at hReads
      cases hReads with
      | header hName hs =>
        simpa using ih hRun hDepth (.definition hName hs hKind .nil)
    | base hDefinition hKind =>
      rw [hDefinition] at hReads
      cases hReads with
      | definition hName hs₁ hIsA hs₂ =>
        simpa using ih hRun hDepth (.base hName hs₁ hIsA hs₂ hKind .nil)
    | openElement hHeader hKind =>
      rw [hHeader] at hReads
      cases hReads with
      | header hName hs =>
        exact .openNode (.element hName hs) hKind
          (ih hRun (Draft.depth_openNode _ _ _ hDepth) .nothing)
    | openDefinition hBase hKind =>
      rw [hBase] at hReads
      cases hReads with
      | base hName hs₁ hIsA hs₂ hBase hs₃ =>
        exact .openNode (.definition hName hs₁ hIsA hs₂ hBase hs₃) hKind
          (ih hRun (Draft.depth_openNode _ _ _ hDepth) .nothing)
    | close hNothing hKind hParent =>
      rw [hNothing] at hReads
      cases hReads
      obtain ⟨outer, rfl, hOuter⟩ := hDepth.of_parent hParent
      -- the node closes, and the rest belongs to the node around it
      have hReads : Pending.Reads outer draft.pending [] := hNothing ▸ .nothing
      have hRest := ih hRun hOuter hReads
      exact .node .nil hKind hRest
    | key hNothing hKind =>
      rw [hNothing] at hReads
      cases hReads
      exact ih hRun hDepth (.key hKind)
    | colon hKey hKind hDigit hInside =>
      rw [hKey] at hReads
      cases hReads with
      | key hName =>
        exact ih hRun hDepth (.value hName hDigit hKind (mt hDepth.eq_zero_iff.mpr hInside))
    | entry hValue hMade =>
      rw [hValue] at hReads
      cases hReads with
      | value hName hDigit hColon hInside =>
        obtain ⟨outer, rfl⟩ := Nat.exists_eq_succ_of_ne_zero hInside
        have hRest := ih hRun (Draft.depth_enter _ hDepth) .nothing
        have hEntry := Closes.entry (.mk hName hDigit hColon hMade) hRest
        exact hEntry

/-- A document read from the start has the listing of its contents as outline. -/
theorem foldlM_step_empty {ts : List Token} {contents : Contents}
    (h : contents.Derives .document ts) :
    ts.foldlM Draft.step Draft.empty =
      .ok { outline := contents.outline, current := 0, pending := .nothing } := by
  have hRun : ts.foldlM Draft.step Draft.empty = .ok (Draft.empty.absorb contents) :=
    Draft.foldlM_step_of_derives h rfl (by decide) (by simp)
  rw [hRun]
  rfl

theorem Outline.build_of_derives {ts : List Token} {contents : Contents}
    (h : contents.Derives .document ts) : Outline.build ts = .ok contents.outline :=
  build_eq_ok_iff_run.mpr
    ⟨_, foldlM_step_empty h, Draft.finish_eq_ok_iff.mpr ⟨rfl, rfl, rfl⟩⟩

/-- A list of tokens with an outline has a derivation, and the outline is the
listing of its contents. -/
theorem Outline.derives_of_build {ts : List Token} {outline : Outline}
    (h : Outline.build ts = .ok outline) :
    ∃ contents : Contents, contents.Derives .document ts ∧ outline = contents.outline := by
  obtain ⟨draft, hRun, hFinish⟩ := build_eq_ok_iff_run.mp h
  obtain ⟨hPending, hRoot, rfl⟩ := Draft.finish_eq_ok_iff.mp hFinish
  have hCloses : Closes 0 ([] ++ ts) :=
    closes_of_foldlM_step hRun hPending hRoot Draft.depth_empty .nothing
  cases hCloses with
  | @document _ contents hDerives =>
    -- the listing is what the derivation makes of the empty draft
    refine ⟨contents, hDerives, ?_⟩
    have hAbsorbed := foldlM_step_empty hDerives
    rw [List.nil_append] at hAbsorbed
    rw [Except.ok.inj (hRun.symm.trans hAbsorbed)]

/-- **The builder accepts the grammar and returns the listing.** A list of tokens
has an outline exactly when it derives from the grammar, and the outline is
the listing of its derivation. -/
theorem Outline.build_eq_ok_iff_derives (ts : List Token) (outline : Outline) :
    Outline.build ts = .ok outline ↔
      ∃ contents : Contents, contents.Derives .document ts ∧ outline = contents.outline := by
  constructor
  · exact derives_of_build
  · rintro ⟨contents, hDerives, rfl⟩
    exact build_of_derives hDerives

-- ---------------------------------------------------------------------------
-- Entries and their tokens
-- ---------------------------------------------------------------------------

def Node.entries (node : Node) : List Entry :=
  node.properties.map .property ++ node.delegates.map .delegate

/-- The properties and delegates of an outline. -/
def Outline.entries (outline : Outline) : List Entry :=
  outline.nodes.toList.flatMap Node.entries

namespace Contents

/-- All entries, at any depth. -/
def entries : Contents → List Entry
  | nil => []
  | entry first rest => first :: rest.entries
  | node _ _ inside rest => inside.entries ++ rest.entries

/-- An entry was made from three tokens that stand side by side: a key, a colon and a
value. -/
theorem exists_tokens_of_mem_entries {scope : Scope} {ts : List Token} {contents : Contents}
    (h : contents.Derives scope ts) {first : Entry} (hEntry : first ∈ contents.entries) :
    ∃ key colon value, [key, colon, value] <:+: ts ∧ first.Derives [key, colon, value] := by
  -- tokens that stand side by side in a part do so in the whole
  have hWider {part whole : List Token} (hPart : part <:+: whole) :
      (∃ key colon value, [key, colon, value] <:+: part ∧ first.Derives [key, colon, value]) →
        ∃ key colon value, [key, colon, value] <:+: whole ∧ first.Derives [key, colon, value] := by
    rintro ⟨key, colon, value, hTokens, hDerives⟩
    exact ⟨key, colon, value, hTokens.trans hPart, hDerives⟩
  induction h with
  | nil => exact absurd hEntry List.not_mem_nil
  | @semicolon _ t ts _ _ _ ih => exact hWider (List.suffix_cons t ts).isInfix (ih hEntry)
  | @entry es ts here rest hDerives _ ih =>
    rcases List.mem_cons.mp hEntry with rfl | hLater
    · cases hDerives with
      | mk hKey hDigit hColon hMade =>
        exact ⟨_, _, _, (List.prefix_append _ ts).isInfix, .mk hKey hDigit hColon hMade⟩
    · exact hWider (List.suffix_append es ts).isInfix (ih hLater)
  | @node _ hs body ts start stop _ _ _ _ _ _ _ _ ihInside ihRest =>
    rcases List.mem_append.mp hEntry with hInner | hLater
    · exact hWider ⟨hs ++ [start], stop :: ts, by simp⟩ (ihInside hInner)
    · exact hWider ⟨hs ++ start :: (body ++ [stop]), [], by simp⟩ (ihRest hLater)

/-- The properties and delegates at the top are entries. -/
theorem mem_entries_of_top {contents : Contents} {first : Entry}
    (h : first ∈ contents.properties.map Entry.property ++ contents.delegates.map .delegate) :
    first ∈ contents.entries := by
  induction contents with
  | nil => exact absurd h List.not_mem_nil
  | node _ _ _ _ _ ih => exact List.mem_append_right _ (ih h)
  | entry here rest ih =>
    cases here with
    | id name => exact List.mem_cons_of_mem _ (ih h)
    | property p =>
      rcases List.mem_cons.mp h with rfl | hLater
      · exact List.mem_cons_self
      · exact List.mem_cons_of_mem _ (ih hLater)
    | delegate d =>
      -- the properties come first, so the delegate stands in the middle of the list
      rw [delegates, List.map_cons, List.mem_append, List.mem_cons] at h
      rcases h with hProperty | rfl | hDelegate
      · exact List.mem_cons_of_mem _ (ih (List.mem_append_left _ hProperty))
      · exact List.mem_cons_self
      · exact List.mem_cons_of_mem _ (ih (List.mem_append_right _ hDelegate))

/-- The entries of every node in the listing are entries of the contents. -/
theorem mem_entries_of_nodes {contents : Contents} {parent i : Nat} {node : Node}
    (hNode : node ∈ contents.nodes parent i) {first : Entry} (h : first ∈ node.entries) :
    first ∈ contents.entries := by
  induction contents generalizing parent i with
  | nil => exact absurd hNode List.not_mem_nil
  | entry _ _ ih => exact List.mem_cons_of_mem _ (ih hNode)
  | node header line inside rest ihInside ihRest =>
    rw [nodes, List.cons_append, List.mem_cons, List.mem_append] at hNode
    rcases hNode with rfl | hInner | hLater
    · refine List.mem_append_left _ (mem_entries_of_top ?_)
      simpa [Node.entries, fill] using h
    · exact List.mem_append_left _ (ihInside hInner)
    · exact List.mem_append_right _ (ihRest hLater)

/-- The entries of an outline are those of the contents that it lists. -/
theorem mem_entries_of_outline {contents : Contents} {first : Entry}
    (h : first ∈ contents.outline.entries) : first ∈ contents.entries := by
  obtain ⟨node, hNode, hEntry⟩ := List.mem_flatMap.mp h
  rcases List.mem_cons.mp hNode with rfl | hInner
  · refine mem_entries_of_top ?_
    simpa [Node.entries, fill, Node.root] using hEntry
  · exact mem_entries_of_nodes hInner hEntry

end Contents

/-- Every entry of an outline was made from tokens of the list it was built from. -/
theorem Outline.exists_tokens_of_build {ts : List Token} {outline : Outline}
    (h : Outline.build ts = .ok outline) {entry : Entry} (hEntry : entry ∈ outline.entries) :
    ∃ key colon value, [key, colon, value] <:+: ts ∧ entry.Derives [key, colon, value] := by
  obtain ⟨contents, hDerives, rfl⟩ := Outline.derives_of_build h
  exact Contents.exists_tokens_of_mem_entries hDerives (Contents.mem_entries_of_outline hEntry)

end BindingMarkup
