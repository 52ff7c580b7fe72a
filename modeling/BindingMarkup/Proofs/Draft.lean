import BindingMarkup.Compile
import Mathlib.Tactic.SplitIfs

/-!
# BindingMarkup — what one token does to a draft

The outline is built by one step per token. This module says once what a
step can do, so that every statement about whole documents rests on the
same case analysis:

* **Success** — `Draft.Move` lists the moves a step can make, one
  constructor each, with all that the token and the draft must satisfy;
  `step_eq_ok_iff` says that these are the successful steps.
* **Failure** — a step fails at its token, or at the key that waits for a
  colon (`step_eq_error`), so a document that has no outline has its
  problem at one of its tokens (`build_eq_error`). A document without
  tokens has an outline.
* **Nesting** — `Outline.Depth` counts the open nodes around a place along
  the parents. Moves only change the node they stand in and add new nodes
  at the end, and no move changes a parent, so depths stay what they are
  (`Depth.of_parents`). Every run of the builder leaves its draft `Nested`.
-/

namespace BindingMarkup

-- ---------------------------------------------------------------------------
-- Successful steps
-- ---------------------------------------------------------------------------

/-- Whether a key has been read whose value is still to come. -/
def Pending.inEntry : Pending → Bool
  | .key _ _ => true
  | .value _ => true
  | _ => false

/-- What an entry adds to its node. -/
inductive Entry where
  | id (name : String)
  | property (p : Property)
  | delegate (d : Delegate)
  deriving DecidableEq, Repr

/-- The node with one more entry. A later id takes the place of an earlier one. -/
def Entry.put : Entry → Node → Node
  | .id name, node => { node with id := some name }
  | .property p, node => { node with properties := node.properties ++ [p] }
  | .delegate d, node => { node with delegates := node.delegates ++ [d] }

/-- The entry that the key `name` makes with the token `t` as its value. -/
inductive Entry.Made (name : String) (t : Token) : Entry → Prop where
  | id {value : String} (hName : name = "id") (hKind : t.kind.text? = some value)
      (hIdentifier : Draft.isIdentifier value = true) : Made name t (.id value)
  | property {value : String} (hName : name ≠ "id") (hKind : t.kind = .expression value) :
      Made name t (.property { name, value, line := t.line })
  | delegate {target : String} (hName : name ≠ "id") (hKind : t.kind = .element target) :
      Made name t (.delegate { name, target, line := t.line })

namespace Draft

/-- What a token can do to a draft. -/
inductive Move (draft : Draft) (t : Token) : Draft → Prop where
  | semicolon (hPending : draft.pending.inEntry = false) (hKind : t.kind = .semicolon) :
      Move draft t draft
  | header {name : String} (hPending : draft.pending = .nothing) (hKind : t.kind = .element name) :
      Move draft t { draft with pending := .header name }
  | isA {name : String} (hPending : draft.pending = .header name) (hKind : t.kind = .isA) :
      Move draft t { draft with pending := .definition name }
  | base {name base : String} (hPending : draft.pending = .definition name)
      (hKind : t.kind = .element base) : Move draft t { draft with pending := .base name base }
  | openElement {name : String} (hPending : draft.pending = .header name)
      (hKind : t.kind = .scopeStart) : Move draft t (draft.openNode name .element t.line)
  | openDefinition {name base : String} (hPending : draft.pending = .base name base)
      (hKind : t.kind = .scopeStart) :
      Move draft t (draft.openNode name (.definition base) t.line)
  | close {parent : Nat} (hPending : draft.pending = .nothing) (hKind : t.kind = .scopeEnd)
      (hParent : (draft.outline.node draft.current).parent = some parent) :
      Move draft t { draft with current := parent }
  | key {name : String} (hPending : draft.pending = .nothing) (hKind : t.kind = .expression name) :
      Move draft t { draft with pending := .key t name }
  | colon {key : Token} {name : String} (hPending : draft.pending = .key key name)
      (hKind : t.kind = .colon) (hDigit : name.toList.head?.any Char.isDigit = false)
      (hInside : draft.current ≠ 0) : Move draft t { draft with pending := .value name }
  | entry {name : String} {entry : Entry} (hPending : draft.pending = .value name)
      (hMade : entry.Made name t) : Move draft t (draft.enter entry.put)

/-- An `id` must be an identifier; every other key takes any value. -/
theorem addEntry_eq_ok_iff {draft next : Draft} {name value : String} {t : Token}
    {add : Node → Node} :
    draft.addEntry name value t add = .ok next ↔
      (name = "id" ∧ isIdentifier value = true ∧ next = draft.enter (Entry.id value).put) ∨
        (name ≠ "id" ∧ next = draft.enter add) := by
  have hPut : (fun node : Node => { node with id := some value }) = (Entry.id value).put := rfl
  unfold addEntry
  rw [hPut]
  split_ifs with hName hIdentifier
  · simp [hName, hIdentifier, @eq_comm _ next]
  · simp [hName, hIdentifier]
  · simp [hName, @eq_comm _ next]

/-- The token behind a key and its colon is the value of an entry, or there is no
draft behind it. -/
theorem afterColon_eq_ok_iff {draft next : Draft} {name : String} {t : Token} :
    draft.afterColon name t = .ok next ↔
      ∃ entry : Entry, entry.Made name t ∧ next = draft.enter entry.put := by
  constructor
  · intro h
    unfold afterColon at h
    split at h
    · next value hKind =>
      rcases addEntry_eq_ok_iff.mp h with ⟨hName, hIdentifier, rfl⟩ | ⟨hName, rfl⟩
      · exact ⟨.id value, .id hName (by rw [hKind]; rfl) hIdentifier, rfl⟩
      · exact ⟨_, .property hName hKind, rfl⟩
    · next target hKind =>
      rcases addEntry_eq_ok_iff.mp h with ⟨hName, hIdentifier, rfl⟩ | ⟨hName, rfl⟩
      · exact ⟨.id target, .id hName (by rw [hKind]; rfl) hIdentifier, rfl⟩
      · exact ⟨_, .delegate hName hKind, rfl⟩
    · exact absurd h (by simp)
  · rintro ⟨entry, hMade, rfl⟩
    cases hMade with
    | @id value hName hKind hIdentifier =>
      -- an id may look like the name of a type
      have hText : t.kind = .expression value ∨ t.kind = .element value := by
        cases hFound : t.kind <;> simp_all [Token.Kind.text?]
      rcases hText with hText | hText <;>
        simp only [afterColon, hText] <;>
        exact addEntry_eq_ok_iff.mpr (.inl ⟨hName, hIdentifier, rfl⟩)
    | property hName hKind =>
      simp only [afterColon, hKind]
      exact addEntry_eq_ok_iff.mpr (.inr ⟨hName, rfl⟩)
    | delegate hName hKind =>
      simp only [afterColon, hKind]
      exact addEntry_eq_ok_iff.mpr (.inr ⟨hName, rfl⟩)

/-- The token behind a key is a colon, the key is no number and stands in a node,
or there is no draft behind it. -/
theorem afterKey_eq_ok_iff {draft next : Draft} {key t : Token} {name : String} :
    draft.afterKey key name t = .ok next ↔
      t.kind = .colon ∧ name.toList.head?.any Char.isDigit = false ∧ draft.current ≠ 0 ∧
        next = { draft with pending := .value name } := by
  unfold afterKey
  split_ifs with hKind hDigit hRoot
  · simp [hKind]
  · simp [hDigit]
  · simp [hRoot]
  · simp [Decidable.not_not.mp hKind, hDigit, hRoot, @eq_comm _ next]

/-- A name is the head of a node or a base. -/
theorem move_of_onElement {draft next : Draft} {t : Token} {name : String}
    (hEntry : draft.pending.inEntry = false) (hKind : t.kind = .element name)
    (h : draft.onElement name t = .ok next) : draft.Move t next := by
  unfold onElement at h
  split at h
  · exact absurd h (by simp)
  · exact absurd h (by simp)
  · next hPending => exact Except.ok.inj h ▸ .base hPending hKind
  · next hHeader hBase hDefinition =>
    have hPending : draft.pending = .nothing := by
      cases hPending : draft.pending <;> simp_all [Pending.inEntry]
    exact Except.ok.inj h ▸ .header hPending hKind

theorem move_of_onIsA {draft next : Draft} {t : Token} (hKind : t.kind = .isA)
    (h : draft.onIsA t = .ok next) : draft.Move t next := by
  unfold onIsA at h
  split at h
  · next hPending => exact Except.ok.inj h ▸ .isA hPending hKind
  all_goals exact absurd h (by simp)

/-- A brace opens the node whose header stands before it. -/
theorem move_of_onScopeStart {draft next : Draft} {t : Token} (hKind : t.kind = .scopeStart)
    (h : draft.onScopeStart t = .ok next) : draft.Move t next := by
  unfold onScopeStart at h
  split at h
  · next hPending => exact Except.ok.inj h ▸ .openElement hPending hKind
  · next hPending => exact Except.ok.inj h ▸ .openDefinition hPending hKind
  all_goals exact absurd h (by simp)

/-- Outside an entry and outside a header nothing is pending. -/
theorem pending_eq_nothing {pending : Pending} (hEntry : pending.inEntry = false)
    (hHeader : pending.header? = none) : pending = .nothing := by
  cases pending <;> simp_all [Pending.inEntry, Pending.header?]

/-- A brace closes the innermost node. -/
theorem move_of_onScopeEnd {draft next : Draft} {t : Token}
    (hEntry : draft.pending.inEntry = false) (hKind : t.kind = .scopeEnd)
    (h : draft.onScopeEnd t = .ok next) : draft.Move t next := by
  unfold onScopeEnd at h
  split at h
  · exact absurd h (by simp)
  next hHeader =>
  split at h
  · next hParent =>
    exact Except.ok.inj h ▸ .close (pending_eq_nothing hEntry hHeader) hKind hParent
  · exact absurd h (by simp)

/-- An expression outside of entries is a key. -/
theorem move_of_onKey {draft next : Draft} {t : Token} {name : String}
    (hEntry : draft.pending.inEntry = false) (hKind : t.kind = .expression name)
    (h : draft.onKey name t = .ok next) : draft.Move t next := by
  unfold onKey at h
  split at h
  · exact absurd h (by simp)
  · next hHeader => exact Except.ok.inj h ▸ .key (pending_eq_nothing hEntry hHeader) hKind

/-- Every successful step is one of the moves. -/
theorem move_of_step {draft next : Draft} {t : Token} (h : draft.step t = .ok next) :
    draft.Move t next := by
  unfold step at h
  split at h
  · next key name hPending =>
    obtain ⟨hKind, hDigit, hInside, rfl⟩ := afterKey_eq_ok_iff.mp h
    exact .colon hPending hKind hDigit hInside
  · next name hPending =>
    obtain ⟨entry, hMade, rfl⟩ := afterColon_eq_ok_iff.mp h
    exact .entry hPending hMade
  · next hNoKey hNoValue =>
    -- neither behind a key nor behind a colon
    have hEntry : draft.pending.inEntry = false := by
      cases hPending : draft.pending <;> simp_all [Pending.inEntry]
    split at h
    · next hKind => exact move_of_onElement hEntry hKind h
    · next hKind => exact move_of_onIsA hKind h
    · next hKind => exact move_of_onScopeStart hKind h
    · next hKind => exact move_of_onScopeEnd hEntry hKind h
    · next hKind => exact move_of_onKey hEntry hKind h
    · exact absurd h (by simp)
    · next hKind => exact Except.ok.inj h ▸ .semicolon hEntry hKind

/-- Every move is a successful step. -/
theorem step_of_move {draft next : Draft} {t : Token} (h : draft.Move t next) :
    draft.step t = .ok next := by
  cases h with
  | semicolon hPending hKind =>
    unfold step
    split <;> simp_all [Pending.inEntry]
  | colon hPending hKind hDigit hInside =>
    simp only [step, hPending]
    exact afterKey_eq_ok_iff.mpr ⟨hKind, hDigit, hInside, rfl⟩
  | entry hPending hMade =>
    simp only [step, hPending]
    exact afterColon_eq_ok_iff.mpr ⟨_, hMade, rfl⟩
  | close hPending hKind hParent =>
    simp [step, hPending, hKind, onScopeEnd, Pending.header?, hParent]
  | _ hPending hKind =>
    simp [step, hPending, hKind, onElement, onIsA, onScopeStart, onKey, Pending.header?]

/-- The moves are the successful steps. -/
theorem step_eq_ok_iff {draft next : Draft} {t : Token} :
    draft.step t = .ok next ↔ draft.Move t next :=
  ⟨move_of_step, step_of_move⟩

-- ---------------------------------------------------------------------------
-- Failed steps
-- ---------------------------------------------------------------------------

/-- A step fails at its token, or at the key that waits for its colon, and never
because tokens are missing. -/
theorem step_eq_error {draft : Draft} {t : Token} {problem : Problem}
    (h : draft.step t = .error problem) :
    ∃ place cause, problem = .atToken cause place ∧ cause.code ≠ .unexpectedEnd ∧
      (place = t ∨ ∃ name, draft.pending = .key place name) := by
  unfold step at h
  split at h
  · next key name hPending =>
    unfold afterKey at h
    split_ifs at h <;>
      exact ⟨key, _, (Except.error.inj h).symm, by simp [Cause.code], .inr ⟨name, hPending⟩⟩
  · unfold afterColon addEntry at h
    split at h <;> (try split_ifs at h) <;>
      exact ⟨t, _, (Except.error.inj h).symm, by simp [Cause.code], .inl rfl⟩
  · -- every other failure is at the token itself, whatever the handler
    suffices hCause : ∃ cause, .atToken cause t = problem ∧ cause.code ≠ .unexpectedEnd by
      obtain ⟨cause, hAt, hCode⟩ := hCause
      exact ⟨t, cause, hAt.symm, hCode, .inl rfl⟩
    split at h
    · unfold onElement at h
      split at h <;> simp only [Except.error.injEq, reduceCtorEq] at h <;>
        exact ⟨_, h, by simp [Cause.code]⟩
    · unfold onIsA at h
      split at h <;> simp only [Except.error.injEq, reduceCtorEq] at h <;>
        exact ⟨_, h, by simp [Cause.code]⟩
    · unfold onScopeStart at h
      split at h <;> simp only [Except.error.injEq, reduceCtorEq] at h <;>
        exact ⟨_, h, by simp [Cause.code]⟩
    · unfold onScopeEnd at h
      split at h
      · exact ⟨_, Except.error.inj h, by simp [Cause.code]⟩
      · split at h <;> simp only [Except.error.injEq, reduceCtorEq] at h
        exact ⟨_, h, by simp [Cause.code]⟩
    · unfold onKey at h
      split at h <;> simp only [Except.error.injEq, reduceCtorEq] at h
      exact ⟨_, h, by simp [Cause.code]⟩
    · exact ⟨_, Except.error.inj h, by simp [Cause.code]⟩
    · exact absurd h (by simp)

/-- A key that waits for its colon is the token just read. -/
theorem Move.eq_of_key {draft next : Draft} {t key : Token} {name : String}
    (hMove : draft.Move t next) (hKey : next.pending = .key key name) : key = t := by
  cases hMove with
  | semicolon hPending => simp [hKey, Pending.inEntry] at hPending
  | close hPending => simp [hPending] at hKey
  | key => exact (Pending.key.inj hKey).1.symm
  | _ => simp [openNode, enter] at hKey

-- ---------------------------------------------------------------------------
-- Whole documents
-- ---------------------------------------------------------------------------

/-- A run begins with a move. -/
theorem foldlM_step_cons_eq_ok_iff {t : Token} {ts : List Token} {draft last : Draft} :
    (t :: ts).foldlM step draft = .ok last ↔
      ∃ next, draft.Move t next ∧ ts.foldlM step next = .ok last := by
  simp only [← step_eq_ok_iff]
  cases hStep : draft.step t with
  | error problem => simp [List.foldlM_cons, hStep, bind, Except.bind]
  | ok next => simp [List.foldlM_cons, hStep, bind, Except.bind]

theorem foldlM_step_cons {t : Token} {ts : List Token} {draft next : Draft}
    (h : draft.Move t next) : (t :: ts).foldlM step draft = ts.foldlM step next := by
  rw [List.foldlM_cons, step_eq_ok_iff.mpr h]
  rfl

/-- A run goes on where the first part ends. -/
theorem foldlM_step_append {ts us : List Token} {draft next : Draft}
    (h : ts.foldlM step draft = .ok next) :
    (ts ++ us).foldlM step draft = us.foldlM step next := by
  rw [List.foldlM_append, h]
  rfl

/-- A key that waits at the end of a run was read on the way, or has been waiting
from the start. -/
theorem mem_of_foldlM_step {ts : List Token} {draft last : Draft} {key : Token} {name : String}
    (h : ts.foldlM step draft = .ok last) (hKey : last.pending = .key key name) :
    key ∈ ts ∨ draft.pending = .key key name := by
  induction ts generalizing draft with
  | nil =>
    obtain rfl : draft = last := by simpa [pure, Except.pure] using h
    exact .inr hKey
  | cons t ts ih =>
    obtain ⟨next, hMove, hRest⟩ := foldlM_step_cons_eq_ok_iff.mp h
    rcases ih hRest with hMem | hNext
    · exact .inl (List.mem_cons_of_mem t hMem)
    · exact .inl (hMove.eq_of_key hNext ▸ List.mem_cons_self)

/-- A run fails at one of its tokens, or at a key that was waiting from the start,
and never because tokens are missing. -/
theorem foldlM_step_eq_error {ts : List Token} {draft : Draft} {problem : Problem}
    (h : ts.foldlM step draft = .error problem) :
    ∃ place cause, problem = .atToken cause place ∧ cause.code ≠ .unexpectedEnd ∧
      (place ∈ ts ∨ ∃ name, draft.pending = .key place name) := by
  induction ts generalizing draft with
  | nil => simp [pure, Except.pure] at h
  | cons t ts ih =>
    rw [List.foldlM_cons] at h
    cases hStep : draft.step t with
    | error first =>
      obtain rfl : first = problem := by simpa [hStep, bind, Except.bind] using h
      obtain ⟨place, cause, hAt, hCode, hPlace⟩ := step_eq_error hStep
      refine ⟨place, cause, hAt, hCode, hPlace.imp ?_ id⟩
      rintro rfl
      exact List.mem_cons_self
    | ok next =>
      have hRest : ts.foldlM step next = .error problem := by
        simpa [hStep, bind, Except.bind] using h
      obtain ⟨place, cause, hAt, hCode, hPlace⟩ := ih hRest
      refine ⟨place, cause, hAt, hCode, .inl ?_⟩
      -- the problem may be at a key that an earlier step has read
      rcases hPlace with hMem | ⟨name, hKey⟩
      · exact List.mem_cons_of_mem t hMem
      · exact (step_eq_ok_iff.mp hStep).eq_of_key hKey ▸ List.mem_cons_self

/-- A run is complete when nothing is unfinished and no node is open. -/
theorem finish_eq_ok_iff {draft : Draft} {last : Option Token} {outline : Outline} :
    draft.finish last = .ok outline ↔
      draft.pending = .nothing ∧ draft.current = 0 ∧ outline = draft.outline := by
  unfold finish
  cases hPending : draft.pending <;> simp only [reduceCtorEq, false_and, true_and]
  split
  · next hRoot => simp [hRoot, @eq_comm _ outline]
  · next hInside => simp [hInside]

/-- A document that ends too early has its problem at its last token, or at the
key that waits for its colon. -/
theorem finish_eq_error {draft : Draft} {last : Option Token} {problem : Problem}
    (h : draft.finish last = .error problem) :
    ∃ cause, problem = .atEnd cause last ∨
      ∃ key name, draft.pending = .key key name ∧ problem = .atToken cause key := by
  unfold finish at h
  split at h
  · next key name hPending => exact ⟨_, .inr ⟨key, name, hPending, (Except.error.inj h).symm⟩⟩
  · exact ⟨_, .inl (Except.error.inj h).symm⟩
  · exact ⟨_, .inl (Except.error.inj h).symm⟩
  · exact ⟨_, .inl (Except.error.inj h).symm⟩
  · exact ⟨_, .inl (Except.error.inj h).symm⟩
  · split at h
    · exact absurd h (by simp)
    · exact ⟨_, .inl (Except.error.inj h).symm⟩

end Draft

/-- The result of a fixed document is decided by running the builder. -/
instance decidableEqResult {ε α : Type} [DecidableEq ε] [DecidableEq α] :
    DecidableEq (Except ε α)
  | .error a, .error b => decidable_of_iff (a = b) (by simp)
  | .ok a, .ok b => decidable_of_iff (a = b) (by simp)
  | .error _, .ok _ => isFalse (by simp)
  | .ok _, .error _ => isFalse (by simp)

namespace Outline

/-- An outline is what a complete run leaves. -/
theorem build_eq_ok_iff_run {ts : List Token} {outline : Outline} :
    Outline.build ts = .ok outline ↔
      ∃ draft, ts.foldlM Draft.step Draft.empty = .ok draft ∧
        draft.finish ts.getLast? = .ok outline := by
  unfold build
  cases ts.foldlM Draft.step Draft.empty <;> simp [bind, Except.bind]

/-- **Every problem stands at a token.** A document without an outline has its
problem at one of its tokens; in particular it has tokens. -/
theorem build_eq_error {ts : List Token} {problem : Problem}
    (h : Outline.build ts = .error problem) :
    ∃ t ∈ ts, ∃ cause, problem = .atToken cause t := by
  unfold build at h
  cases hRun : ts.foldlM Draft.step Draft.empty with
  | error first =>
    obtain rfl : first = problem := by simpa [hRun, bind, Except.bind] using h
    obtain ⟨place, cause, hAt, -, hMem | ⟨name, hKey⟩⟩ := Draft.foldlM_step_eq_error hRun
    · exact ⟨place, hMem, cause, hAt⟩
    · exact absurd hKey (by simp [Draft.empty])
  | ok draft =>
    have hFinish : draft.finish ts.getLast? = .error problem := by
      simpa [hRun, bind, Except.bind] using h
    obtain ⟨cause, hAt | ⟨key, name, hKey, hAt⟩⟩ := Draft.finish_eq_error hFinish
    · cases hLast : ts.getLast? with
      | some t => exact ⟨t, List.mem_of_getLast? hLast, cause, by rw [hAt, hLast]; rfl⟩
      | none =>
        -- without tokens nothing was read, and the empty draft is finished
        obtain rfl := List.getLast?_eq_none_iff.mp hLast
        obtain rfl : Draft.empty = draft := by simpa [pure, Except.pure] using hRun
        exact absurd hFinish (by simp [Draft.finish, Draft.empty])
    · rcases Draft.mem_of_foldlM_step hRun hKey with hMem | hEmpty
      · exact ⟨key, hMem, cause, hAt⟩
      · exact absurd hEmpty (by simp [Draft.empty])

end Outline

-- ---------------------------------------------------------------------------
-- Nesting
-- ---------------------------------------------------------------------------

/-- The node at a place lies inside so many nodes, the root not counted. -/
inductive Outline.Depth (outline : Outline) : Nat → Nat → Prop where
  | root (hSize : 0 < outline.nodes.size) (hParent : (outline.node 0).parent = none) :
      Depth outline 0 0
  | inside {i parent depth : Nat} (hPlace : i < outline.nodes.size)
      (hParent : (outline.node i).parent = some parent) (hDepth : Depth outline parent depth) :
      Depth outline i (depth + 1)

namespace Outline.Depth

variable {outline later : Outline} {i depth : Nat}

/-- What has a depth is a node. -/
theorem lt_size (h : outline.Depth i depth) : i < outline.nodes.size := by
  cases h with
  | root hSize => exact hSize
  | inside hPlace => exact hPlace

/-- The chain of parents ends at the root, which has none. -/
theorem parent_root (h : outline.Depth i depth) : (outline.node 0).parent = none := by
  induction h with
  | root _ hParent => exact hParent
  | inside _ _ _ ih => exact ih

/-- The root is the only place at depth zero. -/
theorem eq_zero_iff (h : outline.Depth i depth) : i = 0 ↔ depth = 0 := by
  cases h with
  | root => simp
  | inside hPlace hParent hDepth =>
    simp only [Nat.add_one_ne_zero, iff_false]
    rintro rfl
    rw [hDepth.parent_root] at hParent
    exact absurd hParent (by simp)

/-- The node around a node is one step closer to the root. -/
theorem of_parent {parent : Nat} (h : outline.Depth i depth)
    (hParent : (outline.node i).parent = some parent) :
    ∃ outer, depth = outer + 1 ∧ outline.Depth parent outer := by
  cases h with
  | root _ hNone => exact absurd (hNone.symm.trans hParent) (by simp)
  | @inside _ _ outer _ hOuter hDepth =>
    exact ⟨outer, rfl, Option.some.inj (hOuter.symm.trans hParent) ▸ hDepth⟩

/-- Depths only depend on the parents of the places that are there. -/
theorem of_parents (h : outline.Depth i depth) (hSize : outline.nodes.size ≤ later.nodes.size)
    (hParents : ∀ j < outline.nodes.size, (later.node j).parent = (outline.node j).parent) :
    later.Depth i depth := by
  induction h with
  | root hRoot hParent => exact .root (by omega) (by rw [hParents 0 hRoot, hParent])
  | inside hPlace hParent _ ih => exact .inside (by omega) (by rw [hParents _ hPlace, hParent]) ih

end Outline.Depth

/-- What a change of one node keeps, it keeps at every place. -/
theorem Outline.field_node_modify {α : Type} {field : Node → α} {nodes : Array Node} {place : Nat}
    {change : Node → Node} (hChange : ∀ node, field (change node) = field node) (i : Nat) :
    field (Outline.node ⟨nodes.modify place change⟩ i) = field (Outline.node ⟨nodes⟩ i) := by
  unfold Outline.node
  rw [Array.getD_eq_getD_getElem?, Array.getD_eq_getD_getElem?, Array.getElem?_modify]
  split
  · cases nodes[i]? <;> simp [hChange]
  · rfl

/-- A new node leaves the others where they are. -/
theorem Outline.node_push_lt {nodes : Array Node} {node : Node} {i : Nat} (h : i < nodes.size) :
    Outline.node ⟨nodes.push node⟩ i = Outline.node ⟨nodes⟩ i := by
  unfold Outline.node
  rw [Array.getD_eq_getD_getElem?, Array.getD_eq_getD_getElem?, Array.getElem?_push_lt h,
    Array.getElem?_eq_getElem h]

theorem Outline.node_push_size {nodes : Array Node} {node : Node} {i : Nat}
    (h : i = nodes.size) : Outline.node ⟨nodes.push node⟩ i = node := by
  unfold Outline.node
  simp [Array.getD_eq_getD_getElem?, h]

namespace Draft

variable {draft : Draft} {depth : Nat}

/-- An entry does not change how deep a node is. -/
theorem depth_enter (entry : Entry) (h : draft.outline.Depth draft.current depth) :
    (draft.enter entry.put).outline.Depth (draft.enter entry.put).current depth := by
  refine h.of_parents (by simp [enter]) fun j _ => Outline.field_node_modify ?_ j
  intro node
  cases entry <;> rfl

/-- A node that opens is one deeper than the node around it. -/
theorem depth_openNode (typeName : String) (role : Role) (line : Nat)
    (h : draft.outline.Depth draft.current depth) :
    (draft.openNode typeName role line).outline.Depth
      (draft.openNode typeName role line).current (depth + 1) := by
  refine @Outline.Depth.inside _ _ draft.current _ (by simp [openNode]) ?_ ?_
  · simp only [openNode]
    rw [Outline.node_push_size (by simp)]
  · refine h.of_parents (by simp [openNode]) fun j hj => ?_
    simp only [openNode]
    rw [Outline.node_push_lt (by simpa using hj)]
    refine Outline.field_node_modify (fun node => ?_) j
    cases role <;> rfl

/-- A draft as the builder leaves it: its open nodes lead back to the root, and a
value is awaited in a node only. -/
structure Nested (draft : Draft) : Prop where
  exists_depth : ∃ depth, draft.outline.Depth draft.current depth
  inside : ∀ name, draft.pending = .value name → draft.current ≠ 0

theorem depth_empty : empty.outline.Depth empty.current 0 :=
  .root (by decide) rfl

theorem nested_empty : empty.Nested where
  exists_depth := ⟨0, depth_empty⟩
  inside _ h := absurd h (by simp [empty])

/-- Every move keeps a draft nested. -/
theorem Move.nested {next : Draft} {t : Token} (hMove : draft.Move t next) (h : draft.Nested) :
    next.Nested := by
  obtain ⟨⟨depth, hDepth⟩, hInside⟩ := h
  cases hMove with
  | semicolon => exact ⟨⟨depth, hDepth⟩, hInside⟩
  | openElement => exact ⟨⟨_, depth_openNode _ _ _ hDepth⟩, by simp [openNode]⟩
  | openDefinition => exact ⟨⟨_, depth_openNode _ _ _ hDepth⟩, by simp [openNode]⟩
  | close hPending _ hParent =>
    obtain ⟨outer, -, hOuter⟩ := hDepth.of_parent hParent
    exact ⟨⟨outer, hOuter⟩, by simp [hPending]⟩
  | colon _ _ _ hNode => exact ⟨⟨depth, hDepth⟩, fun _ _ => hNode⟩
  | entry => exact ⟨⟨depth, depth_enter _ hDepth⟩, by simp [enter]⟩
  | _ => exact ⟨⟨depth, hDepth⟩, by simp⟩

/-- Every state of a run is nested. -/
theorem nested_of_foldlM_step {ts : List Token} {last : Draft} (h : draft.Nested)
    (hRun : ts.foldlM step draft = .ok last) : last.Nested := by
  induction ts generalizing draft with
  | nil =>
    obtain rfl : draft = last := by simpa [pure, Except.pure] using hRun
    exact h
  | cons t ts ih =>
    obtain ⟨next, hMove, hRest⟩ := foldlM_step_cons_eq_ok_iff.mp hRun
    exact ih (hMove.nested h) hRest

end Draft

end BindingMarkup
