import BindingMarkup.Proofs.History

/-!
# BindingMarkup — handlers at work at the same time

A session carries out one notice after the other. The service does not: it
starts a handler for every notice, in the order in which they arrive, and a
handler that waits lets the others go on. Starting a handler brings its
first effect about; when it goes on to the others is up to the scheduler.
`Service.after` runs the service along a list of such choices.

So the first effects come in the order of the notices, and only the effects
behind them can be late: the text that an opening or a change stores, and
the empty list that a closing publishes. Nothing keeps two handlers of the
same document apart. If an earlier one stores its text behind the latest,
that text stays, beside the diagnostics of the other one; and a closing
that publishes late hides the diagnostics of the text that was opened since
(`latest_overtaken` has both runs). Apart from these two cases a document
settles on its latest notice (`settled_of_noneLate`). In particular the
diagnostics of openings and changes are never overtaken by each other, and
after a closing nothing is shown, whatever the scheduler does.

* `Aspect` — what the two kinds of effects on a document have in common:
  every notice about it has one effect of each.
* `Service.Sound` — what the choices cannot change: the documents are what
  the effects in the history make of them, for every notice the effects
  that have happened and those still pending are its effects, in order, and
  an effect behind one of a later notice is not the first of its handler.
  `sound_move` is the step lemma, `sound_after` the run lemma.
* `Sound.last_eq` — an aspect that no earlier notice disturbs is left as the
  latest notice wants it.
-/

namespace BindingMarkup.Editor

-- ---------------------------------------------------------------------------
-- The service
-- ---------------------------------------------------------------------------

/-- An effect that has happened, with the number of the notice it belongs to. -/
structure Act where
  handler : Nat
  effect : Effect
  deriving DecidableEq, Repr

structure Service where
  documents : Documents := []
  /-- The notices that have arrived. Their handlers were started in this order. -/
  notices : List Notice := []
  /-- The effects that each handler still has to bring about. -/
  pending : List (List Effect) := []
  /-- What has happened, the oldest first. -/
  history : List Act := []

/-- A choice of the scheduler: another notice arrives and its handler is started, or
the handler of notice `i` goes on to its next effect. -/
inductive Move where
  | start (n : Notice)
  | proceed (i : Nat)
  deriving DecidableEq, Repr

namespace Service

/-- The effects that the handler of notice `i` still has to bring about. -/
def waiting (s : Service) (i : Nat) : List Effect :=
  s.pending[i]?.getD []

/-- The handler of notice `i` brings effects about. -/
def bring (s : Service) (i : Nat) (effects : List Effect) : Service :=
  { s with
    documents := effects.foldl Effect.apply s.documents
    history := s.history ++ effects.map (Act.mk i) }

/-- A handler comes to its first effect when it is started. One that has finished does
nothing more. -/
def move (s : Service) : Move → Service
  | .start n =>
    { s.bring s.notices.length (n.effects.take 1) with
      notices := s.notices ++ [n]
      pending := s.pending ++ [n.effects.drop 1] }
  | .proceed i =>
    { s.bring i ((s.waiting i).take 1) with pending := s.pending.set i ((s.waiting i).drop 1) }

/-- The service after the given choices. -/
def after (moves : List Move) : Service :=
  moves.foldl move {}

/-- All handlers that were started have finished. -/
def Quiet (s : Service) : Prop :=
  ∀ effects ∈ s.pending, effects = []

end Service

-- ---------------------------------------------------------------------------
-- What notices and effects say about a document
-- ---------------------------------------------------------------------------

/-- Whether a notice tells something about the text of a document. -/
def Notice.concerns (name : String) (n : Notice) : Bool :=
  ((Step.notice n).tells name).isSome

namespace Effect

/-- The document that an effect is about. -/
def name : Effect → String
  | publish name _ => name
  | store name _ => name
  | remove name => name

/-- What an effect makes of the text of a document, as `Step.tells` for steps. -/
def tells (name : String) : Effect → Option (Option String)
  | publish _ _ => none
  | store other text => if name = other then some (some text) else none
  | remove other => if name = other then some none else none

/-- The diagnostics that an effect publishes for a document. -/
def shows (name : String) : Effect → Option (List Diagnostic)
  | publish other diagnostics => if name = other then some diagnostics else none
  | store _ _ => none
  | remove _ => none

/-- Whether an effect stores a text for a document. -/
def stores (name : String) : Effect → Bool
  | store other _ => name == other
  | _ => false

/-- An effect on the text of a document is about this document. -/
theorem name_of_tells {e : Effect} {name : String} {told : Option String}
    (h : e.tells name = some told) : e.name = name := by
  cases e with
  | publish => exact absurd h (by simp [tells])
  | store other text => exact ((Option.ite_none_right_eq_some.mp h).1).symm
  | remove other => exact ((Option.ite_none_right_eq_some.mp h).1).symm

/-- So is one that publishes its diagnostics. -/
theorem name_of_shows {e : Effect} {name : String} {list : List Diagnostic}
    (h : e.shows name = some list) : e.name = name := by
  cases e with
  | publish other diagnostics => exact ((Option.ite_none_right_eq_some.mp h).1).symm
  | store => exact absurd h (by simp [shows])
  | remove => exact absurd h (by simp [shows])

/-- An effect leaves a document with what it tells about it. -/
theorem get?_apply (documents : Documents) (e : Effect) (name : String) :
    (e.apply documents).get? name = (e.tells name).getD (documents.get? name) := by
  cases e with
  | publish => rfl
  | store other text =>
    rw [apply, Documents.get?_put, tells]
    split <;> rfl
  | remove other =>
    rw [apply, Documents.get?_remove, tells]
    split <;> rfl

/-- The last effect on the text of a document counts. -/
theorem get?_foldl_apply (documents : Documents) (effects : List Effect) (name : String) :
    (effects.foldl apply documents).get? name =
      (effects.filterMap (tells name)).getLast?.getD (documents.get? name) := by
  induction effects generalizing documents with
  | nil => rfl
  | cons e more ih =>
    rw [List.foldl_cons, ih, get?_apply]
    cases hTells : e.tells name with
    | none => rw [List.filterMap_cons_none hTells, Option.getD_none]
    | some told =>
      rw [List.filterMap_cons_some hTells, List.getLast?_cons, Option.getD_some, Option.getD_some]

end Effect

/-- The diagnostics that belong to what is told about a document. -/
def diagnosticsOf (told : Option String) : List Diagnostic :=
  (told.map diagnostics).getD []

/-- A notice that tells something about a document has one effect on its text and one on
its diagnostics. -/
theorem Notice.effects_of_tells {n : Notice} {name : String} {told : Option String}
    (h : (Step.notice n).tells name = some told) :
    n.effects.filterMap (Effect.tells name) = [told] ∧
      n.effects.filterMap (Effect.shows name) = [diagnosticsOf told] := by
  cases n with
  | opened other text =>
    simp only [Step.tells, Option.ite_none_right_eq_some, Option.some.injEq] at h
    obtain ⟨rfl, rfl⟩ := h
    simp [effects, updateEffects, List.filterMap_cons, Effect.tells, Effect.shows, diagnosticsOf]
  | changed other texts =>
    simp only [Step.tells, Option.ite_none_right_eq_some, Option.map_eq_some_iff] at h
    obtain ⟨rfl, text, hText, rfl⟩ := h
    simp [effects, hText, updateEffects, List.filterMap_cons, Effect.tells, Effect.shows,
      diagnosticsOf]
  | closed other =>
    simp only [Step.tells, Option.ite_none_right_eq_some, Option.some.injEq] at h
    obtain ⟨rfl, rfl⟩ := h
    simp [effects, List.filterMap_cons, Effect.tells, Effect.shows, diagnosticsOf]

/-- A notice tells something about every document that it has an effect on. -/
theorem Notice.concerns_of_mem {n : Notice} {e : Effect} (h : e ∈ n.effects) :
    n.concerns e.name = true := by
  cases n with
  | opened other text =>
    simp only [effects, updateEffects, List.mem_cons, List.not_mem_nil, or_false] at h
    rcases h with rfl | rfl <;> simp [concerns, Step.tells, Effect.name]
  | changed other texts =>
    cases hText : texts.getLast? with
    | none => simp [effects, hText] at h
    | some text =>
      simp only [effects, hText, updateEffects, List.mem_cons, List.not_mem_nil, or_false] at h
      rcases h with rfl | rfl <;> simp [concerns, Step.tells, Effect.name, hText]
  | closed other =>
    simp only [effects, List.mem_cons, List.not_mem_nil, or_false] at h
    rcases h with rfl | rfl <;> simp [concerns, Step.tells, Effect.name]

/-- What a handler does behind its first effect: an opening or a change stores its text,
and a closing publishes that there is nothing to show. -/
theorem Notice.late_cases {n : Notice} {e : Effect} (h : e ∈ n.effects.drop 1) :
    (∃ text, e = .store e.name text) ∨ n = .closed e.name ∧ e = .publish e.name [] := by
  cases n with
  | opened other text =>
    simp only [effects, updateEffects, List.drop_succ_cons, List.drop_zero,
      List.mem_singleton] at h
    exact .inl ⟨text, by rw [h]; rfl⟩
  | changed other texts =>
    cases hText : texts.getLast? with
    | none => simp [effects, hText] at h
    | some text =>
      simp only [effects, hText, updateEffects, List.drop_succ_cons, List.drop_zero,
        List.mem_singleton] at h
      exact .inl ⟨text, by rw [h]; rfl⟩
  -- only a closing publishes in its second step
  | closed other =>
    simp only [effects, List.drop_succ_cons, List.drop_zero, List.mem_singleton] at h
    exact .inr ⟨by rw [h]; rfl, by rw [h]; rfl⟩

/-- Only a closing tells that the text of a document is gone. -/
theorem Notice.eq_closed_of_tells {n : Notice} {name : String}
    (h : (Step.notice n).tells name = some none) : n = .closed name := by
  cases n with
  | opened other text => simp [Step.tells] at h
  | changed other texts => simp [Step.tells] at h
  | closed other =>
    obtain ⟨rfl, -⟩ := Option.ite_none_right_eq_some.mp h
    rfl

/-- A kind of effect on a document. Every notice about the document has one of it, which
leaves what belongs to the text that the notice tells. -/
structure Aspect (name : String) (α : Type) where
  /-- What an effect of this kind leaves, and nothing for other effects. -/
  left : Effect → Option α
  /-- What belongs to a text. -/
  due : Option String → α
  name_of_left : ∀ {e : Effect} {a : α}, left e = some a → e.name = name
  effects : ∀ {n : Notice} {told : Option String}, (Step.notice n).tells name = some told →
    n.effects.filterMap left = [due told]

namespace Aspect

/-- The text that is stored for a document. -/
def text (name : String) : Aspect name (Option String) where
  left := Effect.tells name
  due := id
  name_of_left := Effect.name_of_tells
  effects h := (Notice.effects_of_tells h).1

/-- The diagnostics that are published for a document. -/
def diagnostics (name : String) : Aspect name (List Diagnostic) where
  left := Effect.shows name
  due := diagnosticsOf
  name_of_left := Effect.name_of_shows
  effects h := (Notice.effects_of_tells h).2

end Aspect

namespace Service

-- ---------------------------------------------------------------------------
-- What the scheduler cannot change
-- ---------------------------------------------------------------------------

/-- The effects of notice `i` that have happened. -/
def done (s : Service) (i : Nat) : List Effect :=
  (s.history.filter fun act => act.handler == i).map Act.effect

/-- The effects of notice `i`, and none while it has not arrived. -/
def effectsOf (s : Service) (i : Nat) : List Effect :=
  (s.notices[i]?.map Notice.effects).getD []

/-- Nothing that has happened depends on the choices, and what comes behind an effect of
a later notice is not the first effect of its own. -/
structure Sound (s : Service) : Prop where
  documents : s.documents = (s.history.map Act.effect).foldl Effect.apply []
  pending : s.pending.length = s.notices.length
  handlers : ∀ i, s.done i ++ s.waiting i = s.effectsOf i
  started : ∀ i, s.waiting i <:+ (s.effectsOf i).drop 1
  inOrder : s.history.Pairwise fun act next =>
    next.handler < act.handler → next.effect ∈ (s.effectsOf next.handler).drop 1

/-- What a handler brings about is done then, and nothing else is. -/
theorem done_bring (s : Service) (i : Nat) (effects : List Effect) (j : Nat) :
    (s.bring i effects).done j = s.done j ++ if i = j then effects else [] := by
  rw [bring, done, List.filter_append, List.map_append, done]
  by_cases hHere : i = j <;> simp [hHere, List.filter_map, Function.comp_def]

/-- What has happened belongs to a notice that has arrived. -/
theorem Sound.exists_notice {s : Service} (h : s.Sound) {act : Act} (hAct : act ∈ s.history) :
    ∃ n, s.notices[act.handler]? = some n ∧ act.effect ∈ n.effects := by
  have hDone : act.effect ∈ s.done act.handler :=
    List.mem_map.mpr ⟨act, List.mem_filter.mpr ⟨hAct, by simp⟩, rfl⟩
  have hEffect : act.effect ∈ s.effectsOf act.handler :=
    h.handlers act.handler ▸ List.mem_append_left _ hDone
  rw [effectsOf] at hEffect
  cases hNotice : s.notices[act.handler]? with
  | none => simp [hNotice] at hEffect
  | some n => exact ⟨n, rfl, by simpa [hNotice] using hEffect⟩

/-- So its handler is one of those that were started. -/
theorem Sound.handler_lt {s : Service} (h : s.Sound) {act : Act} (hAct : act ∈ s.history) :
    act.handler < s.notices.length := by
  obtain ⟨n, hNotice, -⟩ := h.exists_notice hAct
  exact (List.getElem?_eq_some_iff.mp hNotice).1

/-- The effects of the notices that have arrived do not change when another one does. -/
theorem effectsOf_start {s : Service} (n : Notice) (i : Nat) :
    (s.move (.start n)).effectsOf i =
      if i = s.notices.length then n.effects else s.effectsOf i := by
  show ((s.notices ++ [n])[i]?.map Notice.effects).getD [] = _
  rw [List.getElem?_append, effectsOf]
  split
  · next hOld => rw [if_neg (Nat.ne_of_lt hOld)]
  · next hNew =>
    have hNone : s.notices[i]? = none := List.getElem?_eq_none (Nat.not_lt.mp hNew)
    rw [hNone]
    by_cases hHere : i = s.notices.length
    · simp [hHere]
    · rw [if_neg hHere, List.getElem?_eq_none (by simp only [List.length_singleton]; omega)]

/-- A handler that is started has everything behind its first effect before it. -/
theorem Sound.waiting_start {s : Service} (h : s.Sound) (n : Notice) (i : Nat) :
    (s.move (.start n)).waiting i =
      if i = s.notices.length then n.effects.drop 1 else s.waiting i := by
  show (s.pending ++ [n.effects.drop 1])[i]?.getD [] = _
  rw [List.getElem?_append, h.pending, waiting]
  split
  · next hOld => rw [if_neg (Nat.ne_of_lt hOld)]
  · next hNew =>
    have hNone : s.pending[i]? = none :=
      List.getElem?_eq_none (h.pending ▸ Nat.not_lt.mp hNew)
    rw [hNone]
    by_cases hHere : i = s.notices.length
    · simp [hHere]
    · rw [if_neg hHere, List.getElem?_eq_none (by simp only [List.length_singleton]; omega)]

/-- Going on takes one effect from a handler, and nothing from the others. -/
theorem waiting_proceed (s : Service) (i j : Nat) :
    (s.move (.proceed i)).waiting j =
      if i = j then (s.waiting i).drop 1 else s.waiting j := by
  show (s.pending.set i ((s.waiting i).drop 1))[j]?.getD [] = _
  rw [List.getElem?_set]
  by_cases hHere : i = j
  · subst hHere
    by_cases hBound : i < s.pending.length
    · simp [hBound]
    · -- there is no such handler, and nothing is pending for it
      simp [hBound, waiting]
  · simp [hHere, waiting]

/-- A handler that is started has the highest number, so its first effect is not late. -/
theorem sound_start {s : Service} (h : s.Sound) (n : Notice) : (s.move (.start n)).Sound where
  documents := by
    show (n.effects.take 1).foldl Effect.apply s.documents = _
    simp [move, bring, h.documents, Function.comp_def]
  pending := by simp [move, h.pending]
  handlers i := by
    show (s.bring s.notices.length (n.effects.take 1)).done i ++ (s.move (.start n)).waiting i = _
    rw [done_bring, h.waiting_start, effectsOf_start]
    have hHandler := h.handlers i
    by_cases hHere : i = s.notices.length
    · -- nothing can have happened for a notice that was not there
      subst hHere
      have hDone : s.done s.notices.length = [] := by
        rw [effectsOf, List.getElem?_eq_none (Nat.le_refl _)] at hHandler
        exact (List.append_eq_nil_iff.mp hHandler).1
      rw [hDone, if_pos rfl, if_pos rfl, if_pos rfl, List.nil_append, List.take_append_drop]
    · rw [if_neg (Ne.symm hHere), if_neg hHere, if_neg hHere, List.append_nil]
      exact hHandler
  started i := by
    rw [h.waiting_start, effectsOf_start]
    split
    · exact List.suffix_rfl
    · exact h.started i
  inOrder := by
    show (s.history ++ (n.effects.take 1).map (Act.mk s.notices.length)).Pairwise _
    refine List.pairwise_append.mpr ⟨?_, ?_, fun act hAct next hNext hLate => ?_⟩
    · refine List.Pairwise.imp_of_mem (fun hAct hNext hOrder hLate => ?_) h.inOrder
      rw [effectsOf_start, if_neg (Nat.ne_of_lt (h.handler_lt hNext))]
      exact hOrder hLate
    · cases n.effects <;> simp
    · -- the notice is later than all whose effects have happened
      obtain ⟨effect, -, rfl⟩ := List.mem_map.mp hNext
      exact absurd hLate (Nat.not_lt.mpr (Nat.le_of_lt (h.handler_lt hAct)))

/-- A handler that goes on has had its first effect, so what it does may be late. -/
theorem sound_proceed {s : Service} (h : s.Sound) (i : Nat) : (s.move (.proceed i)).Sound where
  documents := by
    show ((s.waiting i).take 1).foldl Effect.apply s.documents = _
    simp [move, bring, h.documents, Function.comp_def]
  pending := by simp [move, bring, h.pending]
  handlers j := by
    show (s.bring i ((s.waiting i).take 1)).done j ++ (s.move (.proceed i)).waiting j =
      s.effectsOf j
    rw [done_bring, waiting_proceed, ← h.handlers j]
    by_cases hHere : i = j
    · -- the effect goes over from what is pending to what is done
      subst hHere
      rw [if_pos rfl, if_pos rfl, List.append_assoc, List.take_append_drop]
    · rw [if_neg hHere, if_neg hHere, List.append_nil]
  started j := by
    show (s.move (.proceed i)).waiting j <:+ (s.effectsOf j).drop 1
    rw [waiting_proceed]
    split
    · next hHere =>
      subst hHere
      exact (List.drop_suffix 1 _).trans (h.started i)
    · exact h.started j
  inOrder := by
    show (s.history ++ ((s.waiting i).take 1).map (Act.mk i)).Pairwise fun act next =>
      next.handler < act.handler → next.effect ∈ (s.effectsOf next.handler).drop 1
    refine List.pairwise_append.mpr ⟨h.inOrder, ?_, fun act hAct next hNext hLate => ?_⟩
    · cases s.waiting i <;> simp
    · -- what is pending is behind the first effect
      obtain ⟨effect, hEffect, rfl⟩ := List.mem_map.mp hNext
      exact (h.started i).mem (List.mem_of_mem_take hEffect)

/-- The step lemma: no choice breaks it. -/
theorem sound_move {s : Service} (h : s.Sound) (m : Move) : (s.move m).Sound := by
  cases m with
  | start n => exact sound_start h n
  | proceed i => exact sound_proceed h i

/-- The run lemma: no list of choices does. -/
theorem sound_after (moves : List Move) : (after moves).Sound := by
  have hStart : (Service.mk [] [] [] []).Sound :=
    ⟨rfl, rfl, fun _ => rfl, fun _ => List.suffix_rfl, .nil⟩
  have hRun : ∀ (s : Service), s.Sound → (moves.foldl move s).Sound := by
    induction moves with
    | nil => exact fun s h => h
    | cons m more ih => exact fun s h => ih _ (sound_move h m)
  exact hRun _ hStart

/-- Once a handler has finished, its effects have happened in their order. -/
theorem Sound.done_eq {s : Service} (h : s.Sound) (hQuiet : s.Quiet) (i : Nat) :
    s.done i = s.effectsOf i := by
  have hNone : s.waiting i = [] := by
    rw [waiting]
    cases hPending : s.pending[i]? with
    | none => rfl
    | some effects => exact hQuiet effects (List.mem_of_getElem? hPending)
  rw [← h.handlers i, hNone, List.append_nil]

-- ---------------------------------------------------------------------------
-- Where a document settles
-- ---------------------------------------------------------------------------

/-- What the last effect of a kind has left. -/
def last {name : String} {α : Type} (s : Service) (aspect : Aspect name α) : Option α :=
  (s.history.filterMap fun act => aspect.left act.effect).getLast?

/-- The diagnostics of a document that were published last, and none before that. -/
def shown (s : Service) (name : String) : List Diagnostic :=
  (s.last (.diagnostics name)).getD []

/-- The text that the latest notice tells about a document. -/
def latestText (s : Service) (name : String) : Option String :=
  textAfter (s.notices.map .notice) name

/-- No notice about a document has arrived behind notice `i`. -/
def IsLatest (s : Service) (name : String) (i : Nat) : Prop :=
  ∀ n ∈ s.notices.drop (i + 1), n.concerns name = false

/-- No earlier opening or change stores its text behind what the latest notice about the
document does to the text. -/
def NoLateStore (s : Service) (name : String) : Prop :=
  s.history.Pairwise fun act next =>
    s.IsLatest name act.handler → (act.effect.tells name).isSome = true →
      next.handler < act.handler → next.effect.stores name = false

/-- No earlier closing publishes its empty list behind the diagnostics of the latest
notice about the document, where this is an opening or a change. -/
def NoLateClosing (s : Service) (name : String) : Prop :=
  s.history.Pairwise fun act next =>
    s.IsLatest name act.handler → (act.effect.shows name).isSome = true →
      s.notices[act.handler]? ≠ some (.closed name) →
      next.handler < act.handler → s.notices[next.handler]? = some (.closed name) →
        next.effect.shows name = none

/-- No earlier notice leaves something else of an aspect behind the latest notice about
the document. -/
def Undisturbed {name : String} {α : Type} (s : Service) (aspect : Aspect name α) : Prop :=
  s.history.Pairwise fun act next => ∀ a b, aspect.left act.effect = some a →
    aspect.left next.effect = some b → next.handler < act.handler →
      s.IsLatest name act.handler → b = a

instance (s : Service) (name : String) (i : Nat) : Decidable (s.IsLatest name i) :=
  inferInstanceAs (Decidable (∀ n ∈ _, _))

instance (s : Service) (name : String) : Decidable (s.NoLateStore name) :=
  inferInstanceAs (Decidable (List.Pairwise _ _))

instance (s : Service) (name : String) : Decidable (s.NoLateClosing name) :=
  inferInstanceAs (Decidable (List.Pairwise _ _))

/-- What is stored for a document comes from the last of the effects on its text. -/
theorem Sound.get?_documents {s : Service} (h : s.Sound) (name : String) :
    s.documents.get? name = (s.last (.text name)).getD none := by
  rw [h.documents, Effect.get?_foldl_apply, List.filterMap_map]
  rfl

/-- The latest notice about a document, if there is one. -/
theorem exists_latest (s : Service) (name : String) :
    (∀ n ∈ s.notices, n.concerns name = false) ∨
      ∃ front n back, s.notices = front ++ n :: back ∧ n.concerns name = true ∧
        ∀ m ∈ back, m.concerns name = false := by
  induction s.notices with
  | nil => exact .inl (by simp)
  | cons first more ih =>
    rcases ih with hNone | ⟨front, n, back, rfl, hHere, hBack⟩
    · cases hFirst : first.concerns name with
      | false => exact .inl (List.forall_mem_cons.mpr ⟨hFirst, hNone⟩)
      | true => exact .inr ⟨[], first, more, rfl, hFirst, hNone⟩
    · exact .inr ⟨first :: front, n, back, rfl, hHere, hBack⟩

/-- What the latest notice about a document tells is its latest text. -/
theorem latestText_of_latest {s : Service} {name : String} {front back : List Notice} {n : Notice}
    {told : Option String} (hNotices : s.notices = front ++ n :: back)
    (hTells : (Step.notice n).tells name = some told)
    (hBack : ∀ m ∈ back, m.concerns name = false) : s.latestText name = told := by
  have hRest : (back.map Step.notice).filterMap (Step.tells name) = [] := by
    rw [List.filterMap_map, List.filterMap_eq_nil_iff]
    intro m hm
    have hNot := hBack m hm
    rw [Notice.concerns, Option.isSome_eq_false_iff, Option.isNone_iff_eq_none] at hNot
    exact hNot
  rw [latestText, textAfter, hNotices, List.map_append, List.map_cons, List.filterMap_append,
    List.filterMap_cons_some hTells, hRest]
  simp

/-- Nothing happens to a document for a notice behind the latest one about it. -/
theorem Sound.handler_le {s : Service} (h : s.Sound) {name : String} {front back : List Notice}
    {n : Notice} (hNotices : s.notices = front ++ n :: back)
    (hBack : ∀ m ∈ back, m.concerns name = false) {act : Act} (hAct : act ∈ s.history)
    (hName : act.effect.name = name) : act.handler ≤ front.length := by
  refine Nat.le_of_not_lt fun hLater => ?_
  obtain ⟨m, hNotice, hEffect⟩ := h.exists_notice hAct
  have hMem : m ∈ back := by
    obtain ⟨k, hk⟩ := Nat.exists_eq_add_of_lt hLater
    rw [hNotices, hk, Nat.add_assoc, List.getElem?_append_right (Nat.le_add_right _ _),
      Nat.add_sub_cancel_left, List.getElem?_cons_succ] at hNotice
    exact List.mem_of_getElem? hNotice
  have hConcerns := Notice.concerns_of_mem hEffect
  rw [hName, hBack m hMem] at hConcerns
  exact absurd hConcerns (by simp)

/-- The last effect of a kind, with what happened before and behind it. -/
theorem exists_act_of_last {name : String} {α : Type} {s : Service} {aspect : Aspect name α}
    {a : α} (h : s.last aspect = some a) :
    ∃ before act behind, s.history = before ++ act :: behind ∧ aspect.left act.effect = some a ∧
      ∀ next ∈ behind, aspect.left next.effect = none := by
  obtain ⟨values, hValues⟩ := List.getLast?_eq_some_iff.mp h
  obtain ⟨before, tail, hHistory, -, hTail⟩ := List.filterMap_eq_append_iff.mp hValues
  obtain ⟨between, act, behind, rfl, -, hAct, hBehind⟩ := List.filterMap_eq_cons_iff.mp hTail
  exact ⟨before ++ between, act, behind, by simp [hHistory], hAct,
    List.filterMap_eq_nil_iff.mp hBehind⟩

/-- Whatever an effect leaves belongs to what a notice about its document tells. -/
theorem Sound.exists_tells {name : String} {α : Type} {s : Service} (h : s.Sound)
    {aspect : Aspect name α} {act : Act} (hAct : act ∈ s.history) {a : α}
    (hLeft : aspect.left act.effect = some a) :
    ∃ n told, s.notices[act.handler]? = some n ∧ (Step.notice n).tells name = some told ∧
      a = aspect.due told := by
  obtain ⟨n, hNotice, hEffect⟩ := h.exists_notice hAct
  have hConcerns := Notice.concerns_of_mem hEffect
  rw [aspect.name_of_left hLeft] at hConcerns
  obtain ⟨told, hTells⟩ := Option.isSome_iff_exists.mp hConcerns
  have hMem : a ∈ n.effects.filterMap aspect.left := List.mem_filterMap.mpr ⟨_, hEffect, hLeft⟩
  rw [aspect.effects hTells, List.mem_singleton] at hMem
  exact ⟨n, told, hNotice, hTells, hMem⟩

/-- What is left in the end belongs to what one of the notices tells. -/
theorem Sound.last_cases {name : String} {α : Type} {s : Service} (h : s.Sound)
    (aspect : Aspect name α) :
    s.last aspect = none ∨ ∃ n ∈ s.notices, ∃ told, (Step.notice n).tells name = some told ∧
      s.last aspect = some (aspect.due told) := by
  cases hLast : s.last aspect with
  | none => exact .inl rfl
  | some a =>
    obtain ⟨before, act, behind, hHistory, hLeft, -⟩ := exists_act_of_last hLast
    obtain ⟨n, told, hNotice, hTells, rfl⟩ := h.exists_tells (by simp [hHistory]) hLeft
    exact .inr ⟨n, List.mem_of_getElem? hNotice, told, hTells, rfl⟩

/-- The effect of a notice on an aspect has happened once all handlers have finished. -/
theorem Sound.exists_act {name : String} {α : Type} {s : Service} (h : s.Sound) (hQuiet : s.Quiet)
    (aspect : Aspect name α) {i : Nat} {n : Notice} (hNotice : s.notices[i]? = some n)
    {told : Option String} (hTells : (Step.notice n).tells name = some told) :
    ∃ act ∈ s.history, act.handler = i ∧ aspect.left act.effect = some (aspect.due told) := by
  have hDone : s.done i = n.effects := by
    rw [h.done_eq hQuiet, effectsOf, hNotice]
    rfl
  have hMem : aspect.due told ∈ n.effects.filterMap aspect.left := by simp [aspect.effects hTells]
  obtain ⟨e, hEffect, hLeft⟩ := List.mem_filterMap.mp hMem
  rw [← hDone] at hEffect
  obtain ⟨act, hAct, rfl⟩ := List.mem_map.mp hEffect
  obtain ⟨hHistory, hHere⟩ := List.mem_filter.mp hAct
  exact ⟨act, hHistory, beq_iff_eq.mp hHere, hLeft⟩

/-- **An aspect that is not disturbed is left as the latest notice wants it.** -/
theorem Sound.last_eq {name : String} {α : Type} {s : Service} (h : s.Sound) (hQuiet : s.Quiet)
    {aspect : Aspect name α} (hOrder : s.Undisturbed aspect) {front back : List Notice}
    {n : Notice} (hNotices : s.notices = front ++ n :: back) {told : Option String}
    (hTells : (Step.notice n).tells name = some told)
    (hBack : ∀ m ∈ back, m.concerns name = false) :
    s.last aspect = some (aspect.due told) := by
  have hNotice : s.notices[front.length]? = some n := by simp [hNotices]
  have hLatest : s.IsLatest name front.length := by simpa [IsLatest, hNotices] using hBack
  obtain ⟨latest, hMem, hHandler, hDue⟩ := h.exists_act hQuiet aspect hNotice hTells
  cases hLast : s.last aspect with
  | none =>
    have hNone := List.filterMap_eq_nil_iff.mp (List.getLast?_eq_none_iff.mp hLast) latest hMem
    rw [hDue] at hNone
    exact absurd hNone (by simp)
  | some a =>
    obtain ⟨before, act, behind, hHistory, hLeft, hBehind⟩ := exists_act_of_last hLast
    have hAct : act ∈ s.history := by simp [hHistory]
    have hLe := h.handler_le hNotices hBack hAct (aspect.name_of_left hLeft)
    rcases Nat.lt_or_eq_of_le hLe with hEarlier | hSame
    · -- an earlier notice came last, behind the latest one, and left the same
      rw [hHistory, List.mem_append, List.mem_cons] at hMem
      rcases hMem with hBefore | rfl | hAfter
      · rw [Undisturbed, hHistory] at hOrder
        have hPair := (List.pairwise_append.mp hOrder).2.2 latest hBefore act List.mem_cons_self
        rw [hPair _ a hDue hLeft (hHandler ▸ hEarlier) (hHandler ▸ hLatest)]
      · exact absurd hHandler (Nat.ne_of_lt hEarlier)
      · rw [hBehind latest hAfter] at hDue
        exact absurd hDue (by simp)
    · -- the latest notice came last
      obtain ⟨m, told', hNotice', hTells', rfl⟩ := h.exists_tells hAct hLeft
      obtain rfl : n = m := Option.some.inj (hNotice.symm.trans (hSame ▸ hNotice'))
      rw [Option.some.inj (hTells.symm.trans hTells')]

/-- The same for a document without notices: then nothing has happened to it. -/
theorem Sound.last_eq_none {name : String} {α : Type} {s : Service} (h : s.Sound)
    (hNone : ∀ n ∈ s.notices, n.concerns name = false) (aspect : Aspect name α) :
    s.last aspect = none := by
  rcases h.last_cases aspect with hLast | ⟨n, hn, told, hTells, -⟩
  · exact hLast
  · have hNot := hNone n hn
    rw [Notice.concerns, hTells] at hNot
    exact absurd hNot (by simp)

/-- What is left of an aspect that is not disturbed, whether there is a latest notice or
not. -/
theorem Sound.last_getD {name : String} {α : Type} {s : Service} (h : s.Sound)
    (hQuiet : s.Quiet) {aspect : Aspect name α} (hOrder : s.Undisturbed aspect) :
    (s.last aspect).getD (aspect.due none) = aspect.due (s.latestText name) := by
  rcases s.exists_latest name with hNone | ⟨front, n, back, hNotices, hConcerns, hBack⟩
  · have hTold : (s.notices.map Step.notice).filterMap (Step.tells name) = [] := by
      simpa [List.filterMap_eq_nil_iff, Notice.concerns] using hNone
    rw [h.last_eq_none hNone, latestText, textAfter, hTold]
    rfl
  · obtain ⟨told, hTells⟩ := Option.isSome_iff_exists.mp hConcerns
    rw [h.last_eq hQuiet hOrder hNotices hTells hBack, latestText_of_latest hNotices hTells hBack]
    rfl

-- ---------------------------------------------------------------------------
-- What can be late
-- ---------------------------------------------------------------------------

/-- Only a text that is stored late can disturb the text of a document: a closing removes
it when it is started. -/
theorem Sound.undisturbed_text {s : Service} (h : s.Sound) {name : String}
    (hStore : s.NoLateStore name) : s.Undisturbed (.text name) := by
  refine List.Pairwise.imp_of_mem ?_ (h.inOrder.and hStore)
  rintro act next - hNext ⟨hOrder, hNone⟩ a b hLeft hLate hEarlier hLatest
  obtain ⟨n, hNotice, -⟩ := h.exists_notice hNext
  have hBehind := hOrder hEarlier
  rw [effectsOf, hNotice] at hBehind
  have hName : next.effect.name = name := Effect.name_of_tells hLate
  rcases Notice.late_cases hBehind with ⟨text, hText⟩ | ⟨-, hEmpty⟩
  · -- the proviso rules it out
    have hNot := hNone hLatest (Option.isSome_of_eq_some hLeft) hEarlier
    rw [hText, hName] at hNot
    simp [Effect.stores] at hNot
  · have hTells : next.effect.tells name = some b := hLate
    rw [hEmpty] at hTells
    exact absurd hTells (by simp [Effect.tells])

/-- Only an empty list that is published late can disturb the diagnostics of a document:
openings and changes publish theirs when they are started. -/
theorem Sound.undisturbed_diagnostics {s : Service} (h : s.Sound) {name : String}
    (hClosing : s.NoLateClosing name) : s.Undisturbed (.diagnostics name) := by
  refine List.Pairwise.imp_of_mem ?_ (h.inOrder.and hClosing)
  rintro act next hAct hNext ⟨hOrder, hNone⟩ a b hLeft hLate hEarlier hLatest
  obtain ⟨n, hNotice, -⟩ := h.exists_notice hNext
  have hBehind := hOrder hEarlier
  rw [effectsOf, hNotice] at hBehind
  have hShows : next.effect.shows name = some b := hLate
  have hName : next.effect.name = name := Effect.name_of_shows hShows
  rcases Notice.late_cases hBehind with ⟨text, hText⟩ | ⟨hClosed, hEmpty⟩
  · rw [hText] at hShows
    exact absurd hShows (by simp [Effect.shows])
  · rw [hEmpty, hName] at hShows
    obtain rfl : [] = b := by simpa [Effect.shows] using hShows
    by_cases hAlso : s.notices[act.handler]? = some (.closed name)
    · -- the latest notice is a closing as well, and has published the same
      obtain ⟨m, told, hm, hTells, rfl⟩ := h.exists_tells hAct hLeft
      obtain rfl : m = .closed name := Option.some.inj (hm.symm.trans hAlso)
      obtain rfl : none = told := by simpa [Step.tells] using hTells
      rfl
    · have hNot := hNone hLatest (Option.isSome_of_eq_some hLeft) hAlso hEarlier
        (by rw [hNotice, hClosed, hName])
      rw [hEmpty, hName] at hNot
      simp [Effect.shows] at hNot

/-- If the text is gone, the latest notice was a closing, and then no closing counts as
late. -/
theorem Sound.noLateClosing_of_latestText {s : Service} (h : s.Sound) {name : String}
    (hText : s.latestText name = none) : s.NoLateClosing name := by
  refine List.Pairwise.imp_of_mem ?_ h.inOrder
  intro act next hAct _ _ hLatest hShows hOpen _ _
  obtain ⟨list, hList⟩ := Option.isSome_iff_exists.mp hShows
  have hLeft : (Aspect.diagnostics name).left act.effect = some list := hList
  obtain ⟨n, told, hNotice, hTells, -⟩ := h.exists_tells hAct hLeft
  obtain ⟨hBound, rfl⟩ := List.getElem?_eq_some_iff.mp hNotice
  have hSplit : s.notices = s.notices.take act.handler ++
      s.notices[act.handler] :: s.notices.drop (act.handler + 1) := by simp
  have hTold := latestText_of_latest hSplit hTells hLatest
  rw [hText] at hTold
  subst hTold
  exact absurd (hNotice.trans (congrArg some (Notice.eq_closed_of_tells hTells))) hOpen

/-- Without a closing of the document there is no late one. -/
theorem noLateClosing_of_not_mem {s : Service} {name : String}
    (h : Notice.closed name ∉ s.notices) : s.NoLateClosing name := by
  refine List.pairwise_of_forall fun act next _ _ _ _ hClosed => ?_
  exact absurd (List.mem_of_getElem? hClosed) h

end Service

/-- **A document settles on its latest notice**, unless an earlier handler is late.
Whatever the notices and the choices of the scheduler, once all handlers have finished,
the text of a document is the one its latest notice tells if no earlier opening or change
stores its text behind the latest one, and the diagnostics shown are those of this text
if no earlier closing publishes behind the latest one. The latter is so whenever the
document was not closed at all, and after a closing nothing is shown in any case. Both
the text and the diagnostics come from notices about this document. -/
theorem settled_of_noneLate (moves : List Move) (hQuiet : (Service.after moves).Quiet)
    (name : String) :
    ((Service.after moves).NoLateStore name →
      (Service.after moves).documents.get? name = (Service.after moves).latestText name) ∧
    ((Service.after moves).NoLateClosing name →
      (Service.after moves).shown name =
        diagnosticsOf ((Service.after moves).latestText name)) ∧
    (.closed name ∉ (Service.after moves).notices →
      (Service.after moves).shown name =
        diagnosticsOf ((Service.after moves).latestText name)) ∧
    ((Service.after moves).latestText name = none → (Service.after moves).shown name = []) ∧
    ((Service.after moves).documents.get? name = none ∨
      ∃ n ∈ (Service.after moves).notices,
        (Step.notice n).tells name = some ((Service.after moves).documents.get? name)) ∧
    ((Service.after moves).shown name = [] ∨
      ∃ n ∈ (Service.after moves).notices, ∃ told, (Step.notice n).tells name = some told ∧
        (Service.after moves).shown name = diagnosticsOf told) := by
  have hSound := Service.sound_after moves
  have hShown : (Service.after moves).NoLateClosing name →
      (Service.after moves).shown name = diagnosticsOf ((Service.after moves).latestText name) :=
    fun hClosing => hSound.last_getD hQuiet (hSound.undisturbed_diagnostics hClosing)
  refine ⟨fun hStore => ?_, hShown, fun hNone => ?_, fun hGone => ?_, ?_, ?_⟩
  · rw [hSound.get?_documents]
    exact hSound.last_getD hQuiet (hSound.undisturbed_text hStore)
  · exact hShown (Service.noLateClosing_of_not_mem hNone)
  · -- the latest notice is a closing, and no earlier one publishes anything else
    rw [hShown (hSound.noLateClosing_of_latestText hGone), hGone]
    rfl
  · rw [hSound.get?_documents]
    -- whatever overtook whatever, the last effect came from some notice
    rcases hSound.last_cases (.text name) with hLast | ⟨n, hn, told, hTells, hLast⟩
    · exact .inl (by rw [hLast]; rfl)
    · exact .inr ⟨n, hn, by rw [hLast]; exact hTells⟩
  · rw [Service.shown]
    rcases hSound.last_cases (.diagnostics name) with hLast | ⟨n, hn, told, hTells, hLast⟩
    · exact .inl (by rw [hLast]; rfl)
    · exact .inr ⟨n, hn, told, hTells, by rw [hLast]; rfl⟩

/-- Two documents in turns. The first is changed before its opening has stored the text;
the second is closed twice, and the first closing publishes behind the second. -/
def inTurns : List Move :=
  [.start (.opened "a" ""), .start (.opened "b" "A"), .proceed 1, .start (.changed "a" ["A"]),
    .start (.closed "b"), .proceed 0, .start (.closed "b"), .proceed 4, .proceed 2, .proceed 3]

/-- The steps of both documents are mixed, and the second closing of `b` ends before the
first. -/
theorem settled_inTurns :
    (Service.after inTurns).Quiet ∧
      (Service.after inTurns).documents.get? "a" = some "A" ∧
      (Service.after inTurns).shown "a" = diagnostics "A" ∧
      (Service.after inTurns).documents.get? "b" = none ∧
      (Service.after inTurns).shown "b" = [] := by
  have hQuiet : (Service.after inTurns).Quiet := by
    unfold Service.Quiet
    decide +kernel
  obtain ⟨hText, -, hShown, -⟩ := settled_of_noneLate inTurns hQuiet "a"
  obtain ⟨hGone, -, -, hNothing, -⟩ := settled_of_noneLate inTurns hQuiet "b"
  have hLatest : (Service.after inTurns).latestText "a" = some "A" := by decide +kernel
  have hClosed : (Service.after inTurns).latestText "b" = none := by decide +kernel
  rw [hLatest] at hText hShown
  rw [hClosed] at hGone
  exact ⟨hQuiet, hText (by decide +kernel), hShown (by decide +kernel), hGone (by decide +kernel),
    hNothing hClosed⟩

/-- The change stores its text before the opening does. -/
def lateStore : List Move :=
  [.start (.opened "a" ""), .start (.changed "a" ["A"]), .proceed 1, .proceed 0]

/-- A document is closed and opened again, and only then the closing goes on. -/
def lateClosing : List Move :=
  [.start (.opened "a" "A"), .proceed 0, .start (.closed "a"), .start (.opened "a" "A"),
    .proceed 2, .proceed 1]

/-- Handlers that overlap can leave the text of an earlier notice beside the diagnostics
of the latest one; and they can leave the text of the latest one without diagnostics. -/
theorem latest_overtaken :
    ((Service.after lateStore).Quiet ∧
      (Service.after lateStore).latestText "a" = some "A" ∧
      (Service.after lateStore).documents.get? "a" = some "" ∧
      (Service.after lateStore).shown "a" ≠
        diagnosticsOf ((Service.after lateStore).documents.get? "a")) ∧
    ((Service.after lateClosing).Quiet ∧
      (Service.after lateClosing).latestText "a" = some "A" ∧
      (Service.after lateClosing).documents.get? "a" = some "A" ∧
      (Service.after lateClosing).shown "a" ≠
        diagnosticsOf ((Service.after lateClosing).documents.get? "a")) := by
  unfold Service.Quiet
  decide +kernel

end BindingMarkup.Editor
