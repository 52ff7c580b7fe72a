import BindingMarkup.Editor.Session

/-!
# BindingMarkup — sessions and their history

A session answers from the texts that it keeps, and it keeps them in a
list that every notice changes. What it keeps can be told from its history
instead: the text of a document is the one that the last step about it
gave, and there is none if that step closed the document or if there was
no such step (`textAfter`). No other document has a part in it.

* `get?_run` — a step changes the text of a document to what it tells about
  it, and `get?_documentsAfter` the same for a whole history.
* `answers_append` — a session can be cut in two; the second part starts
  with the documents that the first has left.
* `answers_of_history` — every answer of a session is the answer of a fresh
  session that only opened the document in question with its text, and a
  step that tells nothing leaves all other answers as they are.
-/

namespace BindingMarkup.Editor

-- ---------------------------------------------------------------------------
-- The text of a document in a history
-- ---------------------------------------------------------------------------

/-- What a step tells about the text of a document: nothing, that the text is gone,
or the new text. -/
def Step.tells (name : String) : Step → Option (Option String)
  | .notice (.opened other text) => if name = other then some (some text) else none
  | .notice (.changed other texts) => if name = other then texts.getLast?.map some else none
  | .notice (.closed other) => if name = other then some none else none
  | .hover _ _ => none
  | .completion _ _ => none

/-- The text of a document after a history, by the last step that tells something
about it. -/
def textAfter (history : List Step) (name : String) : Option String :=
  (history.filterMap (Step.tells name)).getLast?.join

-- ---------------------------------------------------------------------------
-- The documents after a history
-- ---------------------------------------------------------------------------

/-- A new text takes the place of the old one and of no other. -/
theorem get?_updateEffects (documents : Documents) (name text other : String) :
    ((updateEffects name text).foldl Effect.apply documents).get? other =
      if other = name then some text else documents.get? other :=
  Documents.get?_put documents name text other

/-- The step lemma: a step changes the text of a document to what it tells. -/
theorem get?_run (documents : Documents) (step : Step) (name : String) :
    (step.run documents).2.get? name = (step.tells name).getD (documents.get? name) := by
  cases step with
  | hover => rfl
  | completion => rfl
  | notice n =>
    cases n with
    | opened other text =>
      show ((updateEffects other text).foldl Effect.apply documents).get? name = _
      rw [get?_updateEffects, Step.tells]
      split <;> rfl
    | changed other texts =>
      simp only [Step.run, Notice.effects, Step.tells]
      cases texts.getLast? with
      -- a change without texts tells nothing
      | none => simp
      | some text =>
        show ((updateEffects other text).foldl Effect.apply documents).get? name = _
        rw [get?_updateEffects]
        split <;> rfl
    | closed other =>
      show (documents.remove other).get? name = _
      rw [Documents.get?_remove, Step.tells]
      split <;> rfl

/-- The documents that a session has left after some steps. -/
def documentsAfter (documents : Documents) (steps : List Step) : Documents :=
  steps.foldl (fun documents step => (step.run documents).2) documents

/-- The run lemma: after a history the last word about a document counts, and
without one its text is what it was. -/
theorem get?_documentsAfter (documents : Documents) (steps : List Step) (name : String) :
    (documentsAfter documents steps).get? name =
      (steps.filterMap (Step.tells name)).getLast?.getD (documents.get? name) := by
  induction steps generalizing documents with
  | nil => rfl
  | cons step more ih =>
    show (documentsAfter (step.run documents).2 more).get? name = _
    rw [ih, get?_run]
    cases hTells : step.tells name with
    | none => rw [List.filterMap_cons_none hTells, Option.getD_none]
    | some told =>
      rw [List.filterMap_cons_some hTells, List.getLast?_cons, Option.getD_some, Option.getD_some]

/-- A session keeps the last text of every document. -/
theorem get?_documentsAfter_nil (history : List Step) (name : String) :
    (documentsAfter [] history).get? name = textAfter history name := by
  rw [get?_documentsAfter, textAfter]
  cases (history.filterMap (Step.tells name)).getLast? <;> rfl

/-- A step that tells nothing about any document leaves the documents as they are. -/
theorem run_of_tells_eq_none {step : Step} (h : ∀ name, step.tells name = none)
    (documents : Documents) : (step.run documents).2 = documents := by
  cases step with
  | hover => rfl
  | completion => rfl
  | notice n =>
    cases n with
    | opened name text => exact absurd (h name) (by simp [Step.tells])
    | closed name => exact absurd (h name) (by simp [Step.tells])
    | changed name texts =>
      have hNone : texts.getLast? = none := by simpa [Step.tells] using h name
      simp [Step.run, Notice.effects, hNone]

-- ---------------------------------------------------------------------------
-- The answers of a session
-- ---------------------------------------------------------------------------

theorem answers_cons (documents : Documents) (step : Step) (more : List Step) :
    answers documents (step :: more) =
      (step.run documents).1 :: answers (step.run documents).2 more := rfl

@[simp] theorem length_answers (documents : Documents) (steps : List Step) :
    (answers documents steps).length = steps.length := by
  induction steps generalizing documents with
  | nil => rfl
  | cons step more ih =>
    rw [answers_cons, List.length_cons, List.length_cons, ih]

/-- The second part of a session goes on with the documents of the first. -/
theorem answers_append (documents : Documents) (before after : List Step) :
    answers documents (before ++ after) =
      answers documents before ++ answers (documentsAfter documents before) after := by
  induction before generalizing documents with
  | nil => rfl
  | cons step more ih =>
    rw [List.cons_append, answers_cons, answers_cons, ih]
    rfl

/-- The answer to a step in the middle of a session. -/
theorem getElem?_answers (before after : List Step) (step : Step) :
    (answers [] (before ++ step :: after))[before.length]? =
      some (step.run (documentsAfter [] before)).1 := by
  rw [answers_append, List.getElem?_append_right (by simp), answers_cons]
  simp

/-- A step that tells nothing has no effect on the answers to all others. -/
theorem eraseIdx_answers {step : Step} (h : ∀ name, step.tells name = none)
    (before after : List Step) :
    (answers [] (before ++ step :: after)).eraseIdx before.length =
      answers [] (before ++ after) := by
  rw [answers_append, answers_append, answers_cons, run_of_tells_eq_none h,
    List.eraseIdx_append_of_length_le (by simp)]
  simp

/-- A question about a document is answered as in a session that has only opened it
with the text it has. -/
theorem run_eq_fresh {documents : Documents} {name text : String} {step : Step}
    {position : Position} (hText : documents.get? name = some text)
    (hStep : step = .hover name position ∨ step = .completion name position) :
    some (step.run documents).1 = (answers [] [.notice (.opened name text), step])[1]? := by
  have hFresh : (documentsAfter [] [.notice (.opened name text)]).get? name = some text := by
    rw [get?_documentsAfter_nil]
    simp [textAfter, Step.tells]
  refine Eq.trans ?_ (getElem?_answers [.notice (.opened name text)] [] step).symm
  rcases hStep with rfl | rfl
  · simp only [Step.run, hoverAnswer, hText, hFresh]
  · simp only [Step.run, hText, hFresh]

/-- **A session depends on the current texts only.** At any point of any session,
hover and completion are answered as in a fresh session that only opened the
document with its current text, and with nothing when it has none; a notice
publishes what its text alone determines; and a step that tells nothing about a
document, such as a question or an empty change, leaves all other answers as
they are. -/
theorem answers_of_history (before after : List Step) :
    (∀ name position,
      (answers [] (before ++ .hover name position :: after))[before.length]? =
        match textAfter before name with
        | none => some (.hover none)
        | some text => (answers [] [.notice (.opened name text), .hover name position])[1]?) ∧
    (∀ name position,
      (answers [] (before ++ .completion name position :: after))[before.length]? =
        match textAfter before name with
        | none => some (.completion none)
        | some text =>
          (answers [] [.notice (.opened name text), .completion name position])[1]?) ∧
    (∀ name text,
      (answers [] (before ++ .notice (.opened name text) :: after))[before.length]? =
        some (.sent [{ name, diagnostics := diagnostics text }])) ∧
    (∀ name texts text,
      (answers [] (before ++ .notice (.changed name (texts ++ [text])) :: after))[before.length]? =
        some (.sent [{ name, diagnostics := diagnostics text }])) ∧
    (∀ name,
      (answers [] (before ++ .notice (.changed name []) :: after))[before.length]? =
        some (.sent [])) ∧
    (∀ name,
      (answers [] (before ++ .notice (.closed name) :: after))[before.length]? =
        some (.sent [{ name, diagnostics := [] }])) ∧
    (∀ step name position,
      step = .hover name position ∨ step = .completion name position ∨
          step = .notice (.changed name []) →
        (answers [] (before ++ step :: after)).eraseIdx before.length =
          answers [] (before ++ after)) := by
  refine ⟨fun name position => ?_, fun name position => ?_, fun name text => ?_,
    fun name texts text => ?_, fun name => ?_, fun name => ?_, fun step name position hStep => ?_⟩
  · rw [getElem?_answers]
    -- what is stored is the text of the last step about the document
    have hDocuments := get?_documentsAfter_nil before name
    cases hText : textAfter before name with
    | none =>
      rw [hText] at hDocuments
      simp only [Step.run, hoverAnswer, hDocuments]
    | some text => exact run_eq_fresh (hDocuments.trans hText) (.inl rfl)
  · rw [getElem?_answers]
    have hDocuments := get?_documentsAfter_nil before name
    cases hText : textAfter before name with
    | none =>
      rw [hText] at hDocuments
      simp only [Step.run, hDocuments, Option.map_none]
    | some text => exact run_eq_fresh (hDocuments.trans hText) (.inr rfl)
  · rw [getElem?_answers]
    rfl
  · rw [getElem?_answers]
    simp [Step.run, Notice.effects, updateEffects, Effect.publication?]
  · rw [getElem?_answers]
    rfl
  · rw [getElem?_answers]
    rfl
  · -- these steps change no document, so all later answers stay
    refine eraseIdx_answers (fun other => ?_) before after
    rcases hStep with rfl | rfl | rfl
    · rfl
    · rfl
    · simp [Step.tells]

/-- A document changed before it was opened, and a second one that is opened, asked
about where no word can be cut out, and closed. -/
def shortSession : List Step :=
  [.notice (.changed "a" ["", "Row \x7b\x7d"]), .notice (.opened "b" "«x"), .hover "b" ⟨0, 3⟩,
    .notice (.closed "b")]

theorem answers_of_shortSession :
    (answers [] (shortSession ++ [.hover "b" ⟨0, 3⟩]))[4]? = some (.hover none) ∧
    (answers [] (shortSession ++ [.hover "a" ⟨0, 1⟩]))[4]? =
      (answers [] [.notice (.opened "a" "Row \x7b\x7d"), .hover "a" ⟨0, 1⟩])[1]? ∧
    (answers [] shortSession)[2]? = some (.fault .insideCharacter) ∧
    (answers [] shortSession).eraseIdx 2 =
      answers [] (shortSession.take 2 ++ [.notice (.closed "b")]) := by
  refine ⟨(answers_of_history shortSession []).1 "b" ⟨0, 3⟩,
    (answers_of_history shortSession []).1 "a" ⟨0, 1⟩, by decide +kernel, ?_⟩
  obtain ⟨-, -, -, -, -, -, hIdle⟩ :=
    answers_of_history (shortSession.take 2) [.notice (.closed "b")]
  exact hIdle (.hover "b" ⟨0, 3⟩) "b" ⟨0, 3⟩ (.inl rfl)

end BindingMarkup.Editor
