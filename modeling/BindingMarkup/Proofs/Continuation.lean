import BindingMarkup.Proofs.Draft

/-!
# BindingMarkup — what more tokens can change

The builder stops at its first problem. A list of tokens without an outline
either holds a token that no draft gets past, or it ends too early, and
the two are told apart by what further tokens can do:

* a problem at a token is final: whatever follows, it is the one that is
  found (`foldlM_step_append_of_error`);
* a document that ends in a header or inside a node can be completed
  (`exists_completion`): the header gets its base and its braces, and then
  every open node its closing brace;
* a document that ends in the middle of an entry is neither. A key without
  its colon and a colon without its value are reported as such, and the
  next token decides (`EndsWithKey`, `EndsWithColon`).

`Outline.build_error_append` puts these together.
-/

namespace BindingMarkup

namespace Draft

variable {draft last : Draft} {t : Token} {ts : List Token}

-- ---------------------------------------------------------------------------
-- Problems at a token
-- ---------------------------------------------------------------------------

/-- A run that has failed stays failed. -/
theorem foldlM_step_append_of_error {problem : Problem}
    (h : ts.foldlM step draft = .error problem) (us : List Token) :
    (ts ++ us).foldlM step draft = .error problem := by
  rw [List.foldlM_append, h]
  rfl

-- ---------------------------------------------------------------------------
-- Unfinished entries
-- ---------------------------------------------------------------------------

/-- The last token of a run made the last move. -/
theorem foldlM_step_concat_eq_ok_iff :
    (ts ++ [t]).foldlM step draft = .ok last ↔
      ∃ next, ts.foldlM step draft = .ok next ∧ next.Move t last := by
  simp only [← step_eq_ok_iff]
  rw [List.foldlM_append]
  cases hRun : ts.foldlM step draft with
  | error problem => simp [bind, Except.bind]
  | ok next =>
    cases hStep : next.step t <;> simp [hStep, bind, Except.bind, pure, Except.pure]

/-- A key is read where nothing is unfinished. -/
theorem Move.of_key {next : Draft} {key : Token} {name : String} (hMove : draft.Move t next)
    (hKey : next.pending = .key key name) :
    draft.pending = .nothing ∧ t.kind = .expression name := by
  cases hMove with
  | semicolon hPending => simp [hKey, Pending.inEntry] at hPending
  | close hPending => simp [hPending] at hKey
  | key hPending hKind => exact ⟨hPending, (Pending.key.inj hKey).2 ▸ hKind⟩
  | _ => simp [openNode, enter] at hKey

/-- A value is awaited behind the colon of a key. -/
theorem Move.of_value {next : Draft} {name : String} (hMove : draft.Move t next)
    (hValue : next.pending = .value name) :
    t.kind = .colon ∧ ∃ key, draft.pending = .key key name := by
  cases hMove with
  | semicolon hPending => simp [hValue, Pending.inEntry] at hPending
  | close hPending => simp [hPending] at hValue
  | colon hPending hKind => exact ⟨hKind, _, Pending.value.inj hValue ▸ hPending⟩
  | _ => simp [openNode, enter] at hValue

end Draft

/-- The category of the problem when the tokens run out. -/
def Pending.endCode : Pending → Code
  | .key _ _ => .noColon
  | .value _ => .noExpression
  | _ => .unexpectedEnd

/-- The problem at the end is decided by what is unfinished. -/
theorem Draft.code_of_finish {draft : Draft} {last : Option Token} {problem : Problem}
    (h : draft.finish last = .error problem) : problem.code = draft.pending.endCode := by
  have hEnd : ∀ cause, (Problem.atEnd cause last).code = cause.code := by
    intro cause
    cases last <;> rfl
  unfold finish at h
  cases hPending : draft.pending <;> simp only [hPending] at h
  case nothing =>
    split at h
    · exact absurd h (by simp)
    · rw [← Except.error.inj h]
      exact hEnd _
  case key =>
    rw [← Except.error.inj h]
    rfl
  all_goals
    rw [← Except.error.inj h]
    exact hEnd _

/-- The last token is a key: what stands before it leaves nothing unfinished. -/
def EndsWithKey (ts : List Token) : Prop :=
  ∃ front key name draft, ts = front ++ [key] ∧ key.kind = .expression name ∧
    front.foldlM Draft.step Draft.empty = .ok draft ∧ draft.pending = .nothing

/-- The last token is the colon of a key. -/
def EndsWithColon (ts : List Token) : Prop :=
  ∃ front colon, ts = front ++ [colon] ∧ colon.kind = .colon ∧ EndsWithKey front

/-- A key is unfinished only right behind it. -/
theorem endsWithKey_of_run {ts : List Token} {last : Draft} {key : Token} {name : String}
    (hRun : ts.foldlM Draft.step Draft.empty = .ok last) (hKey : last.pending = .key key name) :
    EndsWithKey ts := by
  rcases List.eq_nil_or_concat ts with rfl | ⟨front, t, rfl⟩
  · obtain rfl : Draft.empty = last := by simpa [pure, Except.pure] using hRun
    exact absurd hKey (by simp [Draft.empty])
  · rw [List.concat_eq_append] at hRun ⊢
    obtain ⟨draft, hFront, hMove⟩ := Draft.foldlM_step_concat_eq_ok_iff.mp hRun
    obtain ⟨hNothing, hKind⟩ := hMove.of_key hKey
    exact ⟨front, t, name, draft, rfl, hKind, hFront, hNothing⟩

/-- A value is missing only right behind a colon. -/
theorem endsWithColon_of_run {ts : List Token} {last : Draft} {name : String}
    (hRun : ts.foldlM Draft.step Draft.empty = .ok last) (hValue : last.pending = .value name) :
    EndsWithColon ts := by
  rcases List.eq_nil_or_concat ts with rfl | ⟨front, t, rfl⟩
  · obtain rfl : Draft.empty = last := by simpa [pure, Except.pure] using hRun
    exact absurd hValue (by simp [Draft.empty])
  · rw [List.concat_eq_append] at hRun ⊢
    obtain ⟨draft, hFront, hMove⟩ := Draft.foldlM_step_concat_eq_ok_iff.mp hRun
    obtain ⟨hKind, key, hKey⟩ := hMove.of_value hValue
    exact ⟨front, t, rfl, hKind, endsWithKey_of_run hFront hKey⟩

-- ---------------------------------------------------------------------------
-- Completions
-- ---------------------------------------------------------------------------

/-- A token for a completion; where it stands does not matter. -/
def Token.supplied (kind : Token.Kind) : Token where
  kind := kind
  line := 0
  context := ""

namespace Draft

variable {draft : Draft}

/-- As many closing braces as nodes are open lead back to the root. -/
theorem foldlM_step_closing {outline : Outline} {i depth : Nat} (h : outline.Depth i depth) :
    (List.replicate depth (Token.supplied .scopeEnd)).foldlM step ⟨outline, i, .nothing⟩ =
      .ok ⟨outline, 0, .nothing⟩ := by
  induction h with
  | root => rfl
  | inside _ hParent _ ih =>
    rw [List.replicate_succ, foldlM_step_cons (.close rfl rfl hParent)]
    exact ih

/-- A header can be completed, and its node opened. -/
theorem exists_opening (hNested : draft.Nested) (hEntry : draft.pending.inEntry = false) :
    ∃ (us : List Token) (next : Draft),
      us.foldlM step draft = .ok next ∧ next.pending = .nothing ∧ next.Nested := by
  -- one move at a time: `next` is nested because every move keeps it so
  suffices hMoves : ∃ (us : List Token) (next : Draft),
      us.foldlM step draft = .ok next ∧ next.pending = .nothing by
    obtain ⟨us, next, hRun, hNothing⟩ := hMoves
    exact ⟨us, next, hRun, hNothing, nested_of_foldlM_step hNested hRun⟩
  have hBrace : (Token.supplied .scopeStart).kind = .scopeStart := rfl
  cases hPending : draft.pending with
  | nothing => exact ⟨[], draft, rfl, hPending⟩
  | header name =>
    exact ⟨[_], _, foldlM_step_cons (.openElement hPending hBrace), rfl⟩
  | definition name =>
    have hBase : draft.Move (.supplied (.element name)) { draft with pending := .base name name } :=
      .base hPending rfl
    exact ⟨[_, _], _,
      (foldlM_step_cons hBase).trans (foldlM_step_cons (.openDefinition rfl hBrace)), rfl⟩
  | base name base =>
    exact ⟨[_], _, foldlM_step_cons (.openDefinition hPending hBrace), rfl⟩
  | key | value => simp [hPending, Pending.inEntry] at hEntry

/-- **What is only unfinished can be completed**, unless it is an entry. -/
theorem exists_completion (hNested : draft.Nested) (hEntry : draft.pending.inEntry = false) :
    ∃ (us : List Token) (last : Draft),
      us.foldlM step draft = .ok last ∧ last.pending = .nothing ∧ last.current = 0 := by
  obtain ⟨us, next, hRun, hNothing, ⟨depth, hDepth⟩, -⟩ := exists_opening hNested hEntry
  obtain ⟨outline, current, pending⟩ := next
  obtain rfl : pending = .nothing := hNothing
  refine ⟨us ++ List.replicate depth (.supplied .scopeEnd), ⟨outline, 0, .nothing⟩, ?_, rfl, rfl⟩
  rw [foldlM_step_append hRun]
  exact foldlM_step_closing hDepth

end Draft

-- ---------------------------------------------------------------------------
-- Whole documents
-- ---------------------------------------------------------------------------

namespace Outline

/-- Outside of entries, the open nodes can be closed. -/
theorem exists_build_append {ts : List Token} {draft : Draft}
    (hRun : ts.foldlM Draft.step Draft.empty = .ok draft)
    (hEntry : draft.pending.inEntry = false) :
    ∃ us outline, Outline.build (ts ++ us) = .ok outline := by
  have hNested := Draft.nested_of_foldlM_step Draft.nested_empty hRun
  obtain ⟨us, last, hMore, hNothing, hRoot⟩ := Draft.exists_completion hNested hEntry
  refine ⟨us, last.outline, build_eq_ok_iff_run.mpr ⟨last, ?_, ?_⟩⟩
  · rw [Draft.foldlM_step_append hRun, hMore]
  · exact Draft.finish_eq_ok_iff.mpr ⟨hNothing, hRoot, rfl⟩

/-- **The first problem wins, and no prefix is given up too early.** A list of
tokens that ends unexpectedly has a continuation with an outline. Any other
problem is found again whatever follows, unless the tokens ran out in the middle
of an entry. -/
theorem build_error_append (ts : List Token) (problem : Problem)
    (h : Outline.build ts = .error problem) :
    (problem.code = .unexpectedEnd → ∃ us outline, Outline.build (ts ++ us) = .ok outline) ∧
      (problem.code ≠ .unexpectedEnd →
        ¬(problem.code = .noColon ∧ EndsWithKey ts) →
        ¬(problem.code = .noExpression ∧ EndsWithColon ts) →
        ∀ us, Outline.build (ts ++ us) = .error problem) := by
  unfold build at h
  cases hRun : ts.foldlM Draft.step Draft.empty with
  | error first =>
    obtain rfl : first = problem := by simpa [hRun, bind, Except.bind] using h
    -- a token was refused, and what follows it is never read
    obtain ⟨place, cause, rfl, hCode, -⟩ := Draft.foldlM_step_eq_error hRun
    refine ⟨fun hEnd => absurd hEnd hCode, fun _ _ _ us => ?_⟩
    rw [build, Draft.foldlM_step_append_of_error hRun]
    rfl
  | ok draft =>
    -- all tokens were read, so the problem is what is pending at their end
    have hFinish : draft.finish ts.getLast? = .error problem := by
      simpa [hRun, bind, Except.bind] using h
    have hCode := Draft.code_of_finish hFinish
    cases hPending : draft.pending with
    | key key name =>
      rw [hPending] at hCode
      refine ⟨fun hEnd => absurd (hCode.symm.trans hEnd) (by simp [Pending.endCode]), ?_⟩
      exact fun _ hKey _ => absurd ⟨hCode, endsWithKey_of_run hRun hPending⟩ hKey
    | value name =>
      rw [hPending] at hCode
      refine ⟨fun hEnd => absurd (hCode.symm.trans hEnd) (by simp [Pending.endCode]), ?_⟩
      exact fun _ _ hColon => absurd ⟨hCode, endsWithColon_of_run hRun hPending⟩ hColon
    | _ =>
      have hEntry : draft.pending.inEntry = false := by rw [hPending]; rfl
      rw [hPending] at hCode
      exact ⟨fun _ => exists_build_append hRun hEntry, fun hEnd => absurd hCode hEnd⟩

/-- A node that ends in a header can be completed. A key with a key behind it is a
problem for good, although the list ends with a key. -/
theorem build_error_append_headers :
    (∃ us outline,
        Outline.build
            ([.supplied (.element "Row"), .supplied .scopeStart, .supplied (.element "Cell"),
                .supplied .isA] ++ us) =
          .ok outline) ∧
      ∀ us,
        Outline.build
            ([.supplied (.element "Row"), .supplied .scopeStart, .supplied (.expression "x"),
                .supplied (.expression "y")] ++ us) =
          .error (.atToken (.missingColon "x") (.supplied (.expression "x"))) := by
  refine ⟨(build_error_append _ (.atToken (.endAfterHeader "Cell") (.supplied .isA)) rfl).1 rfl, ?_⟩
  refine (build_error_append _ _ rfl).2 (by decide) ?_ (fun hColon => absurd hColon.1 (by decide))
  rintro ⟨-, front, key, name, draft, hEq, -, hRun, hNothing⟩
  have hSplit : [_, _, _] ++ [_] = front ++ [key] := hEq
  obtain rfl := List.append_inj_left' hSplit rfl
  cases hRun
  cases hNothing

end Outline

end BindingMarkup
