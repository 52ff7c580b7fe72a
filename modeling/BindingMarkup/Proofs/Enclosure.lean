import BindingMarkup.Proofs.Capture

/-!
# BindingMarkup — a block and nothing but the block

Where a value is due, the reader takes a braced block in a single step.
This module says all that this step does: which text becomes the token,
where the reader goes on and in which state. The count of open braces is
part of it. `blockSpan` subtracts from it as numbers do, down to zero; the
scan of `blockSpan?` has no answer when one more brace is closed than was
opened, and ends where the count comes down to zero. The two agree on every
text that begins with a brace, closed or not, so the count is never
decreased at zero (`blockSpan?_braced`).

* `step_braced` — the step in front of a block, for every state in which a
  value is due and every text behind the block.
-/

namespace BindingMarkup.Token

open Text

-- ---------------------------------------------------------------------------
-- The count of open braces
-- ---------------------------------------------------------------------------

/-- Splits a text behind a block as `blockSpan` does, but with a count that cannot
be decreased at zero: there is no answer for a brace that closes nothing. -/
def blockSpan? : Bool → Quote → Nat → List Char → Option (List Char × List Char)
  | _, _, _, [] => some ([], [])
  | comment, quote, depth, c :: rest =>
    let keep := fun (more, rest) => (c :: more, rest)
    if c = '\n' then (blockSpan? false .outside depth rest).map keep
    else if comment then blockSpan? true .outside depth rest
    else if quote = .outside ∧ startsComment (c :: rest) then
      blockSpan? true .outside depth rest
    else if quote = .outside ∧ c = '\x7d' then
      match depth with
      | 0 => none
      | 1 => some ([c], rest)
      | depth + 2 => (blockSpan? false .outside (depth + 1) rest).map keep
    else if quote = .outside ∧ c = '\x7b' then
      (blockSpan? false .outside (depth + 1) rest).map keep
    else (blockSpan? false (quote.next c) depth rest).map keep

/-- Behind an open brace the count stays above zero until the scan ends. -/
theorem blockSpan?_succ (comment : Bool) (quote : Quote) (depth : Nat) (cs : List Char) :
    blockSpan? comment quote (depth + 1) cs = some (blockSpan comment quote (depth + 1) cs) := by
  induction cs generalizing comment quote depth with
  | nil => rfl
  | cons c rest ih =>
    unfold blockSpan? blockSpan
    by_cases hBreak : c = '\n'
    · simp [hBreak, ih]
    by_cases hComment : comment = true
    · simp [hBreak, hComment, ih]
    by_cases hSlashes : quote = .outside ∧ startsComment (c :: rest) = true
    · simp [hBreak, hComment, hSlashes, ih]
    by_cases hClose : quote = .outside ∧ c = '\x7d'
    · obtain ⟨rfl, rfl⟩ := hClose
      -- with one brace open the block ends here, so the count never goes below zero
      cases depth with
      | zero => simp [hComment, startsComment]
      | succ depth => simp [hComment, startsComment, braceDepth, Quote.next, isQuote, ih]
    by_cases hOpen : quote = .outside ∧ c = '\x7b'
    · obtain ⟨rfl, rfl⟩ := hOpen
      simp [hComment, startsComment, braceDepth, Quote.next, isQuote, ih]
    · have hSame : braceDepth quote (depth + 1) c = depth + 1 := by
        rw [braceDepth, if_neg hOpen, if_neg hClose]
      have hEnds : ¬(quote = .outside ∧ c = '\x7d' ∧ depth + 1 ≤ 1) :=
        fun hHere => hClose ⟨hHere.1, hHere.2.1⟩
      simp only [hBreak, hComment, hSlashes, hClose, hOpen, hEnds, hSame, ih, if_false,
        Option.map_some]
      rfl

/-- A block is split off without a brace too many, whether it is closed or not. -/
theorem blockSpan?_braced (rest : List Char) :
    blockSpan? false .outside 0 ('\x7b' :: rest) =
      some (blockSpan false .outside 0 ('\x7b' :: rest)) := by
  have hRest := blockSpan?_succ false .outside 0 rest
  simp [blockSpan?, blockSpan, startsComment, braceDepth, Quote.next, isQuote, hRest]

-- ---------------------------------------------------------------------------
-- The text of a block and what follows it
-- ---------------------------------------------------------------------------

/-- Braces are not blank. -/
theorem trim_braced (kept : List Char) :
    trim ('\x7b' :: (kept ++ ['\x7d'])) = '\x7b' :: (kept ++ ['\x7d']) := by
  rw [trim, trimStart_cons_of_not_blank (by decide), trimEnd_eq_self]
  rw [← List.cons_append, List.getLast?_concat]
  intro c hc
  obtain rfl : '\x7d' = c := by simpa using hc
  decide

/-- The braces around a block fall away. -/
theorem stripBraces_braced (kept : List Char) :
    stripBraces ('\x7b' :: (kept ++ ['\x7d'])) = kept := by
  rw [stripBraces, trim_braced]
  simp [stripFront, stripBack]

/-- The text of a block as a value: an object is kept whole, and of statements what
stands between the braces. -/
theorem blockValue_braced (kept : List Char) :
    blockValue ('\x7b' :: (kept ++ ['\x7d'])) =
      if classifyBlock ('\x7b' :: (kept ++ ['\x7d'])) = .object then
        trim ('\x7b' :: (kept ++ ['\x7d']))
      else trim kept := by
  unfold blockValue
  split
  · next hObject => rw [if_pos hObject]
  · next hStatements => rw [if_neg (by simp [hStatements]), stripBraces_braced]

/-- The blanks that may stand between a block and its semicolon. -/
def isGap (c : Char) : Bool :=
  c == ' ' || c == '\t'

/-- A semicolon behind a block belongs to it. -/
theorem skipTerminator_of_semicolon {gap : List Char} (hGap : ∀ c ∈ gap, isGap c = true)
    (more : List Char) : skipTerminator (gap ++ ';' :: more) = more := by
  have hDrop : (gap ++ ';' :: more).dropWhile (fun c => c == ' ' || c == '\t') = ';' :: more :=
    List.dropWhile_append_of_pos hGap
  simp [skipTerminator, hDrop]

/-- Without a semicolon nothing behind a block belongs to it. -/
theorem skipTerminator_eq_self {cs : List Char}
    (h : ∀ gap more, (∀ c ∈ gap, isGap c = true) → cs ≠ gap ++ ';' :: more) :
    skipTerminator cs = cs := by
  unfold skipTerminator
  split
  · next more hDrop =>
    have hGap : ∀ c ∈ cs.takeWhile isGap, isGap c = true := fun c hc => List.mem_takeWhile_imp hc
    have hSplit : cs = cs.takeWhile isGap ++ ';' :: more := by
      rw [← hDrop]
      exact List.takeWhile_append_dropWhile.symm
    exact absurd hSplit (h _ _ hGap)
  · rfl

/-- **A block is taken exactly.** Where a value is due, one step in front of a block,
whatever follows the block, notes a single expression on the line of its first brace.
The text is the block without its line comments, and without its braces if it holds
statements. The step goes on behind the block, and behind a semicolon that follows
with nothing but spaces and tabs before it; it has counted the lines of the block, and
the statement is over. The braces open and close with a count that is never decreased
at zero. -/
theorem step_braced {inner kept : List Char} (h : Items inner kept) (after : List Char)
    {state : State} (hValue : state.valueNext = true) :
    (∃ next : List Char,
      step state '\x7b' (inner ++ '\x7d' :: after) =
        { event := some (.token
            { kind := .expression (String.ofList
                (if classifyBlock ('\x7b' :: (kept ++ ['\x7d'])) = .object then
                  trim ('\x7b' :: (kept ++ ['\x7d']))
                else trim kept))
              line := state.line
              context := contextOf ('\x7b' :: (inner ++ '\x7d' :: after)) })
          state :=
            { line := state.line + ('\x7b' :: (inner ++ ['\x7d'])).count '\n'
              colonOnLine := false
              valueNext := false }
          rest := next } ∧
      (∀ gap more, (∀ c ∈ gap, isGap c = true) → after = gap ++ ';' :: more → next = more) ∧
      ((∀ gap more, (∀ c ∈ gap, isGap c = true) → after ≠ gap ++ ';' :: more) →
        next = after)) ∧
    blockSpan? false .outside 0 ('\x7b' :: (inner ++ '\x7d' :: after)) =
      some ('\x7b' :: (kept ++ ['\x7d']), after) := by
  have hSpan := blockSpan_braced h after
  -- comments are left out of the block, but the line breaks behind them are kept
  have hCount : ('\x7b' :: (kept ++ ['\x7d'])).count '\n' =
      ('\x7b' :: (inner ++ ['\x7d'])).count '\n' := by
    simp [count_items h]
  refine ⟨⟨skipTerminator after, ?_, ?_, skipTerminator_eq_self⟩, ?_⟩
  · have hStep : step state '\x7b' (inner ++ '\x7d' :: after) =
        stepBlock state ('\x7b' :: (inner ++ '\x7d' :: after)) := by
      simp [step, hValue]
    rw [hStep, stepBlock_eq, hSpan, blockValue_braced]
    simp only [State.pass, hCount]
    rfl
  · rintro gap more hGap rfl
    exact skipTerminator_of_semicolon hGap more
  · rw [blockSpan?_braced, hSpan]

/-- A line comment and a string that each hold a closing brace, and an empty block. -/
def guarded : List Char :=
  ['/', '/', '\x7d', '\n', '"', '\x7d', '"', '\x7b', '\x7d']

/-- A block with a string and a comment that hold braces. -/
theorem step_guarded :
    Items guarded (guarded.drop 3) ∧
      step ⟨4, true, true⟩ '\x7b' (guarded ++ '\x7d' :: [' ', ';', 'x']) =
        { event := some (.token
            { kind := .expression "\"\x7d\"\x7b\x7d", line := 4, context := "\x7b//\x7d" })
          state := ⟨5, false, false⟩
          rest := ['x'] } ∧
      blockSpan? false .outside 0 ('\x7b' :: (guarded ++ '\x7d' :: [' ', ';', 'x'])) =
        some ('\x7b' :: (guarded.drop 3 ++ ['\x7d']), [' ', ';', 'x']) := by
  have hString : StringEnd '"' ['\x7d', '"'] := .plain (by decide) (by decide) .close
  have hItems : Items ('/' :: '/' :: (['\x7d'] ++ '\n' :: '"' :: (['\x7d', '"'] ++ _)))
      ('\n' :: '"' :: (['\x7d', '"'] ++ _)) :=
    .comment (by decide) (.plain (by decide) (by decide) (by decide) (by decide)
      (.string (by decide) hString (by decide) (.block .nil .nil)))
  have hValue : (State.mk 4 true true).valueNext = true := rfl
  obtain ⟨⟨next, hStep, hBehind, -⟩, hCount⟩ := step_braced hItems [' ', ';', 'x'] hValue
  have hNext : next = ['x'] := hBehind [' '] ['x'] (by simp [isGap]) rfl
  rw [hNext] at hStep
  exact ⟨hItems, hStep, hCount⟩

end BindingMarkup.Token
