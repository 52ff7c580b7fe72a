import BindingMarkup.Proofs.Braces

/-!
# BindingMarkup — open braces, counted forward and found backward

The editor reads the braces before the cursor in both directions. Forward
it counts the open ones and stops at zero when too many are closed;
backward it counts the closed ones without a limit and stops at the first
opening brace that none of them closes. Neither of the two ever pairs a
brace with another. Here the braces are paired: a closing brace takes the
nearest opening brace before it that has no partner yet, and `openRows`
keeps the opening braces that are left over, each by the number of its
line.

* `leaves_stackBraces` — what is left over splits the code: behind each of
  these braces, up to the next one, all braces have their partners, and
  before the first there are at most closing braces too many (`Leaves`).
  The induction adds one character at the end.
* `openBraces_eq_length`, `enclosingElement_of_openRows` — the two scans
  give the number of these braces and the line of the last one.
* `openBraces_agrees` — both together, with what the context at a cursor
  says, and the range of the two counters.
-/

namespace BindingMarkup.Editor

open Text

-- ---------------------------------------------------------------------------
-- Pairing braces
-- ---------------------------------------------------------------------------

/-- The code of some lines. Each character carries the number of its line, and the
first line has the number `row`. -/
def numbered (row : Nat) : List (List Char) → List (Char × Nat)
  | [] => []
  | line :: later => (stripComment line).map (·, row) ++ numbered (row + 1) later

/-- The opening braces without a partner after one more character, the nearest first.
A closing brace is the partner of the nearest one; without one it is ignored. -/
def stackBrace (waiting : List Nat) (c : Char × Nat) : List Nat :=
  if c.1 = '\x7b' then c.2 :: waiting else if c.1 = '\x7d' then waiting.tail else waiting

/-- The numbers of the lines that hold the opening braces without a partner, those of
the last one first. -/
def openRows (before : List Char) : List Nat :=
  (numbered 0 (lines before)).foldl stackBrace []

-- two braces are left over, one on each of the first two lines
example : openRows "\x7d A \x7b // \x7d\n B \x7b\n C \x7b \x7d".toList = [1, 0] := by
  decide +kernel

theorem map_fst_map (row : Nat) (cs : List Char) : (cs.map (·, row)).map Prod.fst = cs := by
  rw [List.map_map]
  exact List.map_id cs

/-- The rows are beside the characters and change none of them. -/
theorem map_fst_numbered (row : Nat) (ls : List (List Char)) :
    (numbered row ls).map Prod.fst = ls.flatMap stripComment := by
  induction ls generalizing row with
  | nil => rfl
  | cons line later ih => rw [numbered, List.map_append, map_fst_map, ih, List.flatMap_cons]

/-- A place in the code is a place in one of the lines. -/
theorem exists_line_of_numbered {ls : List (List Char)} {start row : Nat} {c : Char}
    {front back : List (Char × Nat)} (h : numbered start ls = front ++ (c, row) :: back) :
    ∃ earlier line later before after, ls = earlier ++ line :: later ∧
      row = start + earlier.length ∧ stripComment line = before ++ c :: after ∧
      back.map Prod.fst = after ++ later.flatMap stripComment := by
  induction ls generalizing start front with
  | nil => exact absurd h (by simp [numbered])
  | cons line later ih =>
    -- the character stands on a later line: one more line before it
    have hFurther (passed : List (Char × Nat))
        (hLater : numbered (start + 1) later = passed ++ (c, row) :: back) :
        ∃ earlier next rest before after, line :: later = earlier ++ next :: rest ∧
          row = start + earlier.length ∧ stripComment next = before ++ c :: after ∧
          back.map Prod.fst = after ++ rest.flatMap stripComment := by
      obtain ⟨earlier, next, rest, before, after, rfl, hRow, hCode, hBack⟩ := ih hLater
      refine ⟨line :: earlier, next, rest, before, after, rfl, ?_, hCode, hBack⟩
      rw [List.length_cons]
      omega
    rw [numbered] at h
    rcases List.append_eq_append_iff.mp h with ⟨passed, -, hLater⟩ | ⟨more, hLine, hMore⟩
    · exact hFurther passed hLater
    · cases more with
      -- the split falls between two lines, so the character is the first of the next
      | nil => exact hFurther [] hMore.symm
      | cons first more =>
        rw [List.cons_append, List.cons.injEq] at hMore
        obtain ⟨rfl, rfl⟩ := hMore
        obtain ⟨before, rest, hCode, -, hRest⟩ := List.map_eq_append_iff.mp hLine
        obtain ⟨d, after, rfl, hFirst, rfl⟩ := List.map_eq_cons_iff.mp hRest
        obtain ⟨rfl, rfl⟩ := Prod.mk.inj hFirst
        refine ⟨[], line, later, before, after, rfl, rfl, hCode, ?_⟩
        rw [List.map_append, map_fst_map, map_fst_numbered]

-- ---------------------------------------------------------------------------
-- What is left over
-- ---------------------------------------------------------------------------

/-- The code falls into parts at the given opening braces, the last one first. Behind
each of them all braces have their partners, and before the first one every
opening brace has. -/
def Leaves (code : List (Char × Nat)) : List Nat → Prop
  | [] => ∀ depth, ∃ left, matchBack depth (code.map Prod.fst).reverse = some left
  | row :: rows => ∃ front back, code = front ++ ('\x7b', row) :: back ∧
      Matched (back.map Prod.fst) ∧ Leaves front rows

/-- A matched text leaves the same rows open. -/
theorem Leaves.append {code more : List (Char × Nat)} {rows : List Nat} (h : Leaves code rows)
    (hMore : Matched (more.map Prod.fst)) : Leaves (code ++ more) rows := by
  cases rows with
  | nil =>
    intro depth
    rw [List.map_append, List.reverse_append, matchBack_of_matched hMore]
    exact h depth
  | cons row rows =>
    obtain ⟨front, back, rfl, hBack, hFront⟩ := h
    refine ⟨front, back ++ more, by simp, ?_, hFront⟩
    rw [List.map_append]
    exact hBack.append hMore

/-- The step lemma: one more character. -/
theorem Leaves.concat {code : List (Char × Nat)} {rows : List Nat} (h : Leaves code rows)
    (c : Char × Nat) : Leaves (code ++ [c]) (stackBrace rows c) := by
  obtain ⟨c, row⟩ := c
  rcases brace_cases c with rfl | rfl | hOther
  · exact ⟨code, [], rfl, .nil, h⟩
  · cases rows with
    | nil =>
      -- one brace more to pass over, whatever was to be passed over before
      intro depth
      obtain ⟨left, hLeft⟩ := h (depth + 1)
      refine ⟨left, ?_⟩
      rw [List.map_append, List.reverse_append]
      show matchBack depth ('\x7d' :: (code.map Prod.fst).reverse) = some left
      rw [matchBack_closing, hLeft]
    | cons last rows =>
      -- the brace closes the last part, and the part before takes it in
      obtain ⟨front, back, rfl, hBack, hFront⟩ := h
      rw [List.append_assoc]
      refine hFront.append ?_
      have hGroup : (('\x7b', last) :: back ++ [('\x7d', row)]).map Prod.fst =
          '\x7b' :: (back.map Prod.fst ++ '\x7d' :: []) := by
        simp
      rw [hGroup]
      exact .group hBack .nil
  · have hSame : stackBrace rows (c, row) = rows := by
      simp only [isBrace, Bool.or_eq_false_iff, beq_eq_false_iff_ne] at hOther
      rw [stackBrace, if_neg hOther.1, if_neg hOther.2]
    rw [hSame]
    exact h.append (.other hOther .nil)

/-- The run lemma: the braces that the stack keeps are left over. -/
theorem leaves_stackBraces (code : List (Char × Nat)) :
    Leaves code (code.foldl stackBrace []) := by
  induction code using List.reverseRecOn with
  | nil =>
    intro depth
    exact ⟨depth, by cases depth <;> rfl⟩
  | append_singleton code c ih =>
    rw [List.foldl_append]
    exact ih.concat c

-- ---------------------------------------------------------------------------
-- The two scans
-- ---------------------------------------------------------------------------

/-- A stack of rows is as high as the count of open braces. -/
theorem length_stackBrace (waiting : List Nat) (c : Char × Nat) :
    (stackBrace waiting c).length = countBrace waiting.length c.1 := by
  unfold stackBrace countBrace
  split
  · rfl
  · split
    · exact List.length_tail
    · rfl

theorem length_foldl_stackBrace (waiting : List Nat) (code : List (Char × Nat)) :
    (code.foldl stackBrace waiting).length =
      (code.map Prod.fst).foldl countBrace waiting.length := by
  induction code generalizing waiting with
  | nil => rfl
  | cons c rest ih => rw [List.foldl_cons, ih, length_stackBrace, List.map_cons, List.foldl_cons]

/-- Forward, the open braces are counted. -/
theorem openBraces_eq_length (before : List Char) :
    openBraces before = (openRows before).length := by
  rw [openRows, length_foldl_stackBrace, map_fst_numbered]
  rfl

/-- Backward, nothing is found when no brace is open. -/
theorem enclosingElement_of_openRows_nil {before : List Char} (h : openRows before = []) :
    enclosingElement before = none := by
  have hLeaves : Leaves (numbered 0 (lines before)) [] := by
    rw [← h]
    exact leaves_stackBraces _
  obtain ⟨left, hLeft⟩ := hLeaves 0
  rw [map_fst_numbered] at hLeft
  exact enclosingBack_append hLeft []

/-- Backward, the search ends on the line of the last open brace. -/
theorem enclosingElement_of_openRows_cons {before : List Char} {row : Nat} {rows : List Nat}
    (h : openRows before = row :: rows) :
    ∃ line, (lines before)[row]? = some line ∧ '\x7b' ∈ stripComment line ∧
      enclosingElement before = elementOnLine (trim (stripComment line)) := by
  have hLeaves : Leaves (numbered 0 (lines before)) (row :: rows) := by
    rw [← h]
    exact leaves_stackBraces _
  obtain ⟨front, back, hCode, hMatched, -⟩ := hLeaves
  obtain ⟨earlier, line, later, inFront, behind, hLines, hRow, hLine, hBack⟩ :=
    exists_line_of_numbered hCode
  rw [hBack] at hMatched
  -- the later lines may close some braces that this line opens behind the last open one
  have hPassed : matchBack 0 (behind ++ later.flatMap stripComment).reverse = some 0 := by
    rw [← List.append_nil (List.reverse _), matchBack_of_matched hMatched]
    rfl
  rw [List.reverse_append, matchBack_append] at hPassed
  obtain ⟨left, hLater, hBehind⟩ := Option.bind_eq_some_iff.mp hPassed
  refine ⟨line, ?_, by simp [hLine], enclosingElement_of_lines hLines hLater ?_⟩
  · rw [hLines, hRow, Nat.zero_add, List.getElem?_append_right (Nat.le_refl _), Nat.sub_self]
    rfl
  · rw [hLine, List.reverse_append, List.reverse_cons, List.append_assoc, matchBack_append,
      hBehind]
    exact matchBack_opening_zero _

-- ---------------------------------------------------------------------------
-- The range of the counters
-- ---------------------------------------------------------------------------

/-- The count is bounded by the number of braces. -/
theorem foldl_countBrace_le (depth : Nat) (cs : List Char) :
    cs.foldl countBrace depth ≤ depth + (braces cs).length := by
  induction cs generalizing depth with
  | nil => exact Nat.le_refl depth
  | cons c rest ih =>
    have hRest := ih (countBrace depth c)
    rw [List.foldl_cons]
    rcases brace_cases c with rfl | rfl | hOther
    · rw [braces_cons_of_isBrace (by decide), List.length_cons]
      have hHere : countBrace depth '\x7b' = depth + 1 := rfl
      omega
    · rw [braces_cons_of_isBrace (by decide), List.length_cons]
      have hHere : countBrace depth '\x7d' = depth - 1 := rfl
      omega
    · rw [braces_cons_of_not hOther]
      simp only [isBrace, Bool.or_eq_false_iff, beq_eq_false_iff_ne] at hOther
      have hHere : countBrace depth c = depth := by
        rw [countBrace, if_neg hOther.1, if_neg hOther.2]
      omega

/-- The depth of a walk back is bounded by the number of braces. -/
theorem le_of_matchBack {depth left : Nat} {cs : List Char}
    (h : matchBack depth cs = some left) : left ≤ depth + (braces cs).length := by
  induction cs generalizing depth with
  | nil =>
    obtain rfl : depth = left := by cases depth <;> exact Option.some.inj h
    exact Nat.le_refl depth
  | cons c rest ih =>
    rcases brace_cases c with rfl | rfl | hOther
    · rw [braces_cons_of_isBrace (by decide), List.length_cons]
      cases depth with
      | zero => rw [matchBack_opening_zero] at h; exact absurd h (by simp)
      | succ depth =>
        rw [matchBack_opening] at h
        have hRest := ih h
        omega
    · rw [braces_cons_of_isBrace (by decide), List.length_cons]
      rw [matchBack_closing] at h
      have hRest := ih h
      omega
    · rw [braces_cons_of_not hOther]
      rw [matchBack_cons_of_not hOther] at h
      exact ih h

/-- A comment is cut off the end of a line. -/
theorem stripComment_isPrefix (line : List Char) : stripComment line <+: line := by
  by_cases hComment : ['/', '/'] <:+: line
  · obtain ⟨comment, hLine⟩ := exists_comment hComment
    exact ⟨'/' :: '/' :: comment, hLine.symm⟩
  · rw [stripComment_eq_self hComment]

/-- Code has no braces that its text has not. -/
theorem length_braces_code_le (before : List Char) :
    (braces ((lines before).flatMap stripComment)).length ≤ (braces before).length := by
  have hSublist (ls : List (List Char)) : (ls.flatMap stripComment).Sublist ls.flatten := by
    induction ls with
    | nil => exact .slnil
    | cons line later ih => exact (stripComment_isPrefix line).sublist.append ih
  rw [← braces_lines before]
  exact ((hSublist (lines before)).filter isBrace).length_le

-- ---------------------------------------------------------------------------
-- Agreement
-- ---------------------------------------------------------------------------

/-- A key is expected only inside of braces. -/
theorem openBraces_pos_of_property {text : String} {position : Position} {element : String}
    (h : contextAt text position = .property element) :
    0 < openBraces (textBefore text position) ∧
      element = String.ofList ((enclosingElement (textBefore text position)).getD []) := by
  unfold contextAt at h
  dsimp only at h
  split at h
  · exact absurd h (by simp)
  · split at h
    · exact absurd h (by simp)
    · next hOpen =>
      split at h
      · exact absurd h (by simp)
      · exact ⟨Nat.pos_of_ne_zero hOpen, (Context.property.inj h).symm⟩

/-- **The two scans agree.** In a text with fewer than `2 ^ 31` braces both counters stay
below `2 ^ 31`. The forward scan gives the number of open braces. If there is none,
the backward scan finds nothing, and else it takes the first word of the line that
holds the last of them. So does the context of a cursor where a key is
expected. -/
theorem openBraces_agrees (before : List Char) (hFew : (braces before).length < 2 ^ 31) :
    (∀ front, front <+: (lines before).flatMap stripComment →
      front.foldl countBrace 0 < 2 ^ 31) ∧
    (∀ back left, back <:+ (lines before).flatMap stripComment →
      matchBack 0 back.reverse = some left → left < 2 ^ 31) ∧
    openBraces before = (openRows before).length ∧
    (openBraces before = 0 → enclosingElement before = none) ∧
    (0 < openBraces before → ∃ row line, (openRows before).head? = some row ∧
      (lines before)[row]? = some line ∧ '\x7b' ∈ stripComment line ∧
      enclosingElement before = elementOnLine (trim (stripComment line))) ∧
    ∀ text position element, textBefore text position = before →
      contextAt text position = .property element →
      ∃ row line, (openRows before).head? = some row ∧ (lines before)[row]? = some line ∧
        '\x7b' ∈ stripComment line ∧
        element = String.ofList ((elementOnLine (trim (stripComment line))).getD []) := by
  have hCount := openBraces_eq_length before
  have hBraces := length_braces_code_le before
  have hInside (hOpen : 0 < openBraces before) :
      ∃ row line, (openRows before).head? = some row ∧ (lines before)[row]? = some line ∧
        '\x7b' ∈ stripComment line ∧
        enclosingElement before = elementOnLine (trim (stripComment line)) := by
    rw [hCount] at hOpen
    obtain ⟨row, rows, hRows⟩ := List.exists_cons_of_length_pos hOpen
    obtain ⟨line, hLine, hHolds, hFound⟩ := enclosingElement_of_openRows_cons hRows
    exact ⟨row, line, by rw [hRows]; rfl, hLine, hHolds, hFound⟩
  refine ⟨?_, ?_, hCount, ?_, hInside, ?_⟩
  · intro front hFront
    -- a part of the text has no more braces than the whole
    have hPart := (hFront.sublist.filter isBrace).length_le
    have hValue := foldl_countBrace_le 0 front
    unfold braces at *
    omega
  · intro back left hBack hLeft
    have hPart := (hBack.sublist.filter isBrace).length_le
    have hValue := le_of_matchBack hLeft
    have hReverse : (braces back.reverse).length = (braces back).length := by
      rw [braces, List.filter_reverse, List.length_reverse, braces]
    unfold braces at *
    omega
  · intro hNone
    rw [hCount] at hNone
    exact enclosingElement_of_openRows_nil (List.eq_nil_of_length_eq_zero hNone)
  · rintro text position element rfl hContext
    obtain ⟨hOpen, rfl⟩ := openBraces_pos_of_property hContext
    obtain ⟨row, line, hRow, hLine, hHolds, hFound⟩ := hInside hOpen
    exact ⟨row, line, hRow, hLine, hHolds, by rw [hFound]⟩

/-- A closing brace too many, a node with a comment that closes another, and a node
inside it that is closed again. -/
def slackSource : String :=
  "\x7d\nCard @ Item \x7b // \x7d\n  Row \x7b \x7d\n  wi"

/-- A brace too many before, and one brace open at the end. -/
theorem openBraces_agrees_slack :
    (braces slackSource.toList).length < 2 ^ 31 ∧
      textBefore slackSource ⟨3, 4⟩ = slackSource.toList ∧
      openBraces slackSource.toList = 1 ∧
      enclosingElement slackSource.toList = some "Card".toList ∧
      contextAt slackSource ⟨3, 4⟩ = .property "Card" := by
  have hFew : (braces slackSource.toList).length < 2 ^ 31 := by decide +kernel
  have hBefore : textBefore slackSource ⟨3, 4⟩ = slackSource.toList := by decide +kernel
  have hRows : openRows slackSource.toList = [1] := by decide +kernel
  have hLines : (lines slackSource.toList)[1]? = some "Card @ Item \x7b // \x7d".toList := by
    decide +kernel
  obtain ⟨-, -, hCount, -, hInside, -⟩ := openBraces_agrees slackSource.toList hFew
  have hOpen : openBraces slackSource.toList = 1 := by
    rw [hCount, hRows]
    rfl
  obtain ⟨row, line, hRow, hLine, -, hFound⟩ := hInside (by omega)
  rw [hRows] at hRow
  obtain rfl : 1 = row := Option.some.inj hRow
  obtain rfl := Option.some.inj (hLines.symm.trans hLine)
  refine ⟨hFew, hBefore, hOpen, ?_, by decide +kernel⟩
  rw [hFound]
  decide +kernel

end BindingMarkup.Editor
