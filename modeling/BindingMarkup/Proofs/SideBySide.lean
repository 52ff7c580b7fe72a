import BindingMarkup.Proofs.Extent
import BindingMarkup.Proofs.Margin

/-!
# BindingMarkup — scans side by side

Two texts lie ahead of two readers and differ in margins only (`Ahead`).
Whatever a reader asks of the text or takes from it is the same on both
sides, up to margins:

* Every look ahead gives the same answer (`bareWordAhead_eq`,
  `statementContinues_eq`). Most of them skip margins first, and
  `dropWhile_cases` is what they find behind.
* Every span takes the same, up to margins, and leaves the same ahead
  (`expressionSpan_alike`, `commentSpan_alike`, `blockSpan_alike`). A span
  that meets an edge takes its margins on both sides or on none.
* The value of a block has the same ink and the same sort
  (`classifyBlock_eq`, `blockValue_alike`). The classification walks over
  line feeds inside strings, where a backslash at the end of a line is
  followed by a margin on one side and by the line feed on the other;
  behind the edge both walks stand inside the string again
  (`settle`).
-/

namespace BindingMarkup.Token

open Text

variable {a b : List Char}

-- ---------------------------------------------------------------------------
-- Looking ahead
-- ---------------------------------------------------------------------------

/-- A class without blanks has no blank. -/
theorem eq_false_of_isBlank {p : Char → Bool} {c : Char}
    (hp : p c = true → isBlank c = false) (hc : isBlank c = true) : p c = false := by
  refine Bool.eq_false_iff.mpr fun hHere => ?_
  rw [hp hHere] at hc
  exact absurd hc (by simp)

theorem isElementChar_of_isBlank {c : Char} (h : isBlank c = true) : isElementChar c = false :=
  eq_false_of_isBlank (fun hc => isBlank_of_isWordChar (isWordChar_of_isElementChar hc)) h

theorem isNameChar_of_isBlank {c : Char} (h : isBlank c = true) : isNameChar c = false :=
  eq_false_of_isBlank (fun hc => isBlank_of_isWordChar (by rw [isWordChar, hc, Bool.true_or])) h

/-- A class of characters without blanks splits both texts alike. -/
theorem span_of_not_blank {p : Char → Bool} (hp : ∀ c, isBlank c = true → p c = false)
    (h : Ahead a b) : a.takeWhile p = b.takeWhile p ∧ Ahead (a.dropWhile p) (b.dropWhile p) :=
  h.span_of_not_margin (fun c hc => hp c (isBlank_of_isMargin hc)) (hp '\n' (by decide))

/-- A comment does not reach over an edge. -/
theorem startsComment_eq (h : Ahead a b) : startsComment a = startsComment b := by
  have hFront : ∀ {a b : List Char}, Ahead a b → startsComment a = true →
      startsComment b = true := by
    intro a b h hStarts
    unfold startsComment at hStarts
    split at hStarts
    · obtain ⟨rest, rfl, hRest⟩ := h.of_cons (by decide) (by decide)
      obtain ⟨rest', rfl, -⟩ := hRest.of_cons (by decide) (by decide)
      rfl
    · exact absurd hStarts (by simp)
  exact Bool.eq_iff_iff.mpr ⟨hFront h, hFront h.symm⟩

/-- Whether a word stands alone is the same on both sides. -/
theorem bareWordAhead_eq (h : Ahead a b) : bareWordAhead a = bareWordAhead b := by
  have hWord := (span_of_not_blank (fun _ => isElementChar_of_isBlank) h).2
  unfold bareWordAhead
  rcases hWord.dropWhile_cases fun _ => id with ⟨ha, hb⟩ | ⟨c, x, y, ha, hb, -, hRest⟩
  · rw [ha, hb]
  · rw [ha, hb]
    simp only [startsComment_eq hRest]

/-- A text without the mark is passed over. -/
theorem splitAtFirst?_of_not_mem {c : Char} {front : List Char} (h : c ∉ front)
    (rest : List Char) :
    splitAtFirst? c (front ++ rest) =
      (splitAtFirst? c rest).map fun (first, back) => (front ++ first, back) := by
  induction front with
  | nil => simp
  | cons d more ih =>
    rw [List.mem_cons, not_or] at h
    rw [List.cons_append, splitAtFirst?, if_neg (Ne.symm h.1), ih h.2]
    cases splitAtFirst? c rest <;> rfl

/-- A character that is no blank is found in both texts or in none, and what follows it
lies ahead. -/
theorem splitAtFirst?_alike {c : Char} (hc : isBlank c = false) (h : Ahead a b) :
    (splitAtFirst? c a = none ∧ splitAtFirst? c b = none) ∨
      ∃ front front' x y, splitAtFirst? c a = some (front, x) ∧
        splitAtFirst? c b = some (front', y) ∧ Ahead x y := by
  have hNot : ∀ {cs : List Char}, (∀ d ∈ cs, isBlank d = true) → c ∉ cs := by
    intro cs hcs hMem
    rw [hcs c hMem] at hc
    exact absurd hc (by simp)
  induction h with
  | @last a b ha hb =>
    have hNone : ∀ {m : List Char}, Margin m → splitAtFirst? c m = none := by
      intro m hm
      simpa [splitAtFirst?] using splitAtFirst?_of_not_mem (hNot hm.isBlank) []
    exact .inl ⟨hNone ha, hNone hb⟩
  | @char a b d hRest ih =>
    by_cases hHere : d = c
    · exact .inr ⟨[], [], a, b, by simp [splitAtFirst?, hHere], by simp [splitAtFirst?, hHere],
        hRest⟩
    · rcases ih with ⟨ha, hb⟩ | ⟨front, front', x, y, ha, hb, hxy⟩
      · exact .inl ⟨by simp [splitAtFirst?, hHere, ha], by simp [splitAtFirst?, hHere, hb]⟩
      · exact .inr ⟨d :: front, d :: front', x, y, by simp [splitAtFirst?, hHere, ha],
          by simp [splitAtFirst?, hHere, hb], hxy⟩
  | @edge m n m' n' a b hm hn hm' hn' _ ih =>
    rw [edge_append m, edge_append m', splitAtFirst?_of_not_mem (hNot (hm.edge_isBlank hn)),
      splitAtFirst?_of_not_mem (hNot (hm'.edge_isBlank hn'))]
    rcases ih with ⟨ha, hb⟩ | ⟨front, front', x, y, ha, hb, hxy⟩
    · exact .inl ⟨by rw [ha]; rfl, by rw [hb]; rfl⟩
    · exact .inr ⟨_, _, x, y, by rw [ha]; rfl, by rw [hb]; rfl, hxy⟩

/-- Behind all blanks, line feeds included, both texts end or go on alike. -/
theorem trimStart_cases (h : Ahead a b) :
    (trimStart a = [] ∧ trimStart b = []) ∨
      ∃ c x y, trimStart a = c :: x ∧ trimStart b = c :: y ∧ Ahead x y := by
  rcases h.dropWhile_cases fun _ => isBlank_of_isMargin with hNil | ⟨c, x, y, ha, hb, hc, hRest⟩
  · exact .inl hNil
  · have hMargin : isMargin c = false := by
      refine Bool.eq_false_iff.mpr fun hHere => ?_
      exact absurd (isBlank_of_isMargin hHere) (by simp [hc])
    have hBreak : c ≠ '\n' := by
      rintro rfl
      exact absurd hc (by decide)
    obtain ⟨y', hEq, hxy⟩ := hRest.of_cons hMargin hBreak
    obtain rfl := (List.cons.inj hEq).2
    exact .inr ⟨c, x, _, ha, hb, hxy⟩

/-- The first character behind blanks is the same. -/
theorem head?_trimStart_eq (h : Ahead a b) : (trimStart a).head? = (trimStart b).head? := by
  rcases trimStart_cases h with ⟨ha, hb⟩ | ⟨c, x, y, ha, hb, -⟩
  · rw [ha, hb]
  · rw [ha, hb]
    rfl

/-- Whether a property follows is the same on both sides. -/
theorem propertyAhead_eq (h : Ahead a b) : propertyAhead a = propertyAhead b := by
  obtain ⟨hName, hRest⟩ := span_of_not_blank (fun _ => isNameChar_of_isBlank) h
  unfold propertyAhead
  rw [hName]
  refine congrArg (!(b.takeWhile isNameChar).isEmpty && ·) ?_
  rcases trimStart_cases hRest with ⟨ha, hb⟩ | ⟨c, x, y, ha, hb, hArgs⟩
  · rw [ha, hb]
  · rw [ha, hb]
    by_cases hParen : c = '('
    · subst hParen
      rcases splitAtFirst?_alike (c := ')') (by decide) hArgs with
        ⟨hx, hy⟩ | ⟨front, front', x', y', hx, hy, hBehind⟩
      · simp only [hx, hy]
      · simp only [hx, hy, head?_trimStart_eq hBehind]
    · split
      · next hEq => exact absurd (List.cons.inj hEq).1 hParen
      · split
        · next hEq => exact absurd (List.cons.inj hEq).1 hParen
        · rfl

/-- Whether a node follows is the same on both sides. -/
theorem elementAhead_eq (h : Ahead a b) : elementAhead a = elementAhead b := by
  have hRest := (span_of_not_blank (fun _ => isElementChar_of_isBlank) h).2
  have hUpper : ∀ c : Char, isBlank c = true → c.isUpper = false := by
    intro c hc
    refine Bool.eq_false_iff.mpr fun hHere => ?_
    exact absurd (isElementChar_of_isUpper hHere) (by simp [isElementChar_of_isBlank hc])
  have hAny : ∀ cs : List Char,
      cs.head?.any Char.isUpper = !(cs.takeWhile Char.isUpper).isEmpty := by
    intro cs
    cases cs with
    | nil => rfl
    | cons c rest => cases hc : c.isUpper <;> simp [hc]
  unfold elementAhead
  rw [hAny, hAny, (span_of_not_blank hUpper h).1, head?_trimStart_eq hRest]

/-- Whether a statement goes on is the same on both sides. -/
theorem statementContinues_eq (h : Ahead a b) : statementContinues a = statementContinues b := by
  unfold statementContinues
  rcases h.dropWhile_cases fun _ => id with ⟨ha, hb⟩ | ⟨c, x, y, ha, hb, -, hRest⟩
  · rw [ha, hb]
  · rw [ha, hb]
    simp only [startsComment_eq hRest, propertyAhead_eq hRest, elementAhead_eq hRest]

/-- Whether an expression ends is the same on both sides. -/
theorem endsExpression_eq (inValue : Bool) (quote : Quote) (depth : Nat) (c : Char)
    (h : Ahead a b) :
    endsExpression inValue quote depth c a = endsExpression inValue quote depth c b := by
  unfold endsExpression
  rw [startsComment_eq (.char c h), statementContinues_eq h]

-- ---------------------------------------------------------------------------
-- Lines, expressions and comments
-- ---------------------------------------------------------------------------

/-- The first line ends at the first line break. -/
theorem firstLine_of_not_mem {line rest : List Char} (h : '\n' ∉ line) :
    firstLine (line ++ '\n' :: rest) = line ∧
      afterFirstLine (line ++ '\n' :: rest) = '\n' :: rest := by
  have hLine : ∀ c ∈ line, (c != '\n') = true := by
    intro c hc
    exact bne_iff_ne.mpr fun hEq => h (hEq ▸ hc)
  constructor
  · rw [firstLine, List.takeWhile_append_of_pos hLine]
    simp
  · rw [afterFirstLine, List.dropWhile_append_of_pos hLine]
    simp

/-- The first lines are alike, and so is what follows them. -/
theorem firstLine_alike (h : Ahead a b) :
    Ahead (firstLine a) (firstLine b) ∧ Ahead (afterFirstLine a) (afterFirstLine b) := by
  have hBreak : ∀ {m : List Char}, Margin m → '\n' ∉ m := fun hm => hm.not_mem (by decide)
  induction h with
  | @last a b ha hb =>
    have hAll : ∀ {m : List Char}, Margin m → firstLine m = m ∧ afterFirstLine m = [] := by
      intro m hm
      have hLine : ∀ c ∈ m, (c != '\n') = true := fun c hc =>
        bne_iff_ne.mpr fun hEq => hBreak hm (hEq ▸ hc)
      exact ⟨List.takeWhile_eq_self_iff.mpr hLine, List.dropWhile_eq_nil_iff.mpr hLine⟩
    rw [(hAll ha).1, (hAll ha).2, (hAll hb).1, (hAll hb).2]
    exact ⟨.last ha hb, .nil⟩
  | @char a b c hRest ih =>
    simp only [firstLine, afterFirstLine, List.takeWhile_cons, List.dropWhile_cons] at ih ⊢
    split
    · exact ⟨.char c ih.1, ih.2⟩
    · exact ⟨.nil, .char c hRest⟩
  | edge hm hn hm' hn' hRest =>
    rw [(firstLine_of_not_mem (hBreak hm)).1, (firstLine_of_not_mem (hBreak hm)).2,
      (firstLine_of_not_mem (hBreak hm')).1, (firstLine_of_not_mem (hBreak hm')).2]
    exact ⟨.last hm hm', .edge .nil hn .nil hn' hRest⟩

/-- Trimmed texts without line feeds do not differ at all. -/
theorem trimEnd_eq_of_not_mem (h : Ahead a b) (hBreak : '\n' ∉ a) : trimEnd a = trimEnd b :=
  h.trimEnd.eq_of_not_mem fun hMem => hBreak ((trimEnd_isPrefix a).subset hMem)

/-- The context of a token is trimmed, so it is the same. -/
theorem contextOf_eq (h : Ahead a b) : contextOf a = contextOf b := by
  have hBreak : '\n' ∉ firstLine a := fun hMem =>
    absurd (List.mem_takeWhile_imp hMem) (by decide)
  unfold contextOf
  rw [trimEnd_eq_of_not_mem (firstLine_alike h).1 hBreak]

/-- A margin at the end of a line belongs to the expression before it. -/
theorem expressionSpan_margin {m tail : List Char} (hm : Margin m)
    (hTail : tail.head? = none ∨ tail.head? = some '\n') (inValue : Bool) (quote : Quote)
    (depth : Nat) : expressionSpan inValue quote depth (m ++ tail) = (m, tail) := by
  induction m generalizing quote depth with
  | nil =>
    cases tail with
    | nil => rfl
    | cons c rest =>
      obtain rfl : c = '\n' := by simpa using hTail
      simp [expressionSpan, endsExpression]
  | cons c rest ih =>
    have hRest : Margin rest := fun d hd => hm d (List.mem_cons_of_mem c hd)
    have hc : isMargin c = true := hm c List.mem_cons_self
    have hBreak : c ≠ '\n' := ne_of_class hc (by decide)
    have hSlash : c ≠ '/' := ne_of_class hc (by decide)
    have hEnds : endsExpression inValue quote depth c (rest ++ tail) = false := by
      -- in a string nothing but a line break ends an expression
      by_cases hQuote : quote = .outside
      · subst hQuote
        exact endsExpression_eq_false_of_outside hBreak (fun hComment => hSlash hComment.1)
          fun _ => ⟨ne_of_class hc (by decide), ne_of_class hc (by decide),
            fun hColon => absurd hColon (ne_of_class hc (by decide))⟩
      · exact endsExpression_eq_false_of_quoted hQuote hBreak
    exact expressionSpan_cons hEnds (ih hRest _ _)

/-- An expression is the same on both sides but for the margins behind it. -/
theorem expressionSpan_alike (h : Ahead a b) (inValue : Bool) (quote : Quote) (depth : Nat) :
    Ahead (expressionSpan inValue quote depth a).1 (expressionSpan inValue quote depth b).1 ∧
      Ahead (expressionSpan inValue quote depth a).2 (expressionSpan inValue quote depth b).2 := by
  induction h generalizing quote depth with
  | @last a b ha hb =>
    rw [← List.append_nil a, ← List.append_nil b, expressionSpan_margin ha (.inl rfl),
      expressionSpan_margin hb (.inl rfl)]
    exact ⟨.last ha hb, .nil⟩
  | @char a b c hRest ih =>
    simp only [expressionSpan, endsExpression_eq inValue quote depth c hRest]
    split
    · exact ⟨.nil, .char c hRest⟩
    · exact ⟨.char c (ih _ _).1, (ih _ _).2⟩
  | edge hm hn hm' hn' hRest =>
    rw [expressionSpan_margin hm (.inr rfl), expressionSpan_margin hm' (.inr rfl)]
    exact ⟨.last hm hm', .edge .nil hn .nil hn' hRest⟩

/-- The text of an expression is trimmed, so it is the same. -/
theorem expressionText_eq (h : Ahead a b) (hBreak : '\n' ∉ a) :
    expressionText a = expressionText b := by
  unfold expressionText trim
  rw [trimEnd_eq_of_not_mem h.trimStart fun hMem => hBreak ((trimStart_suffix a).subset hMem)]

/-- The end of a statement is found on both sides or on none. -/
theorem terminate_alike (state : State) (h : Ahead a b) :
    (state.terminate a).1 = (state.terminate b).1 ∧
      Ahead (state.terminate a).2 (state.terminate b).2 := by
  have hOther : ∀ {cs : List Char}, cs.head? ≠ some ';' → state.terminate cs = (state, cs) := by
    intro cs hHead
    unfold State.terminate
    split
    · exact absurd rfl hHead
    · rfl
  by_cases hHead : a.head? = some ';'
  · obtain ⟨x, rfl⟩ := List.head?_eq_some_iff.mp hHead
    obtain ⟨y, rfl, hRest⟩ := h.of_cons (by decide) (by decide)
    exact ⟨rfl, hRest⟩
  · have hHead' : b.head? ≠ some ';' := fun hb =>
      hHead ((h.head?_eq_some_iff (by decide) (by decide)).mpr hb)
    rw [hOther hHead, hOther hHead']
    exact ⟨rfl, h⟩

/-- A comment goes on unless its closing mark stands here. -/
theorem commentSpan_cons {c : Char} {rest : List Char}
    (h : ¬(c = '*' ∧ rest.head? = some '/')) :
    (commentSpan (c :: rest)).2 = (commentSpan rest).2 := by
  rw [commentSpan]
  rintro rest' rfl rfl
  exact h ⟨rfl, rfl⟩

theorem commentSpan_of_not_mem {front : List Char} (h : '*' ∉ front) (rest : List Char) :
    (commentSpan (front ++ rest)).2 = (commentSpan rest).2 := by
  induction front with
  | nil => rfl
  | cons c more ih =>
    rw [List.mem_cons, not_or] at h
    rw [List.cons_append, commentSpan_cons fun hMark => h.1 hMark.1.symm, ih h.2]

/-- A comment ends at the same place on both sides and has as many line feeds. -/
theorem commentSpan_alike (h : Ahead a b) :
    Ahead (commentSpan a).2 (commentSpan b).2 ∧
      (commentSpan a).1.count '\n' = (commentSpan b).1.count '\n' := by
  have hRests : Ahead (commentSpan a).2 (commentSpan b).2 := by
    induction h with
    | @last a b ha hb =>
      rw [← List.append_nil a, ← List.append_nil b,
        commentSpan_of_not_mem (ha.not_mem (by decide)),
        commentSpan_of_not_mem (hb.not_mem (by decide))]
      exact .nil
    | @char a b c hRest ih =>
      by_cases hMark : c = '*' ∧ a.head? = some '/'
      · obtain ⟨rfl, hHead⟩ := hMark
        obtain ⟨x, rfl⟩ := List.head?_eq_some_iff.mp hHead
        obtain ⟨y, rfl, hxy⟩ := hRest.of_cons (by decide) (by decide)
        exact hxy
      · -- the two characters of the closing mark are never apart
        have hMark' : ¬(c = '*' ∧ b.head? = some '/') := fun hb =>
          hMark ⟨hb.1, (hRest.head?_eq_some_iff (by decide) (by decide)).mpr hb.2⟩
        rwa [commentSpan_cons hMark, commentSpan_cons hMark']
    | @edge m n m' n' a b hm hn hm' hn' _ ih =>
      have hBreak : ∀ cs : List Char, (commentSpan ('\n' :: cs)).2 = (commentSpan cs).2 :=
        fun cs => commentSpan_cons (by simp)
      rwa [commentSpan_of_not_mem (hm.not_mem (by decide)),
        commentSpan_of_not_mem (hm'.not_mem (by decide)), hBreak, hBreak,
        commentSpan_of_not_mem (hn.not_mem (by decide)),
        commentSpan_of_not_mem (hn'.not_mem (by decide))]
  refine ⟨hRests, ?_⟩
  have hCount := count_commentSpan a
  have hCount' := count_commentSpan b
  rw [h.count_eq] at hCount
  have hRestCount := hRests.count_eq
  omega

-- ---------------------------------------------------------------------------
-- Blocks
-- ---------------------------------------------------------------------------

theorem isQuote_of_isBlank {c : Char} (h : isBlank c = true) : isQuote c = false := by
  refine eq_false_of_isBlank (fun hQuote => ?_) h
  simp only [isQuote, Bool.or_eq_true, beq_iff_eq] at hQuote
  rcases hQuote with (rfl | rfl) | rfl <;> decide

theorem isOpening_of_isBlank {c : Char} (h : isBlank c = true) : isOpening c = false := by
  refine eq_false_of_isBlank (fun hOpening => ?_) h
  simp only [isOpening, Bool.or_eq_true, beq_iff_eq] at hOpening
  rcases hOpening with (rfl | rfl) | rfl <;> decide

theorem isClosing_of_isBlank {c : Char} (h : isBlank c = true) : isClosing c = false := by
  refine eq_false_of_isBlank (fun hClosing => ?_) h
  simp only [isClosing, Bool.or_eq_true, beq_iff_eq] at hClosing
  rcases hClosing with (rfl | rfl) | rfl <;> decide

/-- A block takes margins along, except behind a comment. -/
theorem blockSpan_margin {m : List Char} (hm : Margin m) (comment : Bool) (quote : Quote)
    (depth : Nat) (rest : List Char) :
    ∃ quote', (quote = .outside → quote' = .outside) ∧
      blockSpan comment quote depth (m ++ rest) =
        ((if comment then [] else m) ++ (blockSpan comment quote' depth rest).1,
          (blockSpan comment quote' depth rest).2) := by
  induction m generalizing quote with
  | nil => exact ⟨quote, id, by simp⟩
  | cons c more ih =>
    have hMore : Margin more := fun d hd => hm d (List.mem_cons_of_mem c hd)
    have hc : isMargin c = true := hm c List.mem_cons_self
    have hBreak : c ≠ '\n' := ne_of_class hc (by decide)
    have hComment : startsComment (c :: (more ++ rest)) = false :=
      startsComment_eq_false fun hHere => ne_of_class hc (by decide) hHere.1
    cases comment with
    | true =>
      -- in a comment the margin is dropped and no string opens
      obtain ⟨quote', hOutside, hSpan⟩ := ih hMore .outside
      refine ⟨quote', fun _ => hOutside rfl, ?_⟩
      simpa [blockSpan, hBreak] using hSpan
    | false =>
      obtain ⟨quote', hOutside, hSpan⟩ := ih hMore (quote.next c)
      have hOpen : c ≠ '\x7b' := ne_of_class hc (by decide)
      have hClose : c ≠ '\x7d' := ne_of_class hc (by decide)
      refine ⟨quote', ?_, ?_⟩
      · rintro rfl
        exact hOutside (by simp [Quote.next, isQuote_of_isBlank (isBlank_of_isMargin hc)])
      · simp [blockSpan, braceDepth, hBreak, hComment, hOpen, hClose, hSpan]

/-- Behind an edge a block goes on outside of comments and strings. -/
theorem blockSpan_edge {m n : List Char} (hm : Margin m) (hn : Margin n) (comment : Bool)
    (quote : Quote) (depth : Nat) (rest : List Char) :
    blockSpan comment quote depth (m ++ '\n' :: (n ++ rest)) =
      ((if comment then [] else m) ++ '\n' :: (n ++ (blockSpan false .outside depth rest).1),
        (blockSpan false .outside depth rest).2) := by
  obtain ⟨quote', -, hFront⟩ := blockSpan_margin hm comment quote depth ('\n' :: (n ++ rest))
  obtain ⟨quote'', hOutside, hBack⟩ := blockSpan_margin hn false .outside depth rest
  obtain rfl := hOutside rfl
  rw [hFront, blockSpan_break, hBack]
  simp

/-- A block keeps texts that are alike and leaves rests that are alike. -/
theorem blockSpan_alike (h : Ahead a b) (comment : Bool) (quote : Quote) (depth : Nat) :
    Ahead (blockSpan comment quote depth a).1 (blockSpan comment quote depth b).1 ∧
      Ahead (blockSpan comment quote depth a).2 (blockSpan comment quote depth b).2 := by
  have hKept : ∀ {m : List Char}, Margin m → ∀ comment : Bool,
      Margin (if comment then [] else m) := by
    intro m hm comment
    split
    · exact .nil
    · exact hm
  -- the induction is on the two texts, for a reader in any state
  induction h generalizing comment quote depth with
  | @last a b ha hb =>
    obtain ⟨_, -, hSpan⟩ := blockSpan_margin ha comment quote depth []
    obtain ⟨_, -, hSpan'⟩ := blockSpan_margin hb comment quote depth []
    rw [List.append_nil] at hSpan hSpan'
    rw [hSpan, hSpan']
    simp only [blockSpan, List.append_nil]
    exact ⟨.last (hKept ha comment) (hKept hb comment), .nil⟩
  | @char a b c hRest ih =>
    simp only [blockSpan, startsComment_eq (.char c hRest)]
    split_ifs
    · exact ⟨.char c (ih false .outside depth).1, (ih false .outside depth).2⟩
    · exact ih true .outside depth
    · exact ih true .outside depth
    · exact ⟨.char c .nil, hRest⟩
    · exact ⟨.char c (ih false _ _).1, (ih false _ _).2⟩
  | edge hm hn hm' hn' _ ih =>
    rw [blockSpan_edge hm hn, blockSpan_edge hm' hn']
    exact ⟨.edge (hKept hm comment) hn (hKept hm' comment) hn' (ih false .outside depth).1,
      (ih false .outside depth).2⟩

/-- A semicolon behind spaces and tabs stands on the same line, so on both sides. -/
theorem dropWhile_semicolon (h : Ahead a b) {p : Char → Bool}
    (hp : ∀ c, p c = true → isMargin c = true) {x : List Char} (hx : a.dropWhile p = ';' :: x) :
    ∃ y, b.dropWhile p = ';' :: y ∧ Ahead x y := by
  induction h with
  | last ha hb =>
    have hMem : ';' ∈ _ := (List.dropWhile_suffix p).subset (hx ▸ List.mem_cons_self)
    exact absurd hMem (ha.not_mem (by decide))
  | @char a b c hRest ih =>
    rw [List.dropWhile_cons] at hx ⊢
    split at hx
    · next hc => simpa [hc] using ih hx
    · next hc =>
      obtain ⟨rfl, rfl⟩ := List.cons.inj hx
      exact ⟨b, by simp [hc], hRest⟩
  | @edge m n _ _ a _ hm _ _ _ _ =>
    -- the line ends before a semicolon
    rw [List.dropWhile_append] at hx
    split at hx
    · have hFeed : p '\n' = false := Bool.eq_false_iff.mpr fun hHere =>
        absurd (hp _ hHere) (by decide)
      rw [List.dropWhile_cons_of_neg (by simp [hFeed])] at hx
      exact absurd (List.cons.inj hx).1 (by decide)
    · cases hDrop : m.dropWhile p with
      | nil => simp_all
      | cons d more =>
        rw [hDrop] at hx
        have hMem : d ∈ m := (List.dropWhile_suffix p).subset (hDrop ▸ List.mem_cons_self)
        rw [(List.cons.inj hx).1] at hMem
        exact absurd hMem (hm.not_mem (by decide))

/-- A semicolon behind a block is found on both sides or on none. -/
theorem skipTerminator_alike (h : Ahead a b) : Ahead (skipTerminator a) (skipTerminator b) := by
  have hp : ∀ c : Char, (c == ' ' || c == '\t') = true → isMargin c = true := by
    intro c hc
    rw [isMargin, hc, Bool.true_or]
  unfold skipTerminator
  split
  · next x hx =>
    obtain ⟨y, hy, hxy⟩ := dropWhile_semicolon h hp hx
    rw [hy]
    exact hxy
  · next hNone =>
    split
    · next y hy =>
      obtain ⟨x, hx, -⟩ := dropWhile_semicolon h.symm hp hy
      exact absurd hx (hNone x)
    · exact h

-- ---------------------------------------------------------------------------
-- The value of a block
-- ---------------------------------------------------------------------------

/-- The state behind a blank: a backslash before it is used up. -/
def settle : Quote → Quote
  | .escaped mark => .inside mark
  | quote => quote

/-- The string is one that a quote opened. -/
def Marked : Quote → Prop
  | .outside => True
  | .inside mark => isQuote mark = true
  | .escaped mark => isQuote mark = true

/-- A string is opened by one of the three marks. -/
theorem Marked.next {quote : Quote} (h : Marked quote) (c : Char) : Marked (quote.next c) := by
  cases quote with
  | outside =>
    simp only [Quote.next]
    split
    · next hc => exact hc
    · trivial
  | inside mark =>
    simp only [Quote.next]
    split
    · exact h
    · split
      · trivial
      · exact h
  | escaped mark => exact h

theorem Marked.settle {quote : Quote} (h : Marked quote) : Marked (settle quote) := by
  cases quote <;> exact h

theorem settle_settle (quote : Quote) : settle (settle quote) = settle quote := by
  cases quote <;> rfl

/-- A blank neither opens nor closes anything. -/
theorem next_of_isBlank {quote : Quote} (h : Marked quote) {c : Char} (hc : isBlank c = true) :
    quote.next c = settle quote := by
  cases quote with
  | outside => simp [Quote.next, settle, isQuote_of_isBlank hc]
  | inside mark =>
    have hEscape : c ≠ '\\' := ne_of_class hc (by decide)
    have hMark : c ≠ mark := by
      rintro rfl
      exact absurd (isQuote_of_isBlank hc) (by simp [show isQuote c = true from h])
    simp [Quote.next, settle, hEscape, hMark]
  | escaped mark => rfl

/-- Blanks leave the depth as it is. -/
theorem depth_of_isBlank (quote : Quote) (depth : Nat) {c : Char} (hc : isBlank c = true) :
    quote.depth depth c = depth := by
  cases quote with
  | outside => simp [Quote.depth, bracketDepth_eq, isOpening_of_isBlank hc, isClosing_of_isBlank hc]
  | _ => rfl

/-- A search passes over a run of blanks. -/
theorem beforeTop?_blanks {mark : Char} (hMark : isBlank mark = false) {quote : Quote}
    (h : Marked quote) (depth : Nat) {blanks : List Char} (hNil : blanks ≠ [])
    (hBlanks : ∀ c ∈ blanks, isBlank c = true) (rest : List Char) :
    beforeTop? mark quote depth (blanks ++ rest) =
      (beforeTop? mark (settle quote) depth rest).map (blanks ++ ·) := by
  induction blanks generalizing quote with
  | nil => exact absurd rfl hNil
  | cons c more ih =>
    have hc : isBlank c = true := hBlanks c List.mem_cons_self
    have hHere : c ≠ mark := ne_of_class hc hMark
    rw [List.cons_append, beforeTop?, if_neg (by simp [hHere]), next_of_isBlank h hc,
      depth_of_isBlank quote depth hc]
    by_cases hMore : more = []
    · subst hMore
      rfl
    · rw [ih h.settle hMore fun d hd => hBlanks d (List.mem_cons_of_mem c hd), settle_settle,
        Option.map_map]
      rfl

theorem rel_map {x y : Option (List Char)} {f g : List Char → List Char}
    (hfg : ∀ {s t}, SameInk s t → SameInk (f s) (g t)) (h : Option.Rel SameInk x y) :
    Option.Rel SameInk (x.map f) (y.map g) := by
  cases h with
  | none => exact .none
  | some hInk => exact .some (hfg hInk)

/-- What stands before a mark at the top has the same ink. -/
theorem beforeTop?_alike {mark : Char} (hMark : isBlank mark = false) (h : SameInk a b)
    {quote : Quote} (hQuote : Marked quote) (depth : Nat) :
    Option.Rel SameInk (beforeTop? mark quote depth a) (beforeTop? mark quote depth b) := by
  induction h generalizing quote depth with
  | nil => exact .none
  | char c _ ih =>
    unfold beforeTop?
    split
    · exact .some .nil
    · exact rel_map (.char c) (ih (hQuote.next c) (quote.depth depth c))
  | @edge m n m' n' a b hm hn hm' hn' _ ih =>
    rw [edge_append m, edge_append m',
      beforeTop?_blanks hMark hQuote depth (by simp) (hm.edge_isBlank hn),
      beforeTop?_blanks hMark hQuote depth (by simp) (hm'.edge_isBlank hn')]
    refine rel_map (fun hInk => ?_) (ih hQuote.settle depth)
    simpa using SameInk.edge hm hn hm' hn' hInk

theorem stripBraces_alike (h : Ahead a b) : SameInk (stripBraces a) (stripBraces b) :=
  (h.trimStart.trimEnd.stripFront (by decide) (by decide)).stripBack (by decide) (by decide)

/-- A text is quoted when it starts with a mark and ends with another one. -/
theorem isQuoted_eq_true_iff {cs : List Char} :
    isQuoted cs = true ↔ ∃ mark, (mark = '"' ∨ mark = '\x27') ∧ cs.head? = some mark ∧
      cs.getLast? = some mark ∧ stripFront mark cs ≠ [] := by
  cases cs with
  | nil => simp [isQuoted]
  | cons c rest =>
    have hLength : 2 ≤ (c :: rest).length ↔ rest ≠ [] := by
      rw [List.length_cons, ← List.length_pos_iff]
      omega
    simp only [isQuoted, hLength, List.head?_cons, Bool.and_eq_true, Bool.or_eq_true, beq_iff_eq,
      decide_eq_true_eq, Option.some.injEq]
    constructor
    · rintro ⟨hRest, ⟨rfl, hLast⟩ | ⟨rfl, hLast⟩⟩
      · exact ⟨_, .inl rfl, rfl, hLast, by simpa [stripFront] using hRest⟩
      · exact ⟨_, .inr rfl, rfl, hLast, by simpa [stripFront] using hRest⟩
    · rintro ⟨_, rfl | rfl, rfl, hLast, hRest⟩
      · exact ⟨by simpa [stripFront] using hRest, .inl ⟨rfl, hLast⟩⟩
      · exact ⟨by simpa [stripFront] using hRest, .inr ⟨rfl, hLast⟩⟩

/-- Whether a key is quoted is the same on both sides. -/
theorem isQuoted_eq (h : SameInk a b) : isQuoted a = isQuoted b := by
  refine Bool.eq_iff_iff.mpr ?_
  rw [isQuoted_eq_true_iff, isQuoted_eq_true_iff]
  refine exists_congr fun mark => and_congr_right fun hMark => ?_
  obtain ⟨hMargin, hBreak⟩ : isMargin mark = false ∧ mark ≠ '\n' := by
    rcases hMark with rfl | rfl <;> decide
  rw [h.head?_eq_some_iff hMargin hBreak, h.getLast?_eq_some_iff hMargin hBreak, ne_eq,
    (h.stripFront hMargin hBreak).eq_nil_iff]

theorem isEmpty_eq (h : SameInk a b) : a.isEmpty = b.isEmpty := by
  rw [Bool.eq_iff_iff, List.isEmpty_iff, List.isEmpty_iff, h.eq_nil_iff]

/-- Whether a text is a key is the same on both sides. -/
theorem isObjectKey_eq (h : SameInk a b) : isObjectKey a = isObjectKey b := by
  have hBreak : isNameChar '\n' = false := isNameChar_of_isBlank (by decide)
  rw [isObjectKey, isObjectKey, isQuoted_eq h, isEmpty_eq h, h.all_eq hBreak]

/-- **Margins do not change the sort of a block.** -/
theorem classifyBlock_eq (h : Ahead a b) : classifyBlock a = classifyBlock b := by
  have hBody := (stripBraces_alike h).trim
  have hOutside : Marked .outside := trivial
  have hTop : ∀ mark : Char, isBlank mark = false →
      Option.Rel SameInk (beforeTop? mark .outside 0 (trim (stripBraces a)))
        (beforeTop? mark .outside 0 (trim (stripBraces b))) :=
    fun mark hMark => beforeTop?_alike hMark hBody hOutside 0
  have hSemicolon := hTop ';' (by decide)
  have hColon := hTop ':' (by decide)
  unfold classifyBlock
  simp only [isEmpty_eq hBody]
  -- from here on only the outcomes of the two searches matter
  generalize beforeTop? ';' .outside 0 (trim (stripBraces a)) = x,
    beforeTop? ';' .outside 0 (trim (stripBraces b)) = y at hSemicolon
  generalize beforeTop? ':' .outside 0 (trim (stripBraces a)) = key,
    beforeTop? ':' .outside 0 (trim (stripBraces b)) = key' at hColon
  have hSome : x.isSome = y.isSome := by cases hSemicolon <;> rfl
  rw [hSome]
  cases hColon with
  | none => rfl
  | some hKey => simp only [isObjectKey_eq hKey.trim]

/-- The values of blocks that are alike have the same ink. -/
theorem blockValue_alike (h : Ahead a b) : SameInk (blockValue a) (blockValue b) := by
  unfold blockValue
  rw [classifyBlock_eq h]
  split
  · exact h.trimStart.trimEnd
  · exact (stripBraces_alike h).trim

end BindingMarkup.Token
