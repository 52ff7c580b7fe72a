import BindingMarkup.Proofs.SideBySide

/-!
# BindingMarkup — which blocks are objects

A block in braces is an object when its first item at the top is a key with
a colon and no semicolon stands at the top. What stands at the top is
decided by a scan that knows strings and brackets; what is a key is decided
by a look at the first and the last character of the text before the colon.
Here both are said without the scan:

* `Surfaces` — a text behind which one stands outside all strings and
  brackets, as a grammar of strings, brackets and other characters.
  `surfaces_iff` says that the scan agrees with it, and `firstTop_iff` that
  its search finds the first mark at the top.
* `IsEntryKey` — the keys there should be: names and string literals.
* `JoinsLiterals` — two literals with the same mark and anything between
  them. Such a text begins and ends like a literal and is none.

`classifyBlock_eq_object_iff` puts them together: a block that is not empty
is an object exactly when there is no semicolon at the top and the text
before the first colon at the top is a key or joins two literals. A choice
between two strings is taken for an object in this way
(`classifyBlock_choice`).
-/

namespace BindingMarkup.Token

open Text

-- ---------------------------------------------------------------------------
-- Outside of strings and brackets
-- ---------------------------------------------------------------------------

/-- A text that starts inside so many brackets and behind which one stands outside of
all strings and brackets. A closing bracket without an opening one is passed over. -/
inductive Surfaces : Nat → List Char → Prop where
  | nil : Surfaces 0 []
  | string {depth : Nat} {mark : Char} {quoted rest : List Char} (hMark : isQuote mark = true)
      (hQuoted : StringEnd mark quoted) (hRest : Surfaces depth rest) :
      Surfaces depth (mark :: (quoted ++ rest))
  | opening {depth : Nat} {c : Char} {rest : List Char} (hOpening : isOpening c = true)
      (hRest : Surfaces (depth + 1) rest) : Surfaces depth (c :: rest)
  | closing {depth : Nat} {c : Char} {rest : List Char} (hClosing : isClosing c = true)
      (hRest : Surfaces (depth - 1) rest) : Surfaces depth (c :: rest)
  | plain {depth : Nat} {c : Char} {rest : List Char} (hQuote : isQuote c = false)
      (hOpening : isOpening c = false) (hClosing : isClosing c = false)
      (hRest : Surfaces depth rest) : Surfaces depth (c :: rest)

/-- Where a scan stands behind a text: with respect to strings, and in how many
brackets. -/
def standing : Quote → Nat → List Char → Quote × Nat
  | quote, depth, [] => (quote, depth)
  | quote, depth, c :: rest => standing (quote.next c) (quote.depth depth c) rest

/-- Where a scan stands behind two texts. -/
theorem standing_append (quote : Quote) (depth : Nat) (front back : List Char) :
    standing quote depth (front ++ back) =
      standing (standing quote depth front).1 (standing quote depth front).2 back := by
  induction front generalizing quote depth with
  | nil => rfl
  | cons c front ih => exact ih (quote.next c) (quote.depth depth c)

/-- A string is passed over up to its closing mark. -/
theorem standing_string {mark : Char} {quoted : List Char} (h : StringEnd mark quoted)
    (hMark : mark ≠ '\\') (depth : Nat) (rest : List Char) :
    standing (.inside mark) depth (quoted ++ rest) = standing .outside depth rest := by
  induction h with
  | close => simp [standing, Quote.next, Quote.depth, hMark]
  | escape _ ih => simpa [standing, Quote.next, Quote.depth] using ih
  | plain hOther hEscape _ ih =>
    simpa [standing, Quote.next, Quote.depth, hOther, hEscape] using ih

/-- A text that surfaces leaves a scan outside of strings and brackets. -/
theorem standing_of_surfaces {depth : Nat} {cs : List Char} (h : Surfaces depth cs) :
    standing .outside depth cs = (.outside, 0) := by
  induction h with
  | nil => rfl
  | @string depth mark quoted rest hMark hQuoted _ ih =>
    have hString := standing_string hQuoted (ne_of_class hMark (by decide)) depth rest
    rw [← ih, ← hString]
    simp [standing, Quote.next, Quote.depth, bracketDepth_eq, hMark, isQuote_cases hMark]
  | opening hOpening _ ih =>
    simpa [standing, Quote.next, Quote.depth, bracketDepth_eq, hOpening, isOpening_cases hOpening]
      using ih
  | closing hClosing _ ih =>
    simpa [standing, Quote.next, Quote.depth, bracketDepth_eq, hClosing, isClosing_cases hClosing]
      using ih
  | plain hQuote hOpening hClosing _ ih =>
    simpa [standing, Quote.next, Quote.depth, bracketDepth_eq, hQuote, hOpening, hClosing] using ih

/-- A scan that comes out of a string has passed its closing mark. -/
theorem exists_stringEnd {mark : Char} {depth : Nat} {cs : List Char} :
    (standing (.inside mark) depth cs = (.outside, 0) →
      ∃ quoted rest, cs = quoted ++ rest ∧ StringEnd mark quoted ∧
        standing .outside depth rest = (.outside, 0)) ∧
    (standing (.escaped mark) depth cs = (.outside, 0) →
      ∃ c quoted rest, cs = c :: (quoted ++ rest) ∧ StringEnd mark quoted ∧
        standing .outside depth rest = (.outside, 0)) := by
  induction cs with
  | nil => simp [standing]
  | cons c cs ih =>
    refine ⟨fun h => ?_, fun h => ?_⟩
    · by_cases hEscape : c = '\\'
      · subst hEscape
        obtain ⟨d, quoted, rest, rfl, hQuoted, hRest⟩ := ih.2 h
        exact ⟨_, rest, rfl, .escape hQuoted, hRest⟩
      by_cases hMark : c = mark
      · subst hMark
        exact ⟨[c], cs, rfl, .close, by simpa [standing, Quote.next, Quote.depth, hEscape] using h⟩
      · have hNext : standing (.inside mark) depth cs = (.outside, 0) := by
          simpa [standing, Quote.next, Quote.depth, hEscape, hMark] using h
        obtain ⟨quoted, rest, rfl, hQuoted, hRest⟩ := ih.1 hNext
        exact ⟨_, rest, rfl, .plain hMark hEscape hQuoted, hRest⟩
    · obtain ⟨quoted, rest, rfl, hQuoted, hRest⟩ := ih.1 h
      exact ⟨c, quoted, rest, rfl, hQuoted, hRest⟩

/-- A text behind which a scan stands outside of strings and brackets surfaces. The
induction is on the length, because a string is taken as a whole. -/
theorem surfaces_of_standing {depth : Nat} {cs : List Char}
    (h : standing .outside depth cs = (.outside, 0)) : Surfaces depth cs := by
  induction hLength : cs.length using Nat.strong_induction_on generalizing depth cs with
  | _ n ih =>
  cases cs with
  | nil =>
    obtain rfl : depth = 0 := by simpa [standing] using h
    exact .nil
  | cons c cs =>
    have hShorter : cs.length < n := by
      rw [← hLength, List.length_cons]
      omega
    simp only [standing, Quote.next, Quote.depth, bracketDepth_eq] at h
    cases hQuote : isQuote c with
    | true =>
      simp only [hQuote, if_true, isQuote_cases hQuote, Bool.false_eq_true, if_false] at h
      -- the string must end, or the scan would still be in it
      obtain ⟨quoted, rest, rfl, hQuoted, hRest⟩ := exists_stringEnd.1 h
      refine .string hQuote hQuoted (ih _ ?_ hRest rfl)
      rw [List.length_append] at hShorter
      omega
    | false =>
      simp only [hQuote, Bool.false_eq_true, if_false] at h
      cases hOpening : isOpening c with
      | true => exact .opening hOpening (ih _ hShorter (by simpa [hOpening] using h) rfl)
      | false =>
        cases hClosing : isClosing c with
        | true =>
          exact .closing hClosing (ih _ hShorter (by simpa [hOpening, hClosing] using h) rfl)
        | false =>
          exact .plain hQuote hOpening hClosing
            (ih _ hShorter (by simpa [hOpening, hClosing] using h) rfl)

/-- **The scan follows the grammar.** -/
theorem surfaces_iff {depth : Nat} {cs : List Char} :
    Surfaces depth cs ↔ standing .outside depth cs = (.outside, 0) :=
  ⟨standing_of_surfaces, surfaces_of_standing⟩

-- ---------------------------------------------------------------------------
-- The first mark at the top
-- ---------------------------------------------------------------------------

/-- The mark stands somewhere outside of strings and brackets. -/
def HasTop (mark : Char) (cs : List Char) : Prop :=
  ∃ front back, cs = front ++ mark :: back ∧ Surfaces 0 front

/-- The text before the first mark outside of strings and brackets. -/
def FirstTop (mark : Char) (cs front : List Char) : Prop :=
  (∃ back, cs = front ++ mark :: back) ∧ Surfaces 0 front ∧
    ∀ a b, front = a ++ mark :: b → ¬Surfaces 0 a

section Search

variable {mark c : Char} {quote : Quote} {depth : Nat} {cs front : List Char}

/-- The mark stands behind `front`, and a scan of `front` ends outside of strings and
brackets. -/
def AtTop (mark : Char) (quote : Quote) (depth : Nat) (cs front : List Char) : Prop :=
  (∃ back, cs = front ++ mark :: back) ∧ standing quote depth front = (.outside, 0)

/-- A mark at the top is the first character, or it is at the top of the rest. -/
theorem atTop_cons :
    AtTop mark quote depth (c :: cs) front ↔
      (front = [] ∧ quote = .outside ∧ depth = 0 ∧ c = mark) ∨
        ∃ more, front = c :: more ∧
          AtTop mark (quote.next c) (quote.depth depth c) cs more := by
  cases front with
  | nil => simp [AtTop, standing, and_comm, and_left_comm]
  | cons d more =>
    constructor
    · rintro ⟨⟨back, hSplit⟩, hTop⟩
      obtain ⟨rfl, hRest⟩ := List.cons.inj hSplit
      exact .inr ⟨more, rfl, ⟨back, hRest⟩, hTop⟩
    · rintro (⟨hNil, -⟩ | ⟨_, hMore, ⟨back, rfl⟩, hTop⟩)
      · exact absurd hNil (by simp)
      · obtain ⟨rfl, rfl⟩ := List.cons.inj hMore
        exact ⟨⟨back, rfl⟩, hTop⟩

/-- Nothing is found where the mark does not stand at the top. -/
theorem beforeTop?_eq_none_iff :
    beforeTop? mark quote depth cs = none ↔ ∀ front, ¬AtTop mark quote depth cs front := by
  induction cs generalizing quote depth with
  | nil => simp [beforeTop?, AtTop]
  | cons c cs ih =>
    rw [beforeTop?]
    split
    · next hHere =>
      exact iff_of_false (by simp) fun hNone => hNone [] (atTop_cons.mpr (.inl ⟨rfl, hHere⟩))
    · next hOther =>
      rw [Option.map_eq_none_iff, ih]
      constructor
      · intro hNone front hTop
        obtain ⟨-, hHere⟩ | ⟨more, rfl, hMore⟩ := atTop_cons.mp hTop
        · exact hOther hHere
        · exact hNone more hMore
      · intro hNone front hTop
        exact hNone (c :: front) (atTop_cons.mpr (.inr ⟨front, rfl, hTop⟩))

/-- What is found stands before the first mark at the top. -/
theorem beforeTop?_eq_some_iff :
    beforeTop? mark quote depth cs = some front ↔
      AtTop mark quote depth cs front ∧ ∀ earlier, ¬AtTop mark quote depth front earlier := by
  induction cs generalizing quote depth front with
  | nil => simp [beforeTop?, AtTop]
  | cons c cs ih =>
    rw [beforeTop?]
    split
    · next hHere =>
      constructor
      · rintro ⟨⟩
        exact ⟨atTop_cons.mpr (.inl ⟨rfl, hHere⟩), by simp [AtTop]⟩
      · rintro ⟨hTop, hFirst⟩
        obtain ⟨rfl, -⟩ | ⟨more, rfl, -⟩ := atTop_cons.mp hTop
        · rfl
        · exact absurd (atTop_cons.mpr (.inl ⟨rfl, hHere⟩)) (hFirst [])
    · next hOther =>
      rw [Option.map_eq_some_iff]
      constructor
      · rintro ⟨more, hMore, rfl⟩
        obtain ⟨hTop, hFirst⟩ := ih.mp hMore
        refine ⟨atTop_cons.mpr (.inr ⟨more, rfl, hTop⟩), fun earlier hEarlier => ?_⟩
        obtain ⟨-, hHere⟩ | ⟨a, rfl, ha⟩ := atTop_cons.mp hEarlier
        · exact hOther hHere
        · exact hFirst a ha
      · rintro ⟨hTop, hFirst⟩
        obtain ⟨-, hHere⟩ | ⟨more, rfl, hMore⟩ := atTop_cons.mp hTop
        · exact absurd hHere hOther
        · refine ⟨more, ih.mpr ⟨hMore, fun a ha => ?_⟩, rfl⟩
          exact hFirst (c :: a) (atTop_cons.mpr (.inr ⟨a, rfl, ha⟩))

/-- **The search finds the first mark at the top.** -/
theorem firstTop_iff : FirstTop mark cs front ↔ beforeTop? mark .outside 0 cs = some front := by
  rw [beforeTop?_eq_some_iff]
  simp [FirstTop, AtTop, surfaces_iff, and_assoc]

/-- A mark stands at the top if the search finds one. -/
theorem hasTop_iff : HasTop mark cs ↔ (beforeTop? mark .outside 0 cs).isSome = true := by
  rw [Option.isSome_iff_ne_none, ne_eq, beforeTop?_eq_none_iff]
  simp [HasTop, AtTop, surfaces_iff]

end Search

-- ---------------------------------------------------------------------------
-- Blanks around a key
-- ---------------------------------------------------------------------------

/-- A scan is only ever in strings that one of the three marks opened. -/
theorem marked_standing {quote : Quote} (h : Marked quote) (depth : Nat) (cs : List Char) :
    Marked (standing quote depth cs).1 := by
  induction cs generalizing quote depth with
  | nil => exact h
  | cons c cs ih => exact ih (h.next c) (quote.depth depth c)

/-- Blanks leave a scan where it is. -/
theorem standing_blanks {blanks : List Char} (hBlanks : ∀ c ∈ blanks, isBlank c = true)
    (depth : Nat) : standing .outside depth blanks = (.outside, depth) := by
  induction blanks with
  | nil => rfl
  | cons c blanks ih =>
    have hc : isBlank c = true := hBlanks c List.mem_cons_self
    have hQuote : Marked .outside := trivial
    rw [standing, next_of_isBlank hQuote hc, depth_of_isBlank .outside depth hc]
    exact ih fun d hd => hBlanks d (List.mem_cons_of_mem c hd)

/-- Blanks do not lead out of strings and brackets. -/
theorem eq_of_standing_blanks {quote : Quote} (h : Marked quote) {depth : Nat}
    {blanks : List Char} (hBlanks : ∀ c ∈ blanks, isBlank c = true)
    (hTop : standing quote depth blanks = (.outside, 0)) : quote = .outside ∧ depth = 0 := by
  induction blanks generalizing quote with
  | nil => exact Prod.mk.inj hTop
  | cons c blanks ih =>
    have hc : isBlank c = true := hBlanks c List.mem_cons_self
    rw [standing, next_of_isBlank h hc, depth_of_isBlank quote depth hc] at hTop
    obtain ⟨hSettle, hDepth⟩ := ih h.settle (fun d hd => hBlanks d (List.mem_cons_of_mem c hd)) hTop
    refine ⟨?_, hDepth⟩
    cases quote with
    | outside => rfl
    | inside mark => exact absurd hSettle (by simp [settle])
    | escaped mark => exact absurd hSettle (by simp [settle])

/-- A trimmed text stands where the text stands. -/
theorem surfaces_trim {cs : List Char} (h : Surfaces 0 cs) : Surfaces 0 (trim cs) := by
  have hSplit : cs = cs.takeWhile isBlank ++ trimStart cs :=
    List.takeWhile_append_dropWhile.symm
  obtain ⟨blanks, hEnd, hBlanks⟩ := exists_trimEnd_append (trimStart cs)
  rw [surfaces_iff, hSplit, standing_append,
    standing_blanks (fun c hc => List.mem_takeWhile_imp hc), hEnd, standing_append] at h
  have hQuote : Marked .outside := trivial
  obtain ⟨hOutside, hDepth⟩ := eq_of_standing_blanks (marked_standing hQuote 0 _) hBlanks h
  exact surfaces_iff.mpr (Prod.ext hOutside hDepth)

-- ---------------------------------------------------------------------------
-- Keys
-- ---------------------------------------------------------------------------

/-- The marks of the strings that may be keys. -/
def IsKeyMark (mark : Char) : Prop :=
  mark = '"' ∨ mark = '\x27'

def IsName (cs : List Char) : Prop :=
  cs ≠ [] ∧ ∀ c ∈ cs, isNameChar c = true

/-- A single string literal: its mark, characters among which the mark and the backslash
are escaped, and the mark again. -/
def IsLiteral (cs : List Char) : Prop :=
  ∃ mark quoted, IsKeyMark mark ∧ StringEnd mark quoted ∧ cs = mark :: quoted

/-- What the key of an entry should be. -/
def IsEntryKey (cs : List Char) : Prop :=
  IsName cs ∨ IsLiteral cs

/-- Two string literals with the same mark, and anything between them. -/
def JoinsLiterals (cs : List Char) : Prop :=
  ∃ mark first middle last, IsKeyMark mark ∧ StringEnd mark first ∧ StringEnd mark last ∧
    cs = mark :: (first ++ (middle ++ mark :: last))

theorem IsKeyMark.isQuote {mark : Char} (h : IsKeyMark mark) : isQuote mark = true := by
  rcases h with rfl | rfl <;> decide

theorem ne_nil_of_stringEnd {mark : Char} {quoted : List Char} (h : StringEnd mark quoted) :
    quoted ≠ [] := by
  cases h <;> simp

/-- A string has one end only. -/
theorem eq_nil_of_stringEnd {mark : Char} (hMark : mark ≠ '\\') {quoted more : List Char}
    (h : StringEnd mark quoted) (hMore : StringEnd mark (quoted ++ more)) : more = [] := by
  induction h with
  | close =>
    cases hMore with
    | close => rfl
    | escape _ => exact absurd rfl hMark
    | plain hOther _ _ => exact absurd rfl hOther
  | escape _ ih =>
    cases hMore with
    | escape hRest => exact ih hRest
    | plain _ hEscape _ => exact absurd rfl hEscape
  | @plain c rest hOther hEscape hRest ih =>
    rw [List.cons_append] at hMore
    generalize rest ++ more = tail at hMore ih
    cases hMore with
    | close => exact absurd rfl hOther
    | escape _ => exact absurd rfl hEscape
    | plain _ _ hTail => exact ih hTail

/-- Two literals side by side are no key. -/
theorem not_isEntryKey_of_joinsLiterals {cs : List Char} (h : JoinsLiterals cs) :
    ¬IsEntryKey cs := by
  obtain ⟨mark, first, middle, last, hMark, hFirst, hLast, rfl⟩ := h
  rintro (hName | ⟨mark', quoted, -, hQuoted, hEq⟩)
  · have hSpecial : mark ∈ specials := by rcases hMark with rfl | rfl <;> decide
    have hWord : isWordChar mark = true := by
      rw [isWordChar, hName.2 mark List.mem_cons_self, Bool.true_or]
    exact not_mem_specials hWord hSpecial
  · obtain ⟨rfl, rfl⟩ := List.cons.inj hEq
    have hNil := eq_nil_of_stringEnd (ne_of_class hMark.isQuote (by decide)) hFirst hQuoted
    exact absurd hNil (by simp)

/-- A mark at the end of a text, outside of strings and brackets, closes a string. -/
theorem exists_last_literal {depth : Nat} {cs : List Char} (h : Surfaces depth cs) {mark : Char}
    (hMark : isQuote mark = true) (hLast : cs.getLast? = some mark) :
    ∃ middle last, cs = middle ++ mark :: last ∧ StringEnd mark last := by
  have hLater {c : Char} {rest : List Char} (hc : isQuote c = false)
      (hEnd : (c :: rest).getLast? = some mark) : rest.getLast? = some mark := by
    cases rest with
    | nil =>
      obtain rfl : c = mark := by simpa using hEnd
      rw [hMark] at hc
      exact absurd hc (by simp)
    | cons d rest => rwa [List.getLast?_cons_cons] at hEnd
  -- any other character only makes the text before the last string longer
  have hStep {c : Char} {rest : List Char} (hc : isQuote c = false)
      (hEnd : (c :: rest).getLast? = some mark)
      (ih : rest.getLast? = some mark →
        ∃ middle last, rest = middle ++ mark :: last ∧ StringEnd mark last) :
      ∃ middle last, c :: rest = middle ++ mark :: last ∧ StringEnd mark last := by
    obtain ⟨middle, last, rfl, hString⟩ := ih (hLater hc hEnd)
    exact ⟨c :: middle, last, rfl, hString⟩
  induction h with
  | nil => exact absurd hLast (by simp)
  | @string depth other quoted rest hOther hQuoted _ ih =>
    by_cases hNil : rest = []
    · subst hNil
      rw [List.append_nil, List.getLast?_cons_of_ne_nil (ne_nil_of_stringEnd hQuoted),
        getLast?_of_stringEnd hQuoted] at hLast
      obtain rfl := Option.some.inj hLast
      exact ⟨[], quoted, by simp, hQuoted⟩
    · rw [List.getLast?_cons_of_ne_nil (by simp [hNil]), List.getLast?_append_of_ne_nil _ hNil]
        at hLast
      obtain ⟨middle, last, rfl, hString⟩ := ih hLast
      exact ⟨other :: (quoted ++ middle), last, by simp, hString⟩
  | opening hOpening _ ih => exact hStep (isOpening_cases hOpening) hLast ih
  | closing hClosing _ ih => exact hStep (isClosing_cases hClosing).1 hLast ih
  | plain hQuote _ _ _ ih => exact hStep hQuote hLast ih

/-- A mark at the front of a text opens a string that closes. -/
theorem exists_first_literal {depth : Nat} {mark : Char} {rest : List Char}
    (h : Surfaces depth (mark :: rest)) (hMark : isQuote mark = true) :
    ∃ first tail, rest = first ++ tail ∧ StringEnd mark first ∧ Surfaces depth tail := by
  cases h with
  | string _ hFirst hTail => exact ⟨_, _, rfl, hFirst, hTail⟩
  | opening hOpening _ => exact absurd hMark (by simp [isOpening_cases hOpening])
  | closing hClosing _ => exact absurd hMark (by simp [isClosing_cases hClosing])
  | plain hQuote _ _ _ => exact absurd hMark (by simp [hQuote])

/-- A text with a literal at its end and the mark of this literal in front is taken for a
quoted text. -/
theorem isQuoted_of_stringEnd {mark : Char} {rest last : List Char} (hMark : IsKeyMark mark)
    (hLast : StringEnd mark last) (hRest : last <:+ rest) : isQuoted (mark :: rest) = true := by
  have hNil : rest ≠ [] := fun hEmpty =>
    ne_nil_of_stringEnd hLast (List.suffix_nil.mp (hEmpty ▸ hRest))
  obtain ⟨front, rfl⟩ := hRest
  refine isQuoted_eq_true_iff.mpr ⟨mark, hMark, rfl, ?_, by simpa [stripFront] using hNil⟩
  rw [List.getLast?_cons_of_ne_nil hNil,
    List.getLast?_append_of_ne_nil _ (ne_nil_of_stringEnd hLast), getLast?_of_stringEnd hLast]

/-- What begins and ends with the same mark is one literal, or begins with one literal and
ends with another. -/
theorem isQuoted_iff {cs : List Char} (h : Surfaces 0 cs) :
    isQuoted cs = true ↔ IsLiteral cs ∨ JoinsLiterals cs := by
  constructor
  · intro hQuoted
    obtain ⟨mark, hMark, hHead, hLast, -⟩ := isQuoted_eq_true_iff.mp hQuoted
    have hKeyMark : IsKeyMark mark := hMark
    obtain ⟨rest, rfl⟩ := List.head?_eq_some_iff.mp hHead
    obtain ⟨first, tail, rfl, hFirst, hTail⟩ := exists_first_literal h hKeyMark.isQuote
    by_cases hEnd : tail = []
    · subst hEnd
      exact .inl ⟨mark, first, hMark, hFirst, by simp⟩
    · rw [List.getLast?_cons_of_ne_nil (by simp [hEnd]), List.getLast?_append_of_ne_nil _ hEnd]
        at hLast
      obtain ⟨middle, last, rfl, hString⟩ := exists_last_literal hTail hKeyMark.isQuote hLast
      exact .inr ⟨mark, first, middle, last, hMark, hFirst, hString, rfl⟩
  · rintro (⟨mark, quoted, hMark, hQuoted, rfl⟩ |
      ⟨mark, first, middle, last, hMark, hFirst, hLast, rfl⟩)
    · exact isQuoted_of_stringEnd hMark hQuoted List.suffix_rfl
    · exact isQuoted_of_stringEnd hMark hLast ⟨first ++ (middle ++ [mark]), by simp⟩

/-- **What is taken for a key.** A text that stands outside of strings and brackets is a
key, or it begins with one literal and ends with another. -/
theorem isObjectKey_iff {cs : List Char} (h : Surfaces 0 cs) :
    isObjectKey cs = true ↔ IsEntryKey cs ∨ JoinsLiterals cs := by
  have hName : (!cs.isEmpty && cs.all isNameChar) = true ↔ IsName cs := by
    simp [IsName, List.all_eq_true]
  rw [isObjectKey, Bool.or_eq_true, hName, isQuoted_iff h, IsEntryKey]
  tauto

-- ---------------------------------------------------------------------------
-- Objects
-- ---------------------------------------------------------------------------

/-- The text before the first colon at the top, without blanks around it, satisfies the
condition. -/
def HasKey (P : List Char → Prop) (body : List Char) : Prop :=
  ∃ key, FirstTop ':' body key ∧ P (trim key)

/-- The key is what stands before the first colon at the top. -/
theorem hasKey_iff {P : List Char → Prop} {body : List Char} :
    HasKey P body ↔ ∃ key, beforeTop? ':' .outside 0 body = some key ∧ P (trim key) := by
  simp only [HasKey, firstTop_iff]

/-- The text before the first colon is a key or joins literals, and not both. -/
theorem not_hasKey_of_joinsLiterals {body : List Char} (h : HasKey JoinsLiterals body) :
    ¬HasKey IsEntryKey body := by
  obtain ⟨key, hKey, hJoins⟩ := hasKey_iff.mp h
  rw [hasKey_iff]
  rintro ⟨key', hKey', hEntry⟩
  obtain rfl := Option.some.inj (hKey.symm.trans hKey')
  exact not_isEntryKey_of_joinsLiterals hJoins hEntry

/-- **Which blocks are objects.** A block is an object exactly when it is empty, or when
it has no semicolon at the top and the text before its first colon at the top is a name,
a string literal, or begins and ends with a literal of the same mark. The last is no key,
and no block has both. -/
theorem classifyBlock_eq_object_iff (raw : List Char) :
    (classifyBlock raw = .object ↔
      trim (stripBraces raw) = [] ∨
        ¬HasTop ';' (trim (stripBraces raw)) ∧
          (HasKey IsEntryKey (trim (stripBraces raw)) ∨
            HasKey JoinsLiterals (trim (stripBraces raw)))) ∧
      ¬(HasKey IsEntryKey (trim (stripBraces raw)) ∧
        HasKey JoinsLiterals (trim (stripBraces raw))) := by
  refine ⟨?_, fun hBoth => not_hasKey_of_joinsLiterals hBoth.2 hBoth.1⟩
  unfold classifyBlock
  generalize trim (stripBraces raw) = body
  rw [hasTop_iff, hasKey_iff, hasKey_iff]
  by_cases hNil : body = []
  · simp [hNil]
  cases hSemicolon : beforeTop? ';' .outside 0 body with
  | some front => simp [hNil, hSemicolon]
  | none =>
    cases hColon : beforeTop? ':' .outside 0 body with
    | none => simp [hNil, hSemicolon, hColon]
    | some key =>
      have hSurface : Surfaces 0 (trim key) := surfaces_trim (firstTop_iff.mpr hColon).2.1
      simp [hNil, hSemicolon, hColon, ← isObjectKey_iff hSurface]

/-- A choice between two strings, as the body of a handler. -/
def choiceBlock : List Char :=
  "\x7b \"a\" == x ? \"b\" : c \x7d".toList

/-- The choice is taken for an object, although no key stands before its colon. -/
theorem classifyBlock_choice :
    trim (stripBraces choiceBlock) ≠ [] ∧ classifyBlock choiceBlock = .object ∧
      ¬HasKey IsEntryKey (trim (stripBraces choiceBlock)) := by
  have hKey : beforeTop? ':' .outside 0 (trim (stripBraces choiceBlock)) =
      some "\"a\" == x ? \"b\" ".toList := by
    decide +kernel
  have hTrim : trim "\"a\" == x ? \"b\" ".toList =
      '"' :: (['a', '"'] ++ (" == x ? ".toList ++ '"' :: ['b', '"'])) := by
    decide +kernel
  have hString (c : Char) (hc : c = 'a' ∨ c = 'b') : StringEnd '"' [c, '"'] := by
    refine .plain ?_ ?_ .close <;> rcases hc with rfl | rfl <;> decide
  refine ⟨by decide +kernel, by decide +kernel, not_hasKey_of_joinsLiterals ?_⟩
  exact hasKey_iff.mpr ⟨_, hKey, '"', _, _, _, .inl rfl, hString 'a' (.inl rfl),
    hString 'b' (.inr rfl), hTrim⟩

end BindingMarkup.Token
