import BindingMarkup.Proofs.KeyHover
import BindingMarkup.Proofs.Reach

/-!
# BindingMarkup — what the editor says about an entry

Whether an entry is a property or a delegate is decided twice. The reader
takes a capitalised word for a type when its statement ends right behind
it, at a comment, a semicolon, a brace or the end of the line. The editor
looks at the line by itself: it drops blanks and then semicolons from the
end and asks whether a type name is left. The two agree unless something
else stands behind the name.

* `exists_readFrom` — every entry of an outline was read from three tokens of
  the text.
* `isBare_iff` — what the editor compares: the line behind the colon is the
  type name with semicolons and then blanks at its end (`IsBare`).
* `disguised_of_not_bareWordAhead` — the reader takes such a value for a
  type, unless it ends with a blank that the reader does not pass over
  (`Disguised`).
* `hoverAt_entry` — what is said about an entry on its own line (`Told`).
-/

namespace BindingMarkup

open Text

-- ---------------------------------------------------------------------------
-- Entries and their tokens
-- ---------------------------------------------------------------------------

def Entry.name : Entry → String
  | .id _ => "id"
  | .property p => p.name
  | .delegate d => d.name

/-- The entry was read from three tokens of a text. -/
structure Entry.ReadFrom (text : String) (entry : Entry) (key colon value : Token) : Prop where
  tokens : [key, colon, value] <:+: Token.tokenize text
  derives : entry.Derives [key, colon, value]

/-- Every entry of an outline was read from tokens of the text. -/
theorem Outline.exists_readFrom {text : String} {outline : Outline}
    (hParse : Outline.parse text = .ok outline) {entry : Entry} (hEntry : entry ∈ outline.entries) :
    ∃ key colon value, entry.ReadFrom text key colon value := by
  obtain ⟨key, colon, value, hTokens, hMade⟩ := Outline.exists_tokens_of_build hParse hEntry
  exact ⟨key, colon, value, hTokens, hMade⟩

-- ---------------------------------------------------------------------------
-- A type name with nothing behind it
-- ---------------------------------------------------------------------------

/-- A text is a type name, with semicolons and then blanks at its end. -/
def IsBare (target rest : List Char) : Prop :=
  ∃ semicolons blanks, rest = target ++ (semicolons ++ blanks) ∧
    (∀ c ∈ semicolons, c = ';') ∧ ∀ c ∈ blanks, isBlank c = true

/-- A text is a type name and blanks, and among them is one that the reader does not pass
over in its look ahead, such as a form feed. -/
def Disguised (target rest : List Char) : Prop :=
  isTypeName target = true ∧ ∃ blanks, rest = target ++ blanks ∧
    (∀ c ∈ blanks, isBlank c = true) ∧ ∃ c ∈ blanks, isMargin c = false

/-- A disguised name is bare for the editor. -/
theorem Disguised.isBare {target rest : List Char} (h : Disguised target rest) :
    IsBare target rest := by
  obtain ⟨-, blanks, hRest, hBlanks, -⟩ := h
  exact ⟨[], blanks, by rw [hRest, List.nil_append], by simp, hBlanks⟩

theorem isElementChar_of_mem_typeName {target : List Char} (h : isTypeName target = true) :
    ∀ c ∈ target, Token.isElementChar c = true :=
  List.all_eq_true.mp (Bool.and_eq_true_iff.mp h).2

/-- The last character of a type name is neither a semicolon nor a blank. -/
theorem last_of_isTypeName {target : List Char} (h : isTypeName target = true) :
    ∀ c ∈ target.getLast?, isBlank c = false ∧ c ≠ ';' := by
  intro c hc
  have hWord := isWordChar_of_isElementChar
    (isElementChar_of_mem_typeName h c (List.mem_of_getLast? hc))
  refine ⟨isBlank_of_isWordChar hWord, ?_⟩
  rintro rfl
  exact absurd (not_mem_specials hWord) (by decide)

/-- **What the editor compares.** Without blanks and then semicolons at its end the text is
the type name. -/
theorem isBare_iff {target rest : List Char} (h : isTypeName target = true) :
    IsBare target rest ↔ (trimEnd rest).rdropWhile (· == ';') = target := by
  have hLast := last_of_isTypeName h
  constructor
  · rintro ⟨semicolons, blanks, rfl, hSemicolons, hBlanks⟩
    have hEnd : ∀ c ∈ (target ++ semicolons).getLast?, isBlank c = false := by
      intro c hc
      rcases List.eq_nil_or_concat' semicolons with rfl | ⟨front, last, rfl⟩
      · rw [List.append_nil] at hc
        exact (hLast c hc).1
      · rw [← List.append_assoc, List.getLast?_concat, Option.mem_some_iff] at hc
        rw [← hc, hSemicolons last (by simp)]
        decide
    -- the semicolons fall away, and the name does not end with one
    have hDrop : (target ++ semicolons).rdropWhile (· == ';') = target.rdropWhile (· == ';') := by
      unfold List.rdropWhile
      rw [List.reverse_append, List.dropWhile_append_of_pos fun c hc => by
        simpa using hSemicolons c (List.mem_reverse.mp hc)]
    rw [← List.append_assoc, trimEnd_append_of_blank hBlanks, trimEnd_eq_self hEnd, hDrop]
    refine List.rdropWhile_eq_self_iff.mpr fun hl => ?_
    simpa using (hLast _ (List.getLast_mem_getLast? hl)).2
  · intro hValue
    obtain ⟨blanks, hRest, hBlanks⟩ := exists_trimEnd_append rest
    have hParts : target ++ (trimEnd rest).rtakeWhile (· == ';') = trimEnd rest := by
      rw [← hValue, List.rdropWhile_append_rtakeWhile]
    refine ⟨(trimEnd rest).rtakeWhile (· == ';'), blanks, ?_, ?_, hBlanks⟩
    · rw [← List.append_assoc, hParts]
      exact hRest
    · intro c hc
      simpa using List.mem_rtakeWhile_imp hc

/-- Behind a bare type name the name does not go on. -/
theorem head?_behind {semicolons blanks back : List Char} (hSemicolons : ∀ c ∈ semicolons, c = ';')
    (hBlanks : ∀ c ∈ blanks, isBlank c = true) (hBack : ∀ c ∈ back.head?, c = '\n') :
    ∀ c ∈ (semicolons ++ (blanks ++ back)).head?, Token.isElementChar c = false := by
  intro c hc
  cases semicolons with
  | cons d more =>
    obtain rfl : d = c := Option.some.inj hc
    rw [hSemicolons d List.mem_cons_self]
    decide
  | nil =>
    cases blanks with
    | cons d more =>
      obtain rfl : d = c := Option.some.inj hc
      exact Token.isElementChar_of_isBlank (hBlanks d List.mem_cons_self)
    | nil =>
      rw [hBack c hc]
      decide

/-- A bare type name is as long as its characters go. -/
theorem span_of_isBare {target semicolons blanks back : List Char}
    (hTarget : isTypeName target = true) (hSemicolons : ∀ c ∈ semicolons, c = ';')
    (hBlanks : ∀ c ∈ blanks, isBlank c = true) (hBack : ∀ c ∈ back.head?, c = '\n') :
    (target ++ (semicolons ++ blanks) ++ back).takeWhile Token.isElementChar = target ∧
      (target ++ (semicolons ++ blanks) ++ back).dropWhile Token.isElementChar =
        semicolons ++ (blanks ++ back) := by
  have hChars := isElementChar_of_mem_typeName hTarget
  have hHead := head?_behind hSemicolons hBlanks hBack
  rw [List.append_assoc, List.append_assoc, List.takeWhile_append_of_pos hChars,
    List.dropWhile_append_of_pos hChars]
  cases hBehind : semicolons ++ (blanks ++ back) with
  | nil => exact ⟨List.append_nil target, rfl⟩
  | cons d more =>
    have hStop : ¬Token.isElementChar d = true := by
      rw [hHead d (by rw [hBehind]; rfl)]
      simp
    rw [List.takeWhile_cons_of_neg hStop, List.dropWhile_cons_of_neg hStop]
    exact ⟨List.append_nil target, rfl⟩

/-- **What the reader compares.** The reader takes a bare type name for a type, unless a
blank follows that it does not pass over. -/
theorem disguised_of_not_bareWordAhead {target rest back : List Char}
    (hTarget : isTypeName target = true) (h : IsBare target rest)
    (hBack : ∀ c ∈ back.head?, c = '\n')
    (hAhead : Token.bareWordAhead (rest ++ back) = false) : Disguised target rest := by
  obtain ⟨semicolons, blanks, rfl, hSemicolons, hBlanks⟩ := h
  rw [Token.bareWordAhead, (span_of_isBare hTarget hSemicolons hBlanks hBack).2] at hAhead
  cases semicolons with
  | cons d more =>
    rw [hSemicolons d List.mem_cons_self] at hAhead
    exact absurd hAhead (by simp [isMargin])
  | nil =>
    refine ⟨hTarget, blanks, rfl, hBlanks, ?_⟩
    by_contra hNone
    have hAll : ∀ c ∈ blanks, isMargin c = true := by
      intro c hc
      by_contra hOther
      exact hNone ⟨c, hc, by simpa using hOther⟩
    -- with blanks that the reader passes over the word would be the last of its statement
    rw [List.nil_append, List.dropWhile_append_of_pos hAll] at hAhead
    cases back with
    | nil => exact absurd hAhead (by simp)
    | cons d more =>
      rw [hBack d rfl] at hAhead
      exact absurd hAhead (by simp [isMargin])

namespace Token

/-- A capitalised word that was read as an expression does not end its statement. -/
theorem bareWordAhead_of_expression {state : State} {c : Char} {rest : List Char} {t : Token}
    {text : String} (hNoted : (step state c rest).event = some (.token t))
    (hKind : t.kind = .expression text) (hUpper : c.isUpper = true) :
    bareWordAhead (c :: rest) = false := by
  refine Bool.eq_false_iff.mpr fun hAhead => ?_
  have hWord := isWordChar_of_isElementChar (isElementChar_of_isUpper hUpper)
  rw [step_of_startsText (startsText_of_isWordChar hWord rest), if_pos (by simp [hUpper, hAhead]),
    stepElement_eq] at hNoted
  rw [kind_of_stepToken hNoted] at hKind
  exact absurd hKind (by simp)

end Token

end BindingMarkup

namespace BindingMarkup.Editor

open Text Token

-- ---------------------------------------------------------------------------
-- The line of an entry
-- ---------------------------------------------------------------------------

/-- The plain names: an ASCII letter that is no capital, or an underscore, and then ASCII
letters, digits and underscores. -/
def isPlainName (cs : List Char) : Bool :=
  cs.head?.any isKeyStart && cs.all fun c => c.isAlphanum || c == '_'

/-- The key and the value of an entry stand on a line of their own, in ASCII: an
indentation, the plain name of the entry, a colon, blanks, and the rest of the line, which
begins with the value. -/
structure EntryLine (text name : String) (key value : Token)
    (front margin gap rest back : List Char) : Prop where
  source : text.toList = front ++ (margin ++ (name.toList ++ ':' :: (gap ++ (rest ++ back))))
  starts_line : ∀ c ∈ front.getLast?, c = '\n'
  ends_line : ∀ c ∈ back.head?, c = '\n'
  no_break : '\n' ∉ margin ++ (gap ++ rest)
  ascii : Ascii (margin ++ (name.toList ++ (gap ++ rest)))
  plain : isPlainName name.toList = true
  margin_blank : ∀ c ∈ margin, isBlank c = true
  gap_blank : ∀ c ∈ gap, isBlank c = true
  key_at : ∃ previous, StandsAt text.toList previous key (front ++ margin).length
  value_at : ∃ previous,
    StandsAt text.toList previous value (front ++ (margin ++ (name.toList ++ ':' :: gap))).length

/-- What stands behind a line break is a line of its own. -/
theorem lastLine_append {front margin : List Char} (hFront : ∀ c ∈ front.getLast?, c = '\n')
    (hMargin : '\n' ∉ margin) : lastLine (front ++ margin) = margin := by
  rcases List.eq_nil_or_concat' front with rfl | ⟨earlier, last, rfl⟩
  · exact lastLine_of_not_mem hMargin
  · have hAll : ∀ c ∈ margin.reverse, (c != '\n') = true := fun c hc =>
      bne_iff_ne.mpr fun hEq => hMargin (hEq ▸ List.mem_reverse.mp hc)
    obtain rfl : last = '\n' := hFront last (by simp)
    unfold lastLine List.rtakeWhile
    rw [List.reverse_append, List.reverse_concat, List.takeWhile_append_of_pos hAll,
      List.takeWhile_cons_of_neg (by simp), List.append_nil, List.reverse_reverse]

/-- A text that begins with no blank keeps its front when blanks before it are trimmed. -/
theorem trim_append_of_solid {margin word : List Char} (hMargin : ∀ c ∈ margin, isBlank c = true)
    (hWord : ∀ c ∈ word.head?, isBlank c = false) : trim (margin ++ word) = trimEnd word := by
  rw [trim, trimStart, List.dropWhile_append_of_pos hMargin]
  cases word with
  | nil => rfl
  | cons c more => rw [List.dropWhile_cons_of_neg (by simp [hWord c rfl])]

/-- Blanks at the end of a text fall away. -/
theorem trim_append_of_blank {front blanks : List Char} (h : ∀ c ∈ blanks, isBlank c = true) :
    trim (front ++ blanks) = trim front := by
  unfold trim trimStart
  rw [List.dropWhile_append]
  split
  · next hNone => rw [List.isEmpty_iff.mp hNone, List.dropWhile_eq_nil_iff.mpr h]
  · exact trimEnd_append_of_blank h

/-- A plain name is a word for the editor. -/
theorem isWordChar_of_isPlainName {cs : List Char} (h : isPlainName cs = true) :
    ∀ c ∈ cs, isWordChar c = true := by
  intro c hc
  have hChar := List.all_eq_true.mp (Bool.and_eq_true_iff.mp h).2 c hc
  rcases Bool.or_eq_true_iff.mp hChar with hAlphanum | hUnderscore
  · rw [isWordChar, isAlphanumeric_of_isAlphanum hAlphanum, Bool.true_or]
  · rw [isWordChar, hUnderscore, Bool.or_true]

namespace EntryLine

variable {text name : String} {key value : Token} {front margin gap rest back : List Char}

/-- Behind the key, its colon and the gap, the text goes on with the value. -/
theorem drop_eq (h : EntryLine text name key value front margin gap rest back) :
    text.toList.drop (front ++ (margin ++ (name.toList ++ ':' :: gap))).length = rest ++ back := by
  have hParts : front ++ (margin ++ (name.toList ++ ':' :: (gap ++ (rest ++ back)))) =
      front ++ (margin ++ (name.toList ++ ':' :: gap)) ++ (rest ++ back) := by
    simp
  rw [h.source, hParts, List.drop_left]

/-- A name is not empty. -/
theorem exists_name (h : EntryLine text name key value front margin gap rest back) :
    ∃ c more, name.toList = c :: more ∧ isKeyStart c = true := by
  have hPlain := (Bool.and_eq_true_iff.mp h.plain).1
  cases hName : name.toList with
  | nil => exact absurd hPlain (by simp [hName])
  | cons c more =>
    rw [hName] at hPlain
    exact ⟨c, more, rfl, hPlain⟩

/-- The rest of the line begins with a character that is no blank. -/
theorem exists_rest (h : EntryLine text name key value front margin gap rest back) :
    ∃ c more, rest = c :: more ∧ isBlank c = false := by
  obtain ⟨previous, hAt⟩ := h.value_at
  obtain ⟨c, more, hDrop, hBlank⟩ := hAt.exists_drop_eq_cons
  rw [h.drop_eq] at hDrop
  cases hRest : rest with
  | nil =>
    rw [hRest, List.nil_append] at hDrop
    rw [h.ends_line c (by rw [hDrop]; rfl)] at hBlank
    exact absurd hBlank (by decide)
  | cons d more =>
    rw [hRest] at hDrop
    exact ⟨d, more, rfl, (List.cons.inj hDrop).1 ▸ hBlank⟩

/-- The line goes on from the colon to the end of the value. -/
theorem firstLine_eq (h : EntryLine text name key value front margin gap rest back) :
    firstLine (':' :: (gap ++ (rest ++ back))) = ':' :: (gap ++ rest) := by
  have hAll : ∀ c ∈ ':' :: (gap ++ rest), (c != '\n') = true := by
    intro c hc
    refine bne_iff_ne.mpr ?_
    rintro rfl
    rcases List.mem_cons.mp hc with hColon | hMem
    · exact absurd hColon (by decide)
    · exact h.no_break (List.mem_append_right _ hMem)
  have hNone : back.takeWhile (· != '\n') = [] := by
    cases hBack : back with
    | nil => rfl
    | cons d more =>
      rw [h.ends_line d (by rw [hBack]; rfl)]
      exact List.takeWhile_cons_of_neg (by simp)
  show (':' :: (gap ++ (rest ++ back))).takeWhile (· != '\n') = _
  rw [← List.append_assoc, ← List.cons_append, List.takeWhile_append_of_pos hAll, hNone,
    List.append_nil]

/-- The line as the editor sees it: blanks at its end may belong to the break. -/
theorem exists_line (h : EntryLine text name key value front margin gap rest back) :
    ∃ tail, (lines text.toList)[front.count '\n']? =
        some (margin ++ (name.toList ++ ':' :: tail)) ∧ trim tail = trimEnd rest := by
  have hWord := isWordChar_of_isPlainName h.plain
  have hMargin : '\n' ∉ margin := fun hMem => h.no_break (List.mem_append_left _ hMem)
  obtain ⟨first, others, hName, -⟩ := h.exists_name
  obtain ⟨behind, blanks, hLine, hFirst, hBlanks⟩ := getElem?_lines_word (front ++ margin)
    (by rw [hName]; simp) (fun c hc => isBlank_of_isWordChar (hWord c hc))
    (':' :: (gap ++ (rest ++ back)))
  rw [List.append_assoc, ← h.source, List.count_append, List.count_eq_zero_of_not_mem hMargin,
    Nat.add_zero, lastLine_append h.starts_line hMargin] at hLine
  rw [h.firstLine_eq] at hFirst
  cases behind with
  | nil =>
    -- the colon is none of the blanks that the line loses
    have hColon := hBlanks ':' (by rw [← List.nil_append blanks, ← hFirst]; simp)
    exact absurd hColon (by decide)
  | cons colon tail =>
    rw [List.cons_append, List.cons.injEq] at hFirst
    obtain ⟨rfl, hTail⟩ := hFirst
    obtain ⟨c, more, hRest, hSolid⟩ := h.exists_rest
    refine ⟨tail, hLine, ?_⟩
    calc trim tail = trim (tail ++ blanks) := (trim_append_of_blank hBlanks).symm
      _ = trim (gap ++ rest) := by rw [hTail]
      _ = trimEnd rest := trim_append_of_solid h.gap_blank (by rw [hRest]; simpa using hSolid)

/-- The word over the first character of the key is the key. -/
theorem wordAt_eq (h : EntryLine text name key value front margin gap rest back) :
    wordAt text ⟨front.count '\n', margin.length⟩ = .ok (some name) ∧
      name.toList.head?.any isUppercase = false := by
  obtain ⟨tail, hLine, -⟩ := h.exists_line
  have hMargin : Ascii margin := fun c hc => h.ascii c (List.mem_append_left _ hc)
  obtain ⟨c, more, hName, hStart⟩ := h.exists_name
  have hParts : margin ++ (name.toList ++ ':' :: tail) =
      margin ++ [] ++ (name.toList ++ ':' :: tail) := by
    rw [List.append_nil]
  rw [hParts] at hLine
  -- the word does not reach into the margin
  have hBefore : ∀ d ∈ margin.getLast?, isWordChar d = false := by
    intro d hd
    have hBlank := h.margin_blank d (List.mem_of_getLast? hd)
    refine Bool.eq_false_iff.mpr fun hWord => ?_
    rw [isBlank_of_isWordChar hWord] at hBlank
    exact absurd hBlank (by simp)
  have hAfter : ∀ d ∈ (':' :: tail).head?, isWordChar d = false := by
    intro d hd
    rw [← Option.some.inj hd]
    decide +kernel
  have hAt := AtWord.of_column hLine (by simp) (isWordChar_of_isPlainName h.plain) hBefore hAfter
  have hFound := hAt.wordAt_eq_some
    (fun d hd => utf8Size_of_ascii (hMargin d (List.mem_of_getLast? hd))) (by rw [hName]; simp)
  rw [List.append_nil, byteLength_of_ascii hMargin, List.nil_append, String.ofList_toList] at hFound
  refine ⟨hFound, ?_⟩
  rw [hName, List.head?_cons, Option.any_some,
    isUppercase_of_ascii (h.ascii c (by rw [hName]; simp))]
  exact (startsExpression_of_isKeyStart hStart).2.1

/-- The editor explains the entry by the rest of its line. -/
theorem hoverAt_eq (h : EntryLine text name key value front margin gap rest back) :
    hoverAt text ⟨front.count '\n', margin.length⟩ =
      .ok (some (
        if isTypeName ((trimEnd rest).rdropWhile (· == ';')) && name.toList != ['i', 'd'] then
          describeDelegate name (String.ofList ((trimEnd rest).rdropWhile (· == ';')))
        else describeKey name)) := by
  obtain ⟨hWord, hSmall⟩ := h.wordAt_eq
  obtain ⟨tail, hLine, hValue⟩ := h.exists_line
  have hChars := isWordChar_of_isPlainName h.plain
  have hSolid : ∀ c ∈ name.toList, isBlank c = false := fun c hc =>
    isBlank_of_isWordChar (hChars c hc)
  have hKey : trim (margin ++ name.toList) = name.toList := by
    rw [trim_append_of_solid h.margin_blank fun c hc => hSolid c (List.mem_of_mem_head? hc)]
    exact trimEnd_eq_self fun c hc => hSolid c (List.mem_of_getLast? hc)
  -- the colon behind the name is the first of the line
  have hColon : ':' ∉ margin ++ name.toList := by
    intro hMem
    rcases List.mem_append.mp hMem with hBlank | hName
    · exact absurd (h.margin_blank _ hBlank) (by decide)
    · exact absurd (hChars _ hName) (by decide +kernel)
  have hHere : lineAt? text ⟨front.count '\n', margin.length⟩ =
      some (margin ++ name.toList ++ ':' :: tail) := by
    rw [List.append_assoc]
    exact hLine
  rw [hoverAt, hWord]
  simp only [hSmall, hHere, Option.bind_some, Bool.false_eq_true, if_false]
  have hStarts : name.toList.isPrefixOf name.toList = true :=
    List.isPrefixOf_iff_prefix.mpr List.prefix_rfl
  unfold hoverEntry
  rw [splitAtFirst?_append hColon]
  simp only [hKey, hValue, hStarts, String.ofList_toList, Bool.not_true, Bool.false_eq_true,
    if_false]
  unfold List.rdropWhile
  split <;> rfl

/-- The reader found no type at the value of a property. -/
theorem bareWordAhead_eq_false (h : EntryLine text name key value front margin gap rest back)
    (hValue : value ∈ tokenize text) {script : String} (hKind : value.kind = .expression script)
    (hUpper : rest.head?.any Char.isUpper = true) : bareWordAhead (rest ++ back) = false := by
  obtain ⟨earlier, later, hTokens⟩ := List.append_of_mem hValue
  obtain ⟨before, state, c, more, hReached, hNoted, hHere⟩ := exists_reached hTokens
  obtain ⟨previous, hAt⟩ := h.value_at
  have hRest := h.drop_eq
  rw [hAt.unique hHere, hReached.source_eq, List.drop_left] at hRest
  obtain ⟨d, tail, hHead, -⟩ := h.exists_rest
  rw [hHead, List.cons_append] at hRest
  rw [hHead, List.head?_cons, Option.any_some, ← (List.cons.inj hRest).1] at hUpper
  rw [hHead, List.cons_append, ← hRest]
  exact bareWordAhead_of_expression hNoted hKind hUpper

/-- The type of a delegate is as long as the characters of its name go. -/
theorem target_eq (h : EntryLine text name key value front margin gap rest back)
    {target : String} (hKind : value.kind = .element target) :
    target.toList = (rest ++ back).takeWhile isElementChar := by
  obtain ⟨previous, hAt⟩ := h.value_at
  have hBegins := hAt.begins
  rw [hKind, h.drop_eq] at hBegins
  exact hBegins.2

end EntryLine

-- ---------------------------------------------------------------------------
-- What is said
-- ---------------------------------------------------------------------------

/-- In ASCII, the reader and the editor mean the same by the name of a type. -/
theorem isTypeName_of_ascii {cs : List Char} (h : Ascii cs) :
    isTypeName cs = BindingMarkup.isTypeName cs := by
  have hHead : cs.head?.any isUppercase = cs.head?.any Char.isUpper := by
    cases cs with
    | nil => rfl
    | cons c rest => exact isUppercase_of_ascii (h c List.mem_cons_self)
  have hChars : (cs.all fun c => isAlphanumeric c || c == '_' || c == '-') =
      cs.all Token.isElementChar := by
    rw [Bool.eq_iff_iff, List.all_eq_true, List.all_eq_true]
    refine forall₂_congr fun c hc => ?_
    rw [isAlphanumeric_of_ascii (h c hc)]
    rfl
  rw [isTypeName, BindingMarkup.isTypeName, hHead, hChars]

/-- What the editor says about an entry with the text `rest` behind its colon. -/
inductive Told (rest : List Char) : Entry → String → Prop where
  | id (name : String) : Told rest (.id name) (describeKey "id")
  | property {p : Property} (hValue : ∀ target, ¬Disguised target rest) :
      Told rest (.property p) (describeKey p.name)
  /-- A property whose value the editor takes for a type. -/
  | disguised {p : Property} {target : List Char} (hValue : Disguised target rest) :
      Told rest (.property p) (describeDelegate p.name (String.ofList target))
  | delegate {d : Delegate} (hBare : IsBare d.target.toList rest) :
      Told rest (.delegate d) (describeDelegate d.name d.target)
  /-- A delegate with more than blanks and semicolons behind its type: the editor takes it
  for a property. -/
  | covered {d : Delegate} (hMore : ¬IsBare d.target.toList rest) :
      Told rest (.delegate d) (describeKey d.name)

namespace EntryLine

variable {text name : String} {key value : Token} {front margin gap rest back : List Char}

/-- What the editor compares is a part of the line. -/
theorem ascii_value (h : EntryLine text name key value front margin gap rest back) :
    Ascii ((trimEnd rest).rdropWhile (· == ';')) := by
  intro c hc
  have hTrimmed : c ∈ trimEnd rest :=
    (List.rdropWhile_prefix (· == ';') (l := trimEnd rest)).subset hc
  have hRest : c ∈ rest := (trimEnd_isPrefix rest).subset hTrimmed
  exact h.ascii c (by simp [hRest])

/-- A property is explained as one, unless it is disguised. -/
theorem told_property {p : Property}
    (h : EntryLine text p.name key value front margin gap rest back)
    (hValue : value ∈ tokenize text) (hKind : value.kind = .expression p.value)
    (hName : p.name ≠ "id") :
    ∃ answer, hoverAt text ⟨front.count '\n', margin.length⟩ = .ok (some answer) ∧
      Told rest (.property p) answer := by
  refine ⟨_, h.hoverAt_eq, ?_⟩
  rw [isTypeName_of_ascii h.ascii_value]
  split
  · next hShown =>
    have hType := (Bool.and_eq_true_iff.mp hShown).1
    have hBare := (isBare_iff hType).mpr rfl
    -- the editor takes the value for a type, though the reader did not
    have hUpper : rest.head?.any Char.isUpper = true := by
      obtain ⟨c, more, hHead, hUpper⟩ := exists_upper_of_isTypeName hType
      obtain ⟨semicolons, blanks, hRest, -, -⟩ := hBare
      rw [hRest, hHead]
      exact hUpper
    exact .disguised (disguised_of_not_bareWordAhead hType hBare h.ends_line
      (h.bareWordAhead_eq_false hValue hKind hUpper))
  · next hShown =>
    refine .property fun target hDisguised => hShown ?_
    rw [(isBare_iff hDisguised.1).mp hDisguised.isBare, hDisguised.1, Bool.true_and]
    simpa [← String.toList_inj] using hName

/-- A delegate is explained as one exactly when its type is bare. -/
theorem told_delegate {d : Delegate}
    (h : EntryLine text d.name key value front margin gap rest back)
    (hValue : value ∈ tokenize text) (hKind : value.kind = .element d.target)
    (hName : d.name ≠ "id") :
    ∃ answer, hoverAt text ⟨front.count '\n', margin.length⟩ = .ok (some answer) ∧
      Told rest (.delegate d) answer := by
  have hTarget := (fitsFrom_tokenize text).isTypeName_of_mem hValue hKind
  refine ⟨_, h.hoverAt_eq, ?_⟩
  rw [isTypeName_of_ascii h.ascii_value]
  by_cases hBare : IsBare d.target.toList rest
  · rw [(isBare_iff hTarget).mp hBare, hTarget, Bool.true_and, String.ofList_toList,
      if_pos (by simpa [← String.toList_inj] using hName)]
    exact .delegate hBare
  · rw [if_neg]
    · exact .covered hBare
    · -- the editor would have found the type of the delegate
      intro hShown
      have hType := (Bool.and_eq_true_iff.mp hShown).1
      have hFound := (isBare_iff hType).mpr rfl
      have hLength := h.target_eq hKind
      obtain ⟨semicolons, blanks, hRest, hSemicolons, hBlanks⟩ := hFound
      rw [hRest, (span_of_isBare hType hSemicolons hBlanks h.ends_line).1] at hLength
      exact hBare ((isBare_iff hTarget).mpr hLength.symm)

/-- The editor tells an entry that was read from the tokens of its line. -/
theorem exists_told {entry : Entry} {colon : Token}
    (hRead : entry.ReadFrom text key colon value)
    (h : EntryLine text entry.name key value front margin gap rest back) :
    ∃ answer, hoverAt text ⟨front.count '\n', margin.length⟩ = .ok (some answer) ∧
      Told rest entry answer := by
  have hValue : value ∈ tokenize text := hRead.tokens.subset (by simp)
  cases hRead.derives with
  | mk hKey hDigit hColon hMade =>
  cases hMade with
  | id hName hKind hIdentifier =>
    refine ⟨_, h.hoverAt_eq, ?_⟩
    rw [if_neg (by simp [Entry.name])]
    exact .id _
  | property hName hKind => exact h.told_property hValue hKind hName
  | delegate hName hKind => exact h.told_delegate hValue hKind hName

end EntryLine

/-- **What the editor says about an entry.** Every property and every delegate of an outline
was read from a key, a colon and a value, and where these stand on a line of their own, the
editor explains the entry over the first character of its key as `Told` says. -/
theorem hoverAt_entry {text : String} {outline : Outline}
    (hParse : Outline.parse text = .ok outline) {entry : Entry}
    (hEntry : entry ∈ outline.entries) :
    (∃ key colon value, entry.ReadFrom text key colon value) ∧
      ∀ key colon value front margin gap rest back, entry.ReadFrom text key colon value →
        EntryLine text entry.name key value front margin gap rest back →
        ∃ answer, hoverAt text ⟨front.count '\n', margin.length⟩ = .ok (some answer) ∧
          Told rest entry answer := by
  refine ⟨Outline.exists_readFrom hParse hEntry, ?_⟩
  intro key colon value front margin gap rest back hRead hLine
  exact hLine.exists_told hRead

/-- A delegate on a line of its own. -/
def rowSource : String :=
  "A \x7b\n  cell: Row;\n\x7d\n"

def rowDelegate : Delegate where
  name := "cell"
  target := "Row"
  line := 2

def rowKey : Token where
  kind := .expression "cell"
  line := 2
  context := "cell: Row;"

def rowValue : Token where
  kind := .element "Row"
  line := 2
  context := "Row;"

theorem entryLine_row : EntryLine rowSource "cell" rowKey rowValue "A \x7b\n".toList "  ".toList
    " ".toList "Row;".toList "\n\x7d\n".toList where
  source := by decide +kernel
  starts_line := fun _ hc => (Option.some.inj hc).symm
  ends_line := fun _ hc => (Option.some.inj hc).symm
  no_break := by decide +kernel
  ascii := by decide +kernel
  plain := by decide +kernel
  margin_blank := List.all_eq_true.mp (by decide +kernel)
  gap_blank := List.all_eq_true.mp (by decide +kernel)
  key_at := ⟨none, by decide +kernel, by decide +kernel,
    fun _ hc => Option.some.inj hc ▸ (by decide +kernel),
    .inl ⟨by decide +kernel, by decide +kernel, by decide +kernel, by decide +kernel⟩⟩
  value_at := ⟨none, by decide +kernel, by decide +kernel,
    fun _ hc => Option.some.inj hc ▸ (by decide +kernel), by decide +kernel, by decide +kernel⟩

/-- A delegate with a semicolon behind it. -/
theorem hoverAt_entry_row :
    ∃ answer, hoverAt rowSource ⟨1, 2⟩ = .ok (some answer) ∧
      Told "Row;".toList (.delegate rowDelegate) answer := by
  have hParse : Outline.parse rowSource =
      .ok { nodes := #[{ Node.root with elements := [1] },
        { typeName := "A", role := .element, parent := some 0, delegates := [rowDelegate],
          line := 1 }] } := by
    decide +kernel
  have hTokens : [rowKey, { kind := .colon, line := 2, context := ": Row;" }, rowValue] <:+:
      tokenize rowSource := by
    decide +kernel
  have hDerives : (Entry.delegate rowDelegate).Derives
      [rowKey, { kind := .colon, line := 2, context := ": Row;" }, rowValue] :=
    .mk (show rowKey.kind = .expression "cell" from rfl) (by decide) rfl
      (.delegate (by decide) rfl)
  have hTold := (hoverAt_entry hParse (by decide +kernel)).2 _ _ _ _ _ _ _ _
    ⟨hTokens, hDerives⟩ entryLine_row
  have hRow : "A \x7b\n".toList.count '\n' = 1 := by decide +kernel
  have hColumn : "  ".toList.length = 2 := by decide +kernel
  rwa [hRow, hColumn] at hTold

/-- A delegate with a comment behind its type, and a property that ends with a form feed. -/
def misleadingSource : String :=
  "A \x7b\n  cell: Row // note\n  head: Row\x0c\n\x7d\n"

/-- The editor explains a delegate as a property, and a property as a delegate. -/
theorem hoverAt_misleading :
    Outline.parse misleadingSource =
        .ok { nodes := #[{ Node.root with elements := [1] },
          { typeName := "A", role := .element, parent := some 0,
            properties := [{ name := "head", value := "Row", line := 3 }],
            delegates := [rowDelegate], line := 1 }] } ∧
      hoverAt misleadingSource ⟨1, 2⟩ = .ok (some (describeKey "cell")) ∧
      hoverAt misleadingSource ⟨1, 2⟩ ≠ .ok (some (describeDelegate "cell" "Row")) ∧
      hoverAt misleadingSource ⟨2, 2⟩ = .ok (some (describeDelegate "head" "Row")) ∧
      hoverAt misleadingSource ⟨2, 2⟩ ≠ .ok (some (describeKey "head")) := by
  decide +kernel

end BindingMarkup.Editor
