import BindingMarkup.Proofs.Braces
import BindingMarkup.Proofs.Reach
import BindingMarkup.Proofs.TypeNames
import BindingMarkup.Proofs.Word

/-!
# BindingMarkup — the editor over the names of types

The reader and the editor cut words in two ways. A type name of the reader
may hold dashes, and a word of the editor ends at a dash. Where the name
has none, the two cuts agree: the reader comes to a name at the beginning
of a word (`Reached.before_capital`), and the name goes on as long as the
word does. The editor then finds the name at each of its characters and
knows it, from its definition or from the tokens.

* `hoverType_names` — a text about a type begins with the name of the type.
* `hoverType_isSome` — there is such a text for every name in the tokens.
* `hoverAt_word` — over each character of a capitalised word the editor
  shows the text about that word.
* `hoverAt_element_iff` — so in an ASCII text it names a type over each
  character of its name, exactly when the name has no dash.
-/

namespace BindingMarkup.Editor

open Text Token

-- ---------------------------------------------------------------------------
-- What is said about a type
-- ---------------------------------------------------------------------------

variable {text : String}

/-- A hover text begins with a name in bold. -/
def Names (name description : String) : Prop :=
  ("**" ++ name ++ "**").toList <+: description.toList

/-- A description that begins with a name in bold names it. -/
theorem names_append (name more : String) : Names name ("**" ++ (name ++ ("**" ++ more))) :=
  ⟨more.toList, by simp only [String.toList_append, List.append_assoc]⟩

/-- The definition of a word has this name. -/
theorem typeName_of_definitionOf? {word : String} {node : Node}
    (h : definitionOf? text word = some node) : node.typeName = word := by
  unfold definitionOf? at h
  split at h
  · exact (findType?_eq_some h).2.1
  · exact absurd h (by simp)

/-- A text about a type begins with the name of the type. -/
theorem hoverType_names {word description : String}
    (h : hoverType text word = some description) : Names word description := by
  have hMark : "** extends **" = "**" ++ " extends **" := rfl
  unfold hoverType at h
  split at h
  · next node hNode =>
    obtain rfl := Option.some.inj h
    unfold describeDefinition
    rw [typeName_of_definitionOf? hNode]
    simp only [hMark, String.append_assoc]
    exact names_append word _
  · obtain ⟨known, -, rfl⟩ := Option.map_eq_some_iff.mp h
    cases known with
    | some base =>
      show Names word ("**" ++ word ++ "** extends **" ++ base ++ "**")
      simp only [hMark, String.append_assoc]
      exact names_append word _
    | none =>
      show Names word ("**" ++ word ++ "** · element type")
      have hPlain : "** · element type" = "**" ++ " · element type" := rfl
      simp only [hPlain, String.append_assoc]
      exact names_append word _

/-- Every name in the tokens is known. -/
theorem hoverType_isSome {name : String} (h : HasElement name (tokenize text)) :
    (hoverType text name).isSome = true := by
  have hKnown : ((knownTypes text).find? name).isSome = true :=
    TypeTable.isSome_find?_iff.mpr ((mem_keys_knownTypes_iff text name).mpr h)
  unfold hoverType
  split
  · rfl
  · rwa [Option.isSome_map]

/-- What begins with a name in bold does not begin with a longer name. -/
theorem not_names_of_dash {left right : List Char} {description : String}
    (h : Names (String.ofList left) description) :
    ¬Names (String.ofList (left ++ '-' :: right)) description := by
  intro hLong
  obtain ⟨more, hMore⟩ := h
  obtain ⟨rest, hRest⟩ := hLong
  have hBoth := hMore.trans hRest.symm
  simp only [String.toList_append, String.toList_ofList, List.append_assoc, List.cons_append,
    List.append_cancel_left_eq] at hBoth
  exact absurd (List.cons.inj hBoth).1 (by decide)

-- ---------------------------------------------------------------------------
-- Over a word
-- ---------------------------------------------------------------------------

/-- Over each character of a capitalised word the editor shows the text about it. -/
theorem hoverAt_word {row : Nat} {front word tail : List Char}
    (hLine : (lines text.toList)[row]? = some (front ++ (word ++ tail)))
    (hWord : ∀ c ∈ word, isWordChar c = true) (hUpper : word.head?.any isUppercase = true)
    (hFront : ∀ c ∈ front.getLast?, isWordChar c = false ∧ c.utf8Size = 1)
    (hTail : ∀ c ∈ tail.head?, isWordChar c = false) (k : Nat) :
    hoverAt text ⟨row, byteLength (front ++ word.take k)⟩ =
      .ok (hoverType text (String.ofList word)) := by
  have hParts : front ++ (word ++ tail) = front ++ word.take k ++ (word.drop k ++ tail) := by
    rw [List.append_assoc, ← List.append_assoc (word.take k), List.take_append_drop]
  rw [hParts] at hLine
  have hAt := AtWord.of_column hLine (fun c hc => hWord c (List.mem_of_mem_take hc))
    (fun c hc => hWord c (List.mem_of_mem_drop hc)) (fun c hc => (hFront c hc).1) hTail
  have hNil : word.take k ++ word.drop k ≠ [] := by
    rw [List.take_append_drop]
    rintro rfl
    exact absurd hUpper (by simp)
  have hFound := hAt.wordAt_eq_some (fun c hc => (hFront c hc).2) hNil
  rw [List.take_append_drop] at hFound
  rw [hoverAt, hFound]
  simp only [String.toList_ofList, hUpper, if_true]

-- ---------------------------------------------------------------------------
-- Over the name of a type
-- ---------------------------------------------------------------------------

/-- The name of a type stands on a line, cut on both sides by characters that are no part
of a name. -/
structure NameOnLine (text : String) (row : Nat) (front name tail : List Char) : Prop where
  line : (lines text.toList)[row]? = some (front ++ (name ++ tail))
  typeName : BindingMarkup.isTypeName name = true
  front : ∀ c ∈ front.getLast?, isElementChar c = false
  tail : ∀ c ∈ tail.head?, isElementChar c = false

/-- A token with the name of a type stands where the name begins on its line. -/
theorem exists_nameOnLine {t : Token} (ht : t ∈ tokenize text) {name : String}
    (hKind : t.kind = .element name) :
    ∃ previous p tail, StandsAt text.toList previous t p ∧
      NameOnLine text (t.line - 1) (lastLine (text.toList.take p)) name.toList tail := by
  obtain ⟨earlier, later, hTokens⟩ := List.append_of_mem ht
  obtain ⟨before, state, c, rest, hReached, -, hAt⟩ := exists_reached hTokens
  have hSource := hReached.source_eq
  have hBegins := hAt.begins
  rw [hKind, hSource, List.drop_left] at hBegins
  have hText : c :: rest = name.toList ++ (c :: rest).dropWhile isElementChar := by
    rw [hBegins.2, List.takeWhile_append_dropWhile]
  have hType := (fitsFrom_tokenize text).isTypeName_of_mem ht hKind
  obtain ⟨d, more, hName, hUpper⟩ := exists_upper_of_isTypeName hType
  have hSolid : ∀ e ∈ name.toList, isBlank e = false := by
    intro e he
    rw [hBegins.2] at he
    exact BindingMarkup.isBlank_of_isWordChar
      (isWordChar_of_isElementChar (List.mem_takeWhile_imp he))
  -- the name stands on one line, and what follows it there is no character of a name
  obtain ⟨tail, blanks, hLine, hFirst, -⟩ :=
    getElem?_lines_word before (by rw [hName]; simp) hSolid ((c :: rest).dropWhile isElementChar)
  rw [← hText, ← hSource] at hLine
  have hTake : text.toList.take before.length = before := by rw [hSource, List.take_left]
  refine ⟨earlier.getLast?, before.length, tail, hAt, ?_, hType, ?_, ?_⟩
  · rw [hAt.line_eq, hTake, Nat.add_sub_cancel_left]
    exact hLine
  · -- the reader came to a capital
    have hHead : d = c := by
      rw [hName] at hText
      exact (List.cons.inj hText).1.symm
    intro e he
    refine hReached.before_capital (hHead ▸ hUpper) e ?_
    obtain ⟨passed, hPassed⟩ := List.rtakeWhile_suffix (· != '\n') (l := before)
    rw [← hPassed]
    rw [hTake] at he
    exact List.mem_getLast?_append_of_mem_getLast? he
  · intro e he
    have hStop := List.head?_dropWhile_not isElementChar (c :: rest)
    rwa [Option.mem_def.mp (head?_of_firstLine hFirst e he)] at hStop

namespace NameOnLine

variable {row : Nat} {front name tail : List Char}

theorem ascii (h : NameOnLine text row front name tail) (hAscii : Ascii text.toList) :
    Ascii (front ++ (name ++ tail)) := fun c hc =>
  hAscii c ((infix_of_mem_lines (List.mem_of_getElem? h.line)).subset hc)

/-- In ASCII a name is found behind the end of a word. -/
theorem before (h : NameOnLine text row front name tail) (hAscii : Ascii text.toList) :
    ∀ c ∈ front.getLast?, isWordChar c = false ∧ c.utf8Size = 1 := by
  intro c hc
  have hNarrow := h.ascii hAscii c (List.mem_append_left _ (List.mem_of_getLast? hc))
  exact ⟨isWordChar_of_not_isElementChar hNarrow (h.front c hc), utf8Size_of_ascii hNarrow⟩

/-- In ASCII a name has word characters and dashes. -/
theorem isWordChar_of_ne_dash (h : NameOnLine text row front name tail)
    (hAscii : Ascii text.toList) : ∀ c ∈ name, c ≠ '-' → isWordChar c = true := by
  intro c hc hDash
  have hNarrow := h.ascii hAscii c (by simp [hc])
  have hElement := List.all_eq_true.mp (Bool.and_eq_true_iff.mp h.typeName).2 c hc
  rw [isElementChar_of_ascii hNarrow, Bool.or_eq_true] at hElement
  exact hElement.resolve_right (by simpa using hDash)

/-- Without a dash the editor finds the name over each of its characters. -/
theorem hoverAt_of_no_dash (h : NameOnLine text row front name tail) (hAscii : Ascii text.toList)
    (hDash : '-' ∉ name) {k : Nat} (hk : k < name.length) :
    hoverAt text ⟨row, byteLength front + k⟩ = .ok (hoverType text (String.ofList name)) := by
  obtain ⟨first, more, hName, hUpper⟩ := exists_upper_of_isTypeName h.typeName
  have hWord : ∀ c ∈ name, isWordChar c = true := fun c hc =>
    h.isWordChar_of_ne_dash hAscii c hc fun hEq => hDash (hEq ▸ hc)
  have hHead : name.head?.any isUppercase = true := by
    rw [hName]
    exact isUppercase_of_isUpper hUpper
  have hTail : ∀ c ∈ tail.head?, isWordChar c = false := by
    intro c hc
    have hNarrow := h.ascii hAscii c (by simp [List.mem_of_mem_head? hc])
    exact isWordChar_of_not_isElementChar hNarrow (h.tail c hc)
  have hColumn : byteLength (front ++ name.take k) = byteLength front + k := by
    have hTake : Ascii (name.take k) := fun c hc =>
      h.ascii hAscii c (by simp [List.mem_of_mem_take hc])
    rw [byteLength_append, byteLength_of_ascii hTake, List.length_take,
      Nat.min_eq_left (Nat.le_of_lt hk)]
  rw [← hColumn]
  exact hoverAt_word h.line hWord hHead (h.before hAscii) hTail k

/-- With a dash the editor finds, over the first character, the part of the name before
the dash. -/
theorem hoverAt_of_dash (h : NameOnLine text row front name tail) (hAscii : Ascii text.toList)
    {left right : List Char} (hSplit : name = left ++ '-' :: right) (hNone : '-' ∉ left) :
    hoverAt text ⟨row, byteLength front⟩ = .ok (hoverType text (String.ofList left)) := by
  obtain ⟨first, more, hName, hUpper⟩ := exists_upper_of_isTypeName h.typeName
  have hHead : left.head?.any isUppercase = true := by
    rw [hName] at hSplit
    cases left with
    | nil =>
      rw [(List.cons.inj hSplit).1] at hUpper
      exact absurd hUpper (by decide)
    | cons c left =>
      rw [← (List.cons.inj hSplit).1]
      exact isUppercase_of_isUpper hUpper
  have hWord : ∀ c ∈ left, isWordChar c = true := fun c hc =>
    h.isWordChar_of_ne_dash hAscii c (by rw [hSplit]; exact List.mem_append_left _ hc)
      fun hEq => hNone (hEq ▸ hc)
  have hLine := h.line
  rw [hSplit, List.append_assoc] at hLine
  have hShort := hoverAt_word hLine hWord hHead (h.before hAscii) (by simp; decide +kernel) 0
  rwa [List.take_zero, List.append_nil] at hShort

end NameOnLine

/-- **The editor over type names.** In an ASCII text the editor names a type over each
character of its name, from the place where the token stands on its line, exactly when the
name has no dash. -/
theorem hoverAt_element_iff (hAscii : Ascii text.toList) {t : Token} (ht : t ∈ tokenize text)
    {name : String} (hKind : t.kind = .element name) {previous : Option Token} {p : Nat}
    (hAt : StandsAt text.toList previous t p) :
    (∀ k < name.toList.length, ∃ description,
        hoverAt text ⟨t.line - 1, byteLength (lastLine (text.toList.take p)) + k⟩ =
          .ok (some description) ∧ Names name description) ↔
      '-' ∉ name.toList := by
  obtain ⟨other, q, tail, hThere, hName⟩ := exists_nameOnLine ht hKind
  obtain rfl : p = q := hAt.unique hThere
  constructor
  · intro hTold hDash
    obtain ⟨left, right, hSplit, hNone⟩ := List.eq_append_cons_of_mem hDash
    obtain ⟨description, hHover, hNames⟩ := hTold 0 (by rw [hSplit]; simp)
    rw [Nat.add_zero, hName.hoverAt_of_dash hAscii hSplit hNone] at hHover
    have hShort := hoverType_names (Except.ok.inj hHover)
    rw [← String.ofList_toList (s := name), hSplit] at hNames
    exact not_names_of_dash hShort hNames
  · intro hDash k hk
    obtain ⟨description, hKnown⟩ :=
      Option.isSome_iff_exists.mp (hoverType_isSome ⟨t, ht, hKind⟩)
    have hHover := hName.hoverAt_of_no_dash hAscii hDash hk
    rw [String.ofList_toList, hKnown] at hHover
    exact ⟨description, hHover, hoverType_names hKnown⟩

/-- The definition of a type with a dash in its name, and inside it a type without one. -/
def dashedSource : String :=
  "My-Card @ Item \x7b\n  Label \x7b\n  \x7d\n\x7d\n"

theorem ascii_dashedSource : Ascii dashedSource.toList := by
  decide +kernel

def labelToken : Token where
  kind := .element "Label"
  line := 2
  context := "Label \x7b"

theorem standsAt_label : StandsAt dashedSource.toList none labelToken 19 where
  line_eq := by decide +kernel
  context_eq := by decide +kernel
  not_blank := fun _ hc => Option.some.inj hc ▸ (by decide +kernel)
  begins := ⟨by decide +kernel, by decide +kernel⟩

/-- `Label` is told over each of its five characters. -/
theorem hoverAt_element_iff_label :
    labelToken ∈ tokenize dashedSource ∧
      ∀ k < "Label".toList.length, ∃ description,
        hoverAt dashedSource ⟨1, byteLength (lastLine (dashedSource.toList.take 19)) + k⟩ =
          .ok (some description) ∧ Names "Label" description := by
  have hToken : labelToken ∈ tokenize dashedSource := by decide +kernel
  have hDash : '-' ∉ "Label".toList := by decide
  exact ⟨hToken, (hoverAt_element_iff ascii_dashedSource hToken rfl standsAt_label).mpr hDash⟩

/-- Over a name with a dash the editor has nothing to show. -/
theorem hoverAt_dashed :
    (Outline.parse dashedSource).isOk = true ∧ Ascii dashedSource.toList ∧
      { kind := .element "My-Card", line := 1, context := "My-Card @ Item \x7b" } ∈
        tokenize dashedSource ∧
      ∀ k < "My-Card".toList.length, hoverAt dashedSource ⟨0, k⟩ = .ok none := by
  refine ⟨by decide +kernel, ascii_dashedSource, by decide +kernel, by decide +kernel⟩

end BindingMarkup.Editor
