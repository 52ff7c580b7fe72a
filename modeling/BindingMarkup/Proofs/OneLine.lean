import BindingMarkup.Proofs.RoundTrip

/-!
# BindingMarkup — documents on one line

A document can also be written on a single line, with its headers, entries
and closing braces one space apart and a semicolon behind each entry. It
then stands for the same outline, apart from the line numbers.

Nothing but the semicolon ends a value here, and a semicolon ends a value
only if what comes next is not taken for more of it. On one line that is
the next item, and each kind of item is recognised in its own way:

* `propertyAhead_key` — an entry by its key and colon, over any parameters;
* `elementAhead_title` — a node by its name and brace or base type;
* a closing brace at once.

So every item leads from the start of a statement to the start of another
one (`Markup.derives_items`), as every line does in the other layout. Both
layouts derive the same contents, with other line numbers
(`Contents.atLine`).
-/

namespace BindingMarkup

open Text

-- ---------------------------------------------------------------------------
-- Line numbers
-- ---------------------------------------------------------------------------

def Property.atLine (n : Nat) (p : Property) : Property :=
  { p with line := n }

def Delegate.atLine (n : Nat) (d : Delegate) : Delegate :=
  { d with line := n }

/-- The node with everything in it on line `n`. -/
def Node.atLine (n : Nat) (node : Node) : Node :=
  { node with
    properties := node.properties.map (Property.atLine n)
    delegates := node.delegates.map (Delegate.atLine n)
    line := n }

/-- The outline without its line numbers. -/
def Outline.unnumbered (outline : Outline) : Outline where
  nodes := outline.nodes.map (Node.atLine 0)

def Entry.atLine (n : Nat) : Entry → Entry
  | .id name => .id name
  | .property p => .property (p.atLine n)
  | .delegate d => .delegate (d.atLine n)

namespace Contents

/-- The contents with everything on line `n`. -/
def atLine (n : Nat) : Contents → Contents
  | nil => nil
  | entry e rest => entry (e.atLine n) (rest.atLine n)
  | node header _ inside rest => node header n (inside.atLine n) (rest.atLine n)

variable (n : Nat) (contents : Contents)

@[simp] theorem size_atLine : (contents.atLine n).size = contents.size := by
  induction contents with
  | nil => rfl
  | entry _ _ ih => exact ih
  | node _ _ _ _ ihInside ihRest => simp only [atLine, size, ihInside, ihRest]

@[simp] theorem id?_atLine : (contents.atLine n).id? = contents.id? := by
  induction contents with
  | nil => rfl
  | entry e _ ih => cases e <;> simp only [atLine, Entry.atLine, id?, ih]
  | node _ _ _ _ _ ih => exact ih

@[simp] theorem properties_atLine :
    (contents.atLine n).properties = contents.properties.map (Property.atLine n) := by
  induction contents with
  | nil => rfl
  | entry e _ ih => cases e <;> simp only [atLine, Entry.atLine, properties, ih, List.map_cons]
  | node _ _ _ _ _ ih => exact ih

@[simp] theorem delegates_atLine :
    (contents.atLine n).delegates = contents.delegates.map (Delegate.atLine n) := by
  induction contents with
  | nil => rfl
  | entry e _ ih => cases e <;> simp only [atLine, Entry.atLine, delegates, ih, List.map_cons]
  | node _ _ _ _ _ ih => exact ih

@[simp] theorem types_atLine (i : Nat) : (contents.atLine n).types i = contents.types i := by
  induction contents generalizing i with
  | nil => rfl
  | entry _ _ ih => exact ih i
  | node header _ _ _ _ ih => cases header <;> simp only [atLine, types, size_atLine, ih]

@[simp] theorem elements_atLine (i : Nat) :
    (contents.atLine n).elements i = contents.elements i := by
  induction contents generalizing i with
  | nil => rfl
  | entry _ _ ih => exact ih i
  | node header _ _ _ _ ih => cases header <;> simp only [atLine, elements, size_atLine, ih]

/-- The lines can be replaced before or after a node is filled. -/
theorem fill_atLine (i : Nat) (node : Node) :
    (contents.atLine n).fill i (node.atLine n) = (contents.fill i node).atLine n := by
  simp [fill, Node.atLine]

/-- The listing with all lines replaced. -/
theorem nodes_atLine (parent i : Nat) :
    (contents.atLine n).nodes parent i = (contents.nodes parent i).map (Node.atLine n) := by
  induction contents generalizing parent i with
  | nil => rfl
  | entry _ _ ih => exact ih parent i
  | node header line inside rest ihInside ihRest =>
    have hFill := fill_atLine n inside (i + 1)
      { typeName := header.typeName, role := header.role, parent := some parent, line }
    simp only [atLine, nodes, List.map_cons, List.map_append, ihInside, ihRest, size_atLine,
      ← hFill]
    rfl

/-- The outline of contents without line numbers. -/
theorem outline_atLine_zero : (contents.atLine 0).outline = contents.outline.unnumbered := by
  have hRoot := fill_atLine 0 contents 1 Node.root
  simp only [outline, Outline.unnumbered, nodes_atLine, List.map_toArray, List.map_cons, ← hRoot]
  rfl

/-- The last replacement counts. -/
theorem atLine_atLine (m : Nat) : (contents.atLine m).atLine n = contents.atLine n := by
  induction contents with
  | nil => rfl
  | entry e _ ih => cases e <;> simp only [atLine, Entry.atLine, ih] <;> rfl
  | node _ _ _ _ ihInside ihRest => simp only [atLine, ihInside, ihRest]

/-- The line numbers make no difference without them. -/
theorem unnumbered_outline_atLine :
    (contents.atLine n).outline.unnumbered = contents.outline.unnumbered := by
  rw [← outline_atLine_zero, ← outline_atLine_zero, atLine_atLine]

end Contents

/-- An entry has the line it is read on. -/
theorem Statement.atLine_entry (statement : Statement) (m n : Nat) :
    (statement.entry m).atLine n = statement.entry n := by
  cases statement <;> rfl

-- ---------------------------------------------------------------------------
-- Writing on one line
-- ---------------------------------------------------------------------------

namespace Markup

/-- The items of a document, with a semicolon behind every entry. -/
def items {scope : Scope} : Markup scope → List String
  | nil => []
  | entry statement rest => (statement.text ++ ";") :: rest.items
  | node title inside rest => title.text :: (inside.items ++ "\x7d" :: rest.items)

/-- The text of a document on one line. -/
def printOneLine (document : Markup .document) : String :=
  " ".intercalate document.items

end Markup

/-- Items with a space before each of them. -/
def spaced (items : List String) : List Char :=
  items.flatMap fun item => ' ' :: item.toList

/-- Items on one line, each behind a space. -/
theorem spaced_eq (first : String) (more : List String) :
    spaced (first :: more) = ' ' :: (" ".intercalate (first :: more)).toList := by
  induction more generalizing first with
  | nil => simp [spaced]
  | cons second more ih =>
    have hMore := ih second
    rw [spaced, List.flatMap_cons] at hMore ⊢
    rw [List.flatMap_cons, hMore]
    simp

namespace Token

-- ---------------------------------------------------------------------------
-- What follows a semicolon
-- ---------------------------------------------------------------------------

theorem statementContinues_space (cs : List Char) :
    statementContinues (' ' :: cs) = statementContinues cs := rfl

/-- What can be recognised as an item starts with a character of a name. -/
theorem isWordChar_of_ahead {c : Char} {rest : List Char}
    (h : propertyAhead (c :: rest) = true ∨ elementAhead (c :: rest) = true) :
    isWordChar c = true := by
  rcases h with hProperty | hElement
  · have hName := (Bool.and_eq_true_iff.mp hProperty).1
    cases hChar : isNameChar c with
    | true => rw [isWordChar, hChar, Bool.true_or]
    | false => simp [hChar] at hName
  · have hUpper := (Bool.and_eq_true_iff.mp hElement).1
    exact isWordChar_of_isElementChar (isElementChar_of_isUpper hUpper)

/-- An item is no more of a value. -/
theorem statementContinues_eq_false {cs : List Char}
    (h : propertyAhead cs = true ∨ elementAhead cs = true) : statementContinues cs = false := by
  cases cs with
  | nil => rfl
  | cons c rest =>
    have hBlank := isBlank_of_isWordChar (isWordChar_of_ahead h)
    have hMargin : isMargin c = false := by
      refine Bool.eq_false_iff.mpr fun hMargin => ?_
      rw [isBlank_of_isMargin hMargin] at hBlank
      exact absurd hBlank (by simp)
    rw [statementContinues, List.dropWhile_cons_of_neg (by simp [hMargin])]
    rcases h with hAhead | hAhead <;> simp [hAhead]

/-- A special character ends a name. -/
theorem isNameChar_of_mem_specials {c : Char} (h : c ∈ specials) : isNameChar c = false := by
  refine Bool.eq_false_iff.mpr fun hName => ?_
  have hWord : isWordChar c = true := by rw [isWordChar, hName, Bool.true_or]
  exact not_mem_specials hWord h

/-- An entry is recognised by its key and colon. -/
theorem propertyAhead_key {name : String} {params : Option String} (h : IsKey name params)
    (rest : List Char) :
    propertyAhead ((keyText name params).toList ++ ':' :: rest) = true := by
  have hName : ∀ c ∈ name.toList, isNameChar c = true := fun c hc =>
    isNameChar_of_isKeyChar (List.all_eq_true.mp h.chars c hc)
  have hNil : name.toList.isEmpty = false := by
    refine List.isEmpty_eq_false_iff.mpr fun hNil => ?_
    have hStart := h.start
    rw [hNil] at hStart
    exact absurd hStart (by simp)
  -- the name ends at the first special character behind it
  have hSpan : ∀ {c : Char} (tail : List Char), c ∈ specials → isBlank c = false →
      (name.toList ++ c :: tail).takeWhile isNameChar = name.toList ∧
        trimStart ((name.toList ++ c :: tail).dropWhile isNameChar) = c :: tail := by
    intro c tail hSpecial hBlank
    have hEnds : ¬isNameChar c = true := by simp [isNameChar_of_mem_specials hSpecial]
    rw [List.takeWhile_append_of_pos hName, List.dropWhile_append_of_pos hName,
      List.takeWhile_cons_of_neg hEnds, List.dropWhile_cons_of_neg hEnds, List.append_nil,
      trimStart_cons_of_not_blank hBlank]
    exact ⟨rfl, rfl⟩
  unfold propertyAhead
  cases params with
  | none =>
    obtain ⟨hTake, hDrop⟩ := hSpan (c := ':') rest (by decide) (by decide)
    simp [keyText, hTake, hDrop, hNil]
  | some text =>
    -- the first closing parenthesis is the one behind the parameters
    have hClose : ')' ∉ text.toList := fun hMem =>
      absurd (List.all_eq_true.mp (h.params_chars text rfl) ')' hMem) (by decide)
    have hText : (keyText name (some text)).toList ++ ':' :: rest =
        name.toList ++ '(' :: (text.toList ++ ')' :: ':' :: rest) := by
      simp [toList_keyText_some]
    have hSplit := splitAtFirst?_append hClose (':' :: rest)
    have hColon : trimStart (':' :: rest) = ':' :: rest :=
      trimStart_cons_of_not_blank (by decide) rest
    obtain ⟨hTake, hDrop⟩ :=
      hSpan (c := '(') (text.toList ++ ')' :: ':' :: rest) (by decide) (by decide)
    simp [hText, hTake, hDrop, hNil, hSplit, hColon]

/-- A word before a space is a name of a node when its mark follows. -/
theorem elementAhead_typeName (name : TypeName) {c : Char} (hMark : c = '\x7b' ∨ c = '@')
    (rest : List Char) : elementAhead (name.text.toList ++ ' ' :: c :: rest) = true := by
  have hValid := name.valid
  simp only [isTypeName, Bool.and_eq_true, List.all_eq_true] at hValid
  obtain ⟨d, more, hText⟩ := List.exists_cons_of_ne_nil name.writable.ne_nil
  have hUpper : d.isUpper = true := by simpa [hText] using hValid.1
  have hRest : trimStart ((name.text.toList ++ ' ' :: c :: rest).dropWhile isElementChar) =
      c :: rest := by
    rw [List.dropWhile_append_of_pos hValid.2]
    rcases hMark with rfl | rfl <;> rfl
  unfold elementAhead
  rw [hRest]
  rcases hMark with rfl | rfl <;> simp [hText, hUpper]

/-- A node is recognised by its name and the mark behind it. -/
theorem elementAhead_title (title : Title) (rest : List Char) :
    elementAhead (title.text.toList ++ rest) = true := by
  cases title with
  | element name =>
    have hAhead := elementAhead_typeName name (.inl rfl) rest
    simpa [Title.text] using hAhead
  | definition name base =>
    have hAhead := elementAhead_typeName name (.inr rfl)
      (' ' :: (base.text ++ " \x7b").toList ++ rest)
    simpa [Title.text] using hAhead

end Token

open Token

theorem tokensFrom_spaced (state : State) (items : List String) :
    tokensFrom state (spaced items) = tokensFrom state (" ".intercalate items).toList := by
  cases items with
  | nil => rfl
  | cons first more => rw [spaced_eq, tokensFrom_blank (by decide) (by decide)]

/-- No item is taken for more of the value before it. -/
theorem Markup.statementContinues_items {scope : Scope} (markup : Markup scope) {rest : List Char}
    (h : statementContinues rest = false) :
    statementContinues (spaced markup.items ++ rest) = false := by
  cases markup with
  | nil => exact h
  | entry statement more =>
    obtain ⟨name, params, hKey, hValid⟩ := statement.exists_key
    have hItems : spaced (entry statement more).items ++ rest =
        ' ' :: ((keyText name params).toList ++
          ':' :: (" " ++ statement.value ++ ";").toList ++ (spaced more.items ++ rest)) := by
      simp [items, spaced, Statement.text, hKey]
    rw [hItems, statementContinues_space, List.append_assoc]
    exact statementContinues_eq_false (.inl (propertyAhead_key hValid _))
  | node title inside more =>
    have hItems : spaced (node title inside more).items ++ rest =
        ' ' :: (title.text.toList ++ (spaced (inside.items ++ "\x7d" :: more.items) ++ rest)) := by
      simp [items, spaced]
    rw [hItems, statementContinues_space]
    exact statementContinues_eq_false (.inr (elementAhead_title title _))

/-- **Items derive their contents**, with everything on one line. The reader starts
with a statement and comes out where another one starts. -/
theorem Markup.derives_items {scope : Scope} (markup : Markup scope) (m n : Nat)
    (rest : List Char) (hRest : scope = .node → statementContinues rest = false) :
    ∃ ts, ((markup.contents m).atLine n).Derives scope ts ∧
      tokensFrom (lineStart n) (spaced markup.items ++ rest) =
        ts ++ tokensFrom (lineStart n) rest := by
  induction markup generalizing m rest with
  | nil => exact ⟨[], .nil, rfl⟩
  | entry statement more ih =>
    -- the semicolon ends the value, since an item or the end of the node follows
    have hEnd : EndsValue (';' :: (spaced more.items ++ rest)) :=
      .semicolon (more.statementContinues_items (hRest rfl))
    obtain ⟨es, hEntry, hLine⟩ := tokensFrom_statement statement n hEnd
    obtain ⟨ts, hMore, hTokens⟩ := ih (m + 1) rest hRest
    refine ⟨es ++ ts, .entry ?_ hMore, ?_⟩
    · rwa [statement.atLine_entry]
    · have hText : spaced (entry statement more).items ++ rest =
          ' ' :: (statement.text.toList ++ ';' :: (spaced more.items ++ rest)) := by
        simp [items, spaced]
      rw [hText, tokensFrom_blank (by decide) (by decide), hLine, List.append_assoc, ← hTokens]
      rfl
  | @node scope title inside more ihInside ihMore =>
    obtain ⟨ts, hMore, hTokens⟩ := ihMore (m + 1 + inside.lines.length + 1) rest hRest
    obtain ⟨stop, hEnd, hStop⟩ := tokensFrom_closing n (spaced more.items ++ rest)
    -- behind a closing brace no statement goes on
    have hContinues :
        statementContinues (' ' :: '\x7d' :: (spaced more.items ++ rest)) = false := rfl
    obtain ⟨body, hInside, hBody⟩ := ihInside (m + 1) _ fun _ => hContinues
    obtain ⟨header, start, hHeader, hKind, hStart, hTitle⟩ := tokensFrom_title title n
      (spaced inside.items ++ ' ' :: '\x7d' :: (spaced more.items ++ rest))
    refine ⟨header ++ start :: (body ++ stop :: ts), ?_, ?_⟩
    · rw [contents, Contents.atLine, ← hStart]
      exact .node hHeader hKind (hStart ▸ hInside) hEnd (hStart ▸ hMore)
    · have hText : spaced (node title inside more).items ++ rest =
          ' ' :: (title.text.toList ++
            (spaced inside.items ++ ' ' :: '\x7d' :: (spaced more.items ++ rest))) := by
        simp [items, spaced]
      rw [hText, tokensFrom_blank (by decide) (by decide), hTitle, hBody,
        tokensFrom_blank (by decide) (by decide), hStop, hTokens]
      simp

/-- **A document means the same on one line.** With a header, an entry or a closing
brace on each line, or with all of them on one, a document can be read, and the
two outlines are equal in everything but their line numbers. -/
theorem Markup.parse_printOneLine (document : Markup .document) (indent : Nat → Indentation) :
    ∃ perLine oneLine, Outline.parse (document.print indent) = .ok perLine ∧
      Outline.parse document.printOneLine = .ok oneLine ∧
      oneLine.unnumbered = perLine.unnumbered := by
  obtain ⟨ts, hLines, hPerLine⟩ := document.derives_contents indent 1 []
  obtain ⟨us, hItems, hOneLine⟩ := document.derives_items 1 1 [] (fun hScope => nomatch hScope)
  rw [tokensFrom_nil, List.append_nil, List.append_nil] at hPerLine hOneLine
  rw [tokensFrom_spaced] at hOneLine
  have hParse := parse_of_derives (hOneLine ▸ hItems)
  rw [String.ofList_toList] at hParse
  exact ⟨_, _, parse_of_derives (hPerLine ▸ hLines), hParse,
    (document.contents 1).unnumbered_outline_atLine 1⟩

example :
    Markup.printOneLine
        (.node (.definition ⟨"Row", rfl⟩ ⟨"Item", rfl⟩)
          (.entry (.id ⟨"first", rfl⟩)
            (.node (.element ⟨"Label", rfl⟩) .nil
              (.entry (.delegate ⟨"cell", none, ⟨rfl, rfl, by simp⟩, by decide⟩ ⟨"Cell", rfl⟩)
                .nil)))
          .nil) =
      "Row @ Item \x7b id: first; Label \x7b \x7d cell: Cell; \x7d" := by
  rfl

end BindingMarkup
