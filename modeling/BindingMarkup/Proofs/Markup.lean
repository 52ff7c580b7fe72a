import BindingMarkup.Proofs.Grammar

/-!
# BindingMarkup — documents as they are written

The grammar speaks of tokens; here a document is described as it is
written, one header, entry or closing brace on a line. Each part is a type
of its own that carries the conditions on its text, so every value of
`Markup .document` can be written down:

* a **type name** is a capital and then letters, digits, `_` and `-`;
* an **identifier** is what an id accepts;
* a **key** is a name, perhaps with parameters in parentheses, and is not
  `id`;
* a **value** stays on its line, and outside its strings its brackets are
  balanced and nothing ends it early (`Balanced`).

`Markup.print` writes a document with any indentation, and
`Markup.contents` says what it stands for, with the number of every line.
Neither of them mentions the reader.

* `writable_of_isWordChar` — identifiers and type names obey the rules for
  values, so all three kinds of entries are written the same way.
-/

namespace BindingMarkup

open Text

-- ---------------------------------------------------------------------------
-- Values
-- ---------------------------------------------------------------------------

def isOpening (c : Char) : Bool :=
  c == '(' || c == '[' || c == '\x7b'

def isClosing (c : Char) : Bool :=
  c == ')' || c == ']' || c == '\x7d'

/-- What stands behind the opening mark of a string: it runs to the same mark,
and a backslash takes the next character along. -/
inductive StringEnd (mark : Char) : List Char → Prop where
  | close : StringEnd mark [mark]
  | escape {c : Char} {rest : List Char} (hRest : StringEnd mark rest) :
      StringEnd mark ('\\' :: c :: rest)
  | plain {c : Char} {rest : List Char} (hMark : c ≠ mark) (hEscape : c ≠ '\\')
      (hRest : StringEnd mark rest) : StringEnd mark (c :: rest)

/-- A text that closes as many brackets as are open before it. All brackets share
one count, which never falls below zero; strings are closed; and outside of
strings there is no semicolon and no line comment. -/
inductive Balanced : Nat → List Char → Prop where
  | nil : Balanced 0 []
  | string {depth : Nat} {mark : Char} {quoted rest : List Char} (hMark : isQuote mark = true)
      (hQuoted : StringEnd mark quoted) (hRest : Balanced depth rest) :
      Balanced depth (mark :: (quoted ++ rest))
  | opening {depth : Nat} {c : Char} {rest : List Char} (hOpening : isOpening c = true)
      (hRest : Balanced (depth + 1) rest) : Balanced depth (c :: rest)
  | closing {depth : Nat} {c : Char} {rest : List Char} (hClosing : isClosing c = true)
      (hRest : Balanced depth rest) : Balanced (depth + 1) (c :: rest)
  | plain {depth : Nat} {c : Char} {rest : List Char} (hQuote : isQuote c = false)
      (hOpening : isOpening c = false) (hClosing : isClosing c = false) (hSemicolon : c ≠ ';')
      (hComment : ¬(c = '/' ∧ rest.head? = some '/')) (hRest : Balanced depth rest) :
      Balanced depth (c :: rest)

/-- What the text behind a colon must be to be taken up to the end of its line. -/
structure Writable (cs : List Char) : Prop where
  ne_nil : cs ≠ []
  no_break : '\n' ∉ cs
  not_blank : ∀ c ∈ cs.head?, isBlank c = false
  not_mark : ∀ c ∈ cs.head?, c ≠ '\x7b' ∧ c ≠ ':' ∧ c ≠ '@'
  no_comment : ¬['/', '*'] <+: cs
  last_not_blank : ∀ c ∈ cs.getLast?, isBlank c = false
  balanced : Balanced 0 cs

-- a string may hold what would end the value outside of it
example : Writable "f(\"\x7d;\")".toList := by
  have hString : StringEnd '"' ['\x7d', ';', '"'] :=
    .plain (by decide) (by decide) (.plain (by decide) (by decide) .close)
  have hArguments : Balanced 1 ('"' :: (['\x7d', ';', '"'] ++ [')'])) :=
    .string rfl hString (.closing rfl .nil)
  have hCall : Balanced 0 "f(\"\x7d;\")".toList :=
    .plain rfl rfl rfl (by decide) (by decide) (.opening rfl hArguments)
  have hFirst : isBlank 'f' = false := by decide
  have hLast : isBlank ')' = false := by decide
  exact ⟨by decide, by decide, by simpa using hFirst, by simp, by decide, by simpa using hLast, hCall⟩

def isTypeName (cs : List Char) : Bool :=
  cs.head?.any Char.isUpper && cs.all Token.isElementChar

-- ---------------------------------------------------------------------------
-- The parts of a document
-- ---------------------------------------------------------------------------

structure TypeName where
  text : String
  valid : isTypeName text.toList = true

structure Identifier where
  text : String
  valid : Draft.isIdentifier text = true

/-- The value of a property. A type name would make it a delegate. -/
structure Value where
  text : String
  writable : Writable text.toList
  not_typeName : isTypeName text.toList = false

/-- The characters that mean nothing to a scan over brackets: no quote, no bracket,
no line break and no slash. -/
def isInert (c : Char) : Bool :=
  !(isQuote c || isOpening c || isClosing c || c == '\n' || c == '/')

def isKeyStart (c : Char) : Bool :=
  c.isLower || c == '_'

def isKeyChar (c : Char) : Bool :=
  c.isAlphanum || c == '_' || c == '$'

/-- The text of a key with the given name and parameters. -/
def keyText (name : String) : Option String → String
  | none => name
  | some params => name ++ "(" ++ params ++ ")"

/-- What is read as a key. -/
structure IsKey (name : String) (params : Option String) : Prop where
  start : name.toList.head?.any isKeyStart = true
  chars : name.toList.all isKeyChar = true
  params_chars : ∀ text ∈ params, text.toList.all isInert = true

/-- The key of a property or a delegate. -/
structure Key where
  name : String
  params : Option String
  valid : IsKey name params
  not_id : keyText name params ≠ "id"

def Key.text (key : Key) : String :=
  keyText key.name key.params

/-- The first line of a node. -/
inductive Title where
  | element (name : TypeName)
  | definition (name base : TypeName)

/-- The line of an entry. -/
inductive Statement where
  | id (name : Identifier)
  | property (key : Key) (value : Value)
  | delegate (key : Key) (target : TypeName)

/-- What is written in a document or in a node. In a document there are only
nodes. -/
inductive Markup : Scope → Type where
  | nil {scope : Scope} : Markup scope
  | entry (statement : Statement) (rest : Markup .node) : Markup .node
  | node {scope : Scope} (title : Title) (inside : Markup .node) (rest : Markup scope) :
      Markup scope

-- ---------------------------------------------------------------------------
-- Writing
-- ---------------------------------------------------------------------------

def Title.text : Title → String
  | .element name => name.text ++ " \x7b"
  | .definition name base => name.text ++ " @ " ++ base.text ++ " \x7b"

def Statement.key : Statement → String
  | .id _ => "id"
  | .property key _ => key.text
  | .delegate key _ => key.text

def Statement.value : Statement → String
  | .id name => name.text
  | .property _ value => value.text
  | .delegate _ target => target.text

def Statement.text (statement : Statement) : String :=
  statement.key ++ ": " ++ statement.value

/-- The blanks before a line. -/
structure Indentation where
  blanks : List Char
  blank : ∀ c ∈ blanks, isBlank c = true
  no_break : '\n' ∉ blanks

/-- Writes lines below each other, the first as line `n`. Every line has an
indentation of its own. -/
def layOut (indent : Nat → Indentation) (n : Nat) : List String → List Char
  | [] => []
  | line :: more => (indent n).blanks ++ line.toList ++ '\n' :: layOut indent (n + 1) more

/-- Lines are laid out one after the other, each by its number. -/
theorem layOut_append (indent : Nat → Indentation) (n : Nat) (front back : List String) :
    layOut indent n (front ++ back) =
      layOut indent n front ++ layOut indent (n + front.length) back := by
  induction front generalizing n with
  | nil => rfl
  | cons line more ih =>
    have hNext : n + 1 + more.length = n + (line :: more).length := by
      rw [List.length_cons]
      omega
    simp only [List.cons_append, layOut, ih, hNext, List.append_assoc]

namespace Markup

/-- The lines, without indentation. -/
def lines {scope : Scope} : Markup scope → List String
  | nil => []
  | entry statement rest => statement.text :: rest.lines
  | node title inside rest => title.text :: (inside.lines ++ "\x7d" :: rest.lines)

/-- The text of a document. -/
def print (document : Markup .document) (indent : Nat → Indentation) : String :=
  String.ofList (layOut indent 1 document.lines)

end Markup

-- ---------------------------------------------------------------------------
-- What a document stands for
-- ---------------------------------------------------------------------------

def Title.header : Title → Header
  | .element name => .element name.text
  | .definition name base => .definition name.text base.text

/-- The entry on the given line. -/
def Statement.entry (line : Nat) : Statement → Entry
  | .id name => .id name.text
  | .property key value => .property { name := key.text, value := value.text, line }
  | .delegate key target => .delegate { name := key.text, target := target.text, line }

/-- The contents when the first line has the number `n`. -/
def Markup.contents (n : Nat) {scope : Scope} : Markup scope → Contents
  | nil => .nil
  | entry statement rest => .entry (statement.entry n) (rest.contents (n + 1))
  | node title inside rest =>
    .node title.header n (inside.contents (n + 1))
      (rest.contents (n + 1 + inside.lines.length + 1))

-- ---------------------------------------------------------------------------
-- Words
-- ---------------------------------------------------------------------------

/-- The characters of identifiers, type names and the names of keys. -/
def isWordChar (c : Char) : Bool :=
  isNameChar c || c == '-'

/-- The characters of type names are letters of words. -/
theorem isWordChar_of_isElementChar {c : Char} (h : Token.isElementChar c = true) :
    isWordChar c = true := by
  simp only [Token.isElementChar, Bool.or_eq_true, beq_iff_eq] at h
  rcases h with (h | h) | h
  · simp [isWordChar, isNameChar, isAlphanumeric_of_isAlphanum h]
  · simp [isWordChar, isNameChar, h]
  · simp [isWordChar, h]

/-- The characters of keys are those of names. -/
theorem isNameChar_of_isKeyChar {c : Char} (h : isKeyChar c = true) : isNameChar c = true := by
  simp only [isKeyChar, Bool.or_eq_true, beq_iff_eq] at h
  rcases h with (h | h) | h
  · simp [isNameChar, isAlphanumeric_of_isAlphanum h]
  · simp [isNameChar, h]
  · simp [isNameChar, h]

theorem isWordChar_of_isKeyChar {c : Char} (h : isKeyChar c = true) : isWordChar c = true := by
  rw [isWordChar, isNameChar_of_isKeyChar h, Bool.true_or]

/-- The code points of the blanks. -/
def blankPoints : List Nat :=
  [9, 10, 11, 12, 13, 32, 0x85, 0xa0, 0x1680, 0x2000, 0x2001, 0x2002, 0x2003, 0x2004, 0x2005,
    0x2006, 0x2007, 0x2008, 0x2009, 0x200a, 0x2028, 0x2029, 0x202f, 0x205f, 0x3000]

/-- The blanks have finitely many code points. -/
theorem toNat_mem_blankPoints {c : Char} (h : isBlank c = true) : c.toNat ∈ blankPoints := by
  simp only [isBlank, inRuns, List.any_cons, List.any_nil, Bool.or_eq_true, Bool.and_eq_true,
    decide_eq_true_eq, beq_iff_eq, Bool.false_eq_true, or_false] at h
  simp only [blankPoints, List.mem_cons, List.not_mem_nil, or_false]
  rcases h with (rfl | ⟨hFirst, hLast⟩) | h
  · decide
  · have hFirst : 9 ≤ c.toNat := hFirst
    have hLast : c.toNat ≤ 13 := hLast
    omega
  · omega

theorem all_blankPoints : blankPoints.all (fun n => !isWordChar (Char.ofNat n)) = true := by
  decide +kernel

/-- No letter of a word is blank. -/
theorem isBlank_of_isWordChar {c : Char} (h : isWordChar c = true) : isBlank c = false := by
  cases hBlank : isBlank c with
  | false => rfl
  | true =>
    have hNot := List.all_eq_true.mp all_blankPoints c.toNat (toNat_mem_blankPoints hBlank)
    rw [Char.ofNat_toNat, h] at hNot
    exact absurd hNot (by simp)

/-- The characters that are special somewhere on a line. -/
def specials : List Char :=
  ['"', '\x27', '\x60', '(', ')', '[', ']', '\x7b', '\x7d', '\n', '/', ';', ':', '@']

theorem all_specials : specials.all (fun c => !isWordChar c) = true := by
  decide +kernel

/-- No letter of a word has a meaning for the reader. -/
theorem not_mem_specials {c : Char} (h : isWordChar c = true) : c ∉ specials := by
  intro hMem
  have hNot := List.all_eq_true.mp all_specials c hMem
  rw [h] at hNot
  exact absurd hNot (by simp)

/-- A scan passes over the letters of a word. -/
theorem isInert_of_isWordChar {c : Char} (h : isWordChar c = true) : isInert c = true := by
  have hSpecial := not_mem_specials h
  simp only [specials, List.mem_cons, List.not_mem_nil, not_or, or_false] at hSpecial
  simp [isInert, isQuote, isOpening, isClosing, hSpecial]

theorem isInert_eq_true_iff {c : Char} :
    isInert c = true ↔
      isQuote c = false ∧ isOpening c = false ∧ isClosing c = false ∧ c ≠ '\n' ∧ c ≠ '/' := by
  simp [isInert, and_assoc]

/-- Inert characters neither open nor close anything. -/
theorem balanced_of_isInert {cs : List Char} (h : ∀ c ∈ cs, isInert c = true ∧ c ≠ ';') :
    Balanced 0 cs := by
  induction cs with
  | nil => exact .nil
  | cons c rest ih =>
    obtain ⟨hInert, hSemicolon⟩ := h c List.mem_cons_self
    obtain ⟨hQuote, hOpening, hClosing, -, hSlash⟩ := isInert_eq_true_iff.mp hInert
    exact .plain hQuote hOpening hClosing hSemicolon (fun hComment => hSlash hComment.1)
      (ih fun d hd => h d (List.mem_cons_of_mem c hd))

/-- **Words are values.** -/
theorem writable_of_isWordChar {cs : List Char} (hNil : cs ≠ [])
    (h : ∀ c ∈ cs, isWordChar c = true) : Writable cs := by
  have hSpecial : ∀ d ∈ specials, d ∉ cs := fun d hd hMem => not_mem_specials (h d hMem) hd
  refine ⟨hNil, hSpecial _ (by decide), ?_, ?_, ?_, ?_, ?_⟩
  · intro c hc
    exact isBlank_of_isWordChar (h c (List.mem_of_mem_head? hc))
  · intro c hc
    have hMem := List.mem_of_mem_head? hc
    refine ⟨?_, ?_, ?_⟩ <;> rintro rfl <;> exact hSpecial _ (by decide) hMem
  · intro hComment
    exact hSpecial '/' (by decide) (hComment.subset List.mem_cons_self)
  · intro c hc
    exact isBlank_of_isWordChar (h c (List.mem_of_getLast? hc))
  · refine balanced_of_isInert fun c hc => ⟨isInert_of_isWordChar (h c hc), ?_⟩
    rintro rfl
    exact hSpecial _ (by decide) hc

/-- The name of a type can stand as a value. -/
theorem TypeName.writable (name : TypeName) : Writable name.text.toList := by
  have hValid := name.valid
  simp only [isTypeName, Bool.and_eq_true, List.all_eq_true] at hValid
  refine writable_of_isWordChar ?_ fun c hc => isWordChar_of_isElementChar (hValid.2 c hc)
  intro hNil
  rw [hNil] at hValid
  exact absurd hValid.1 (by simp)

/-- An identifier can stand as a value. -/
theorem Identifier.writable (name : Identifier) : Writable name.text.toList := by
  have hValid := name.valid
  unfold Draft.isIdentifier at hValid
  split at hValid
  · exact absurd hValid (by simp)
  next c rest hText =>
  simp only [Bool.and_eq_true, Bool.or_eq_true, beq_iff_eq, List.all_eq_true] at hValid
  rw [hText]
  refine writable_of_isWordChar (by simp) fun d hd => ?_
  rcases List.mem_cons.mp hd with rfl | hMem
  · -- the first character is a name character, too
    rcases hValid.1 with (hLetter | hMark) | hMark
    · simp [isWordChar, isNameChar, isAlphanumeric, hLetter]
    · simp [isWordChar, isNameChar, hMark]
    · simp [isWordChar, isNameChar, hMark]
  · simp [isWordChar, hValid.2 d hMem]

theorem IsKey.isWordChar {name : String} {params : Option String} (h : IsKey name params) :
    ∀ c ∈ name.toList, isWordChar c = true := fun c hc =>
  isWordChar_of_isKeyChar (List.all_eq_true.mp h.chars c hc)

/-- What a statement writes before its colon. -/
theorem Statement.exists_key (statement : Statement) :
    ∃ name params, statement.key = keyText name params ∧ IsKey name params := by
  cases statement with
  | id name => exact ⟨"id", none, rfl, by decide, by decide, by simp⟩
  | property key value => exact ⟨_, _, rfl, key.valid⟩
  | delegate key target => exact ⟨_, _, rfl, key.valid⟩

/-- What a statement writes behind its colon. -/
theorem Statement.writable (statement : Statement) : Writable statement.value.toList := by
  cases statement with
  | id name => exact name.writable
  | property key value => exact value.writable
  | delegate key target => exact target.writable

end BindingMarkup
