import BindingMarkup.Proofs.JsonReader
import BindingMarkup.Script.Unit

/-!
# BindingMarkup — reading string literals back

Keys, ids and method names reach the script between double quotes. What the
script does with such a name depends on two things: that the literal ends
where it was meant to end, and that it stands for the name. Both are facts
about a reader of literals, and here is one (`readLiteral`). It knows the
escapes of the quote, the backslash and the three line controls, and the
code of four hexadecimal digits; every other character stands for itself.

* `readInside_literalChar` — one character is read back from the way it is
  written, whatever follows. Digits behind a code belong to the text, since
  a code has four digits always.
* `isEscaped_of_split` — a quote inside a literal has a backslash in front
  of it that is not escaped itself.
* `isLiteralOf_literal` — so a literal ends with its last character and
  stands for its text.

`literal_intact` has the statement, also for the lines of a script in which
literals stand.
-/

namespace BindingMarkup

namespace Text

-- ---------------------------------------------------------------------------
-- The reader
-- ---------------------------------------------------------------------------

/-- The value of a hexadecimal digit, small or capital. -/
def hexValue? (c : Char) : Option Nat :=
  Json.digitValue? 16 c.toLower

/-- The character that four hexadecimal digits number, unless it is half of a pair. -/
def codeChar? (a b c d : Char) : Option Char := do
  let n := 0x1000 * (← hexValue? a) + 0x100 * (← hexValue? b) + 0x10 * (← hexValue? c) +
    (← hexValue? d)
  if n.isValidChar then some (Char.ofNat n) else none

/-- The character for which another one stands behind a backslash. -/
def shortEscape? (c : Char) : Option Char :=
  if c = '"' ∨ c = '\\' then some c
  else if c = 'n' then some '\n'
  else if c = 'r' then some '\r'
  else if c = 't' then some '\t'
  else none

/-- Reads on behind the opening quote: the text up to the closing quote, and what follows
that. -/
def readInside : List Char → Option (List Char × List Char)
  | [] => none
  | '"' :: back => some ([], back)
  | '\\' :: 'u' :: a :: b :: c :: d :: rest =>
    (codeChar? a b c d).bind fun e => (readInside rest).map (Prod.map (e :: ·) id)
  | '\\' :: c :: rest =>
    (shortEscape? c).bind fun e => (readInside rest).map (Prod.map (e :: ·) id)
  | ['\\'] => none
  | c :: rest => (readInside rest).map (Prod.map (c :: ·) id)

/-- The text of the literal at the front, and what follows the literal. -/
def readLiteral : List Char → Option (String × List Char)
  | '"' :: rest => (readInside rest).map (Prod.map String.ofList id)
  | _ => none

-- ---------------------------------------------------------------------------
-- One character
-- ---------------------------------------------------------------------------

/-- Four digits are read as the character that they number. -/
theorem readInside_code {c : Char} (h : c.toNat < 0x10000) (rest : List Char) :
    readInside ('\\' :: 'u' :: (hex4 c.toNat ++ rest)) =
      (readInside rest).map (Prod.map (c :: ·) id) := by
  have hDigit : ∀ d < 16, hexValue? (Nat.digitChar d) = some d := by decide
  have hWhole : 0x1000 * (c.toNat / 0x1000 % 16) + 0x100 * (c.toNat / 0x100 % 16) +
      0x10 * (c.toNat / 0x10 % 16) + c.toNat % 16 = c.toNat := by omega
  have hCode : codeChar? (Nat.digitChar (c.toNat / 0x1000 % 16))
      (Nat.digitChar (c.toNat / 0x100 % 16)) (Nat.digitChar (c.toNat / 0x10 % 16))
      (Nat.digitChar (c.toNat % 16)) = some c := by
    have hValid : c.toNat.isValidChar := c.valid
    simp [codeChar?, hDigit _ (Nat.mod_lt _ (by decide)), hWhole, hValid]
  show readInside ('\\' :: 'u' :: _ :: _ :: _ :: _ :: rest) = _
  rw [readInside, hCode]
  rfl

/-- A character without a meaning of its own stands for itself. -/
theorem readInside_plain {c : Char} (hQuote : c ≠ '"') (hBackslash : c ≠ '\\')
    (rest : List Char) :
    readInside (c :: rest) = (readInside rest).map (Prod.map (c :: ·) id) := by
  rw [readInside]
  · exact hQuote
  · exact fun _ _ _ _ _ hEq => absurd hEq hBackslash
  · exact fun _ _ hEq => absurd hEq hBackslash
  · exact fun hEq => absurd hEq hBackslash

/-- The codes of the control characters have four digits. -/
theorem toNat_lt_of_isControl {c : Char} (h : isControl c = true) : c.toNat < 0x10000 := by
  simp only [isControl, Bool.or_eq_true, Bool.and_eq_true, decide_eq_true_eq] at h
  omega

/-- **A character is read back** from the way it is written, whatever follows. -/
theorem readInside_literalChar (c : Char) (rest : List Char) :
    readInside (literalChar c ++ rest) = (readInside rest).map (Prod.map (c :: ·) id) := by
  unfold literalChar
  split
  · next h => rw [h]; rfl
  next hQuote =>
  split
  · next h => rw [h]; rfl
  next hBackslash =>
  split
  · next h => rw [h]; rfl
  split
  · next h => rw [h]; rfl
  split
  · next h => rw [h]; rfl
  split
  · next hControl => exact readInside_code (toNat_lt_of_isControl hControl) rest
  · exact readInside_plain hQuote hBackslash rest

/-- A text is read back up to the closing quote. -/
theorem readInside_flatMap (cs back : List Char) :
    readInside (cs.flatMap literalChar ++ '"' :: back) = some (cs, back) := by
  induction cs with
  | nil => rfl
  | cons c rest ih =>
    rw [List.flatMap_cons, List.append_assoc, readInside_literalChar, ih]
    rfl

-- ---------------------------------------------------------------------------
-- Between the quotes
-- ---------------------------------------------------------------------------

/-- Whether the character behind a text is escaped: there is a backslash before it that is
not escaped itself. -/
def isEscaped (front : List Char) : Bool :=
  front.foldl (fun escaped c => !escaped && c == '\\') false

/-- A character is escaped by a backslash that is not escaped itself. -/
theorem isEscaped_concat (front : List Char) (c : Char) :
    isEscaped (front ++ [c]) = (!isEscaped front && c == '\\') := by
  rw [isEscaped, List.foldl_append]
  rfl

/-- What is no backslash escapes nothing. -/
theorem isEscaped_append {front back : List Char} (hFront : isEscaped front = false)
    (hBack : '\\' ∉ back) : isEscaped (front ++ back) = false := by
  induction back generalizing front with
  | nil => rwa [List.append_nil]
  | cons c rest ih =>
    rw [List.mem_cons, not_or] at hBack
    rw [List.append_cons]
    refine ih ?_ hBack.2
    rw [isEscaped_concat, beq_eq_false_iff_ne.mpr (Ne.symm hBack.1), Bool.and_false]

/-- A character that can stand in a literal by itself. -/
structure IsPlain (c : Char) : Prop where
  ne_quote : c ≠ '"'
  ne_backslash : c ≠ '\\'
  not_control : isControl c = false

/-- Hexadecimal digits are plain. -/
theorem isPlain_of_mem_hex4 {c : Char} {n : Nat} (h : c ∈ hex4 n) : IsPlain c := by
  have hDigit : ∀ d < 16, Nat.digitChar d ≠ '"' ∧ Nat.digitChar d ≠ '\\' ∧
      isControl (Nat.digitChar d) = false := by decide
  obtain ⟨d, hd, rfl⟩ := exists_of_mem_hex4 h
  exact ⟨(hDigit d hd).1, (hDigit d hd).2.1, (hDigit d hd).2.2⟩

/-- A character is written as it is, or as a backslash, one character of any kind, and
plain ones. -/
theorem literalChar_cases (c : Char) :
    (literalChar c = [c] ∧ IsPlain c) ∨
      ∃ d more, literalChar c = '\\' :: d :: more ∧ isControl d = false ∧
        ∀ e ∈ more, IsPlain e := by
  unfold literalChar
  split
  · exact .inr ⟨_, _, rfl, by decide, List.forall_mem_nil _⟩
  next hQuote =>
  split
  · exact .inr ⟨_, _, rfl, by decide, List.forall_mem_nil _⟩
  next hBackslash =>
  split
  · exact .inr ⟨_, _, rfl, by decide, List.forall_mem_nil _⟩
  split
  · exact .inr ⟨_, _, rfl, by decide, List.forall_mem_nil _⟩
  split
  · exact .inr ⟨_, _, rfl, by decide, List.forall_mem_nil _⟩
  split
  · exact .inr ⟨_, _, rfl, by decide, fun _ he => isPlain_of_mem_hex4 he⟩
  · next hControl => exact .inl ⟨rfl, hQuote, hBackslash, by simpa using hControl⟩

/-- Behind a character that is written down nothing is escaped. -/
theorem isEscaped_append_literalChar {front : List Char} (h : isEscaped front = false)
    (c : Char) : isEscaped (front ++ literalChar c) = false := by
  rcases literalChar_cases c with ⟨hSelf, hPlain⟩ | ⟨d, more, hEscape, -, hMore⟩
  · rw [hSelf]
    exact isEscaped_append h (by simpa using hPlain.ne_backslash.symm)
  · have hPair : isEscaped (front ++ ['\\'] ++ [d]) = false := by
      rw [isEscaped_concat, isEscaped_concat, h]
      rfl
    rw [hEscape, List.append_cons, List.append_cons]
    exact isEscaped_append hPair fun hMem => (hMore _ hMem).ne_backslash rfl

/-- In one character that is written down, a quote stands behind the backslash only. -/
theorem eq_of_literalChar_eq {c : Char} {front back : List Char}
    (h : literalChar c = front ++ '"' :: back) : front = ['\\'] := by
  rcases literalChar_cases c with ⟨hSelf, hPlain⟩ | ⟨d, more, hEscape, -, hMore⟩
  · have hMem : '"' ∈ literalChar c := by simp [h]
    rw [hSelf, List.mem_singleton] at hMem
    exact absurd hMem.symm hPlain.ne_quote
  · rw [hEscape] at h
    match front, h with
    | [], h => exact absurd (List.cons.inj h).1 (by decide)
    | [e], h => rw [(List.cons.inj h).1]
    | e :: f :: rest, h =>
      obtain ⟨-, hTail⟩ := List.cons.inj (List.cons.inj h).2
      exact absurd rfl (hMore '"' (by simp [hTail])).ne_quote

/-- **Every quote inside is escaped.** -/
theorem isEscaped_of_split {cs back : List Char} (before front : List Char)
    (hBefore : isEscaped before = false)
    (h : cs.flatMap literalChar = front ++ '"' :: back) : isEscaped (before ++ front) = true := by
  induction cs generalizing before front with
  | nil => exact absurd h (by simp)
  | cons c rest ih =>
    rw [List.flatMap_cons] at h
    -- the quote is in what is written for `c`, or behind it
    rcases List.append_eq_append_iff.mp h with ⟨more, rfl, hMore⟩ | ⟨more, hMore, hBack⟩
    · rw [← List.append_assoc]
      exact ih _ more (isEscaped_append_literalChar hBefore c) hMore
    · cases more with
      | nil =>
        rw [List.append_nil] at hMore
        have hRest := ih _ [] (isEscaped_append_literalChar hBefore c) hBack.symm
        rwa [List.append_nil, hMore] at hRest
      | cons d more =>
        obtain ⟨rfl, -⟩ := List.cons.inj hBack
        rw [eq_of_literalChar_eq hMore, isEscaped_concat, hBefore]
        rfl

/-- Behind a text that is written down nothing is escaped. -/
theorem isEscaped_flatMap (before cs : List Char) (h : isEscaped before = false) :
    isEscaped (before ++ cs.flatMap literalChar) = false := by
  induction cs generalizing before with
  | nil => rwa [List.flatMap_nil, List.append_nil]
  | cons c rest ih =>
    rw [List.flatMap_cons, ← List.append_assoc]
    exact ih _ (isEscaped_append_literalChar h c)

/-- No control character is written as it is. -/
theorem not_isControl_of_mem {cs : List Char} {c : Char} (h : c ∈ cs.flatMap literalChar) :
    isControl c = false := by
  obtain ⟨d, -, hMem⟩ := List.mem_flatMap.mp h
  rcases literalChar_cases d with ⟨hSelf, hPlain⟩ | ⟨e, more, hEscape, hControl, hMore⟩
  · rw [hSelf, List.mem_singleton] at hMem
    exact hMem ▸ hPlain.not_control
  · rw [hEscape] at hMem
    rcases List.mem_cons.mp hMem with rfl | hMem
    · decide
    rcases List.mem_cons.mp hMem with rfl | hMem
    · exact hControl
    · exact (hMore c hMem).not_control

-- ---------------------------------------------------------------------------
-- Literals
-- ---------------------------------------------------------------------------

/-- What makes a piece of script a literal for a text. Whatever follows it, it is read up to
its last character and gives the text. Between its quotes every quote is escaped, the closing
quote is not, and there are no control characters. -/
structure IsLiteralOf (code : List Char) (text : String) : Prop where
  reads : ∀ back, readLiteral (code ++ back) = some (text, back)
  quoted : ∃ body, code = '"' :: body ++ ['"'] ∧ isEscaped body = false ∧
    (∀ front back, body = front ++ '"' :: back → isEscaped front = true) ∧
    ∀ c ∈ body, 0x20 ≤ c.toNat ∧ (c.toNat < 0x7f ∨ 0x9f < c.toNat)

/-- A literal is read back as its text, and no quote inside it can be taken for its end. -/
theorem isLiteralOf_literal (text : String) : IsLiteralOf (literal text).toList text where
  reads back := by
    rw [literal, String.toList_ofList, literalChars, List.append_assoc, List.cons_append]
    show (readInside (text.toList.flatMap literalChar ++ '"' :: back)).map _ = _
    rw [readInside_flatMap]
    simp
  quoted := by
    rw [literal, String.toList_ofList]
    refine ⟨text.toList.flatMap literalChar, rfl, ?_, fun front back hSplit => ?_, fun c hc => ?_⟩
    · exact isEscaped_flatMap [] text.toList rfl
    · exact isEscaped_of_split [] front rfl hSplit
    · have hControl := not_isControl_of_mem hc
      simp only [isControl, Bool.or_eq_false_iff, Bool.and_eq_false_iff, decide_eq_false_iff_not]
        at hControl
      omega

-- the digit behind a code is a character of the text
example : literal "\x01f\"" = "\"\\u0001f\\\"\"" ∧
    readLiteral "\"\\u0001f\\\"\" + 1".toList = some ("\x01f\"", " + 1".toList) := by
  decide

/-- A literal stands for one text. -/
theorem IsLiteralOf.unique {code : List Char} {text other : String} (h : IsLiteralOf code text)
    (hOther : IsLiteralOf code other) : text = other := by
  have hSame := (h.reads []).symm.trans (hOther.reads [])
  exact (Prod.mk.inj (Option.some.inj hSame)).1

/-- Different texts have different literals. -/
theorem literal_injective : Function.Injective literal := by
  intro text other hEq
  have hOther := isLiteralOf_literal other
  rw [← hEq] at hOther
  exact (isLiteralOf_literal text).unique hOther

end Text

-- ---------------------------------------------------------------------------
-- Literals in a script
-- ---------------------------------------------------------------------------

namespace Script

open Text

/-- The statement is `front`, a literal for the name, and `back`. -/
def Quotes (statement front name back : String) : Prop :=
  ∃ code, statement.toList = front.toList ++ code ++ back.toList ∧ IsLiteralOf code name

theorem quotes_append (front name back : String) :
    Quotes (front ++ literal name ++ back) front name back := by
  refine ⟨(literal name).toList, ?_, isLiteralOf_literal name⟩
  rw [String.toList_append, String.toList_append]

/-- A call quotes the name that it attaches. -/
theorem quotes_attachCall (method name params body : String) :
    Quotes (attachCall method name params body) ("elem." ++ method ++ "(") name
      (", function (" ++ params ++ ") \x7b " ++ body ++ " \x7d);") := by
  have hParts := quotes_append ("elem." ++ method ++ "(") name
    (", function (" ++ params ++ ") \x7b " ++ body ++ " \x7d);")
  simpa only [attachCall, String.append_assoc] using hParts

/-- The name under which a property is attached. -/
def attachedName (key : String) : String :=
  match Binding.classify key with
  | .handler name _ => name
  | .method name _ => name
  | .property => key

/-- The statement of a property quotes its key without the parameters. -/
theorem quotes_propertyStatement (p : Property) :
    ∃ method params body,
      method ∈ ["addEventHandler", "addFunction", "addProperty"] ∧
      Quotes (propertyStatement p) ("elem." ++ method ++ "(") (attachedName p.name)
        (", function (" ++ params ++ ") \x7b " ++ body ++ " \x7d);") := by
  unfold propertyStatement attachedName
  cases Binding.classify p.name with
  | handler name params => exact ⟨_, _, _, by simp, quotes_attachCall ..⟩
  | method name params => exact ⟨_, _, _, by simp, quotes_attachCall ..⟩
  | property => exact ⟨_, _, _, by simp, quotes_attachCall ..⟩

/-- The statement of a delegate quotes the name of its factory. -/
theorem quotes_delegateStatement (d : Delegate) :
    Quotes (delegateStatement d) "elem.addFunction(" (factoryName d.name)
      (", function () \x7b return new " ++ d.target ++ "(\"\", elem); \x7d);") := by
  have hCall := quotes_attachCall "addFunction" (factoryName d.name) ""
    ("return new " ++ d.target ++ "(\"\", elem);")
  have hFront : "elem." ++ "addFunction" ++ "(" = "elem.addFunction(" := by decide
  have hBack : ", function (" ++ "" ++ ") \x7b " ++
      ("return new " ++ d.target ++ "(\"\", elem);") ++ " \x7d);" =
      ", function () \x7b return new " ++ d.target ++ "(\"\", elem); \x7d);" :=
    String.toList_inj.mp (by simp)
  rw [hFront, hBack] at hCall
  exact hCall

/-- The construction of an element quotes its id. -/
theorem quotes_nodeConstruction {node : Node} (h : node.role = .element) :
    Quotes (nodeConstruction node) ("var elem = new " ++ node.typeName ++ "(") (node.id.getD "")
      ", parent);" := by
  have hParts := quotes_append ("var elem = new " ++ node.typeName ++ "(") (node.id.getD "")
    ", parent);"
  unfold nodeConstruction
  rw [h]
  exact hParts

/-- **Literals stand for their texts.** A literal is read to its last character and gives its
text, and nothing between its quotes can end it. So different texts have different literals,
and no name breaks out of its literal in a statement: the key or the method name of a property,
the factory name of a delegate and the id of an element are read back from between the parts of
the statement that are written around them. -/
theorem literal_intact :
    (∀ text, IsLiteralOf (literal text).toList text) ∧
    Function.Injective literal ∧
    (∀ p : Property, ∃ method params body,
      method ∈ ["addEventHandler", "addFunction", "addProperty"] ∧
      Quotes (propertyStatement p) ("elem." ++ method ++ "(") (attachedName p.name)
        (", function (" ++ params ++ ") \x7b " ++ body ++ " \x7d);")) ∧
    (∀ d : Delegate,
      Quotes (delegateStatement d) "elem.addFunction(" (factoryName d.name)
        (", function () \x7b return new " ++ d.target ++ "(\"\", elem); \x7d);")) ∧
    ∀ node : Node, node.role = .element →
      Quotes (nodeConstruction node) ("var elem = new " ++ node.typeName ++ "(")
        (node.id.getD "") ", parent);" := by
  exact ⟨isLiteralOf_literal, literal_injective, quotes_propertyStatement,
    quotes_delegateStatement, fun _ => quotes_nodeConstruction⟩

/-- A label with an id. -/
def labelledNode : Node where
  id := some "ok"
  typeName := "Label"
  role := .element
  parent := some 0
  line := 1

theorem literal_intact_label :
    labelledNode.role = .element ∧
      Quotes (nodeConstruction labelledNode) "var elem = new Label(" "ok" ", parent);" :=
  ⟨rfl, literal_intact.2.2.2.2 labelledNode rfl⟩

end Script

end BindingMarkup
