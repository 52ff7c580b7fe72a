import BindingMarkup.Proofs.Clauses
import BindingMarkup.Proofs.Printing

/-!
# BindingMarkup — the brackets of the script

A function of the script is opened by one line and closed by another, and
what the document says is put between and into such lines as it is: names
and ids, values, and the parameters of methods. If these pieces are in
order, so is the script. What that means for a node is `Node.Nestable`:
names hold no brackets, values are nested, and a key has no brackets but
those of its parameters.

The brackets are followed along a text by the list of those that are due.
`Turns` says from which list to which a text takes it; such texts can be
put side by side (`Turns.append`), and a nested text leaves every list as
it is (`turns_of_isNested`). So each line of the script needs one
statement, and the whole is a walk over the nodes.

* `turns_nodeStrokes` — the strokes for a node close all that they open.
* `isNested_render` — the script of an outline of nestable nodes is nested.
-/

namespace BindingMarkup

open Text Script

-- ---------------------------------------------------------------------------
-- Brackets along a text
-- ---------------------------------------------------------------------------

def isBracket (c : Char) : Bool :=
  isOpening c || isClosing c

/-- A text without brackets. -/
def BracketFree (cs : List Char) : Prop :=
  ∀ c ∈ cs, isBracket c = false

instance (cs : List Char) : Decidable (BracketFree cs) :=
  decidable_of_iff (cs.all fun c => !isBracket c) (by simp [BracketFree])

theorem closer?_of_not_isOpening {c : Char} (h : isOpening c = false) : closer? c = none := by
  rw [isOpening_eq_isSome_closer?] at h
  exact Option.not_isSome_iff_eq_none.mp (by simp [h])

/-- The closing brackets that are due behind one more character, unless it closes what is
not due. -/
def dueStep (due : List Char) (c : Char) : Option (List Char) :=
  match closer? c with
  | some d => some (d :: due)
  | none =>
    if isClosing c then
      match due with
      | [] => none
      | d :: more => if c = d then some more else none
    else some due

/-- The text takes the closing brackets that are due before it to those that are due
behind it, in both lists the innermost first. -/
def Turns (before cs behind : List Char) : Prop :=
  cs.foldlM dueStep before = some behind

/-- One step of a walk over brackets. -/
theorem turns_cons_iff {due rest behind : List Char} {c : Char} :
    Turns due (c :: rest) behind ↔ ∃ next, dueStep due c = some next ∧ Turns next rest behind := by
  unfold Turns
  rw [List.foldlM_cons]
  exact Option.bind_eq_some_iff

/-- A text goes on with what the text before it leaves due. -/
theorem Turns.append {before between behind front back : List Char}
    (hFront : Turns before front between) (hBack : Turns between back behind) :
    Turns before (front ++ back) behind := by
  unfold Turns at hFront hBack ⊢
  rw [List.foldlM_append, hFront]
  exact hBack

/-- A character opens a bracket, closes the one that is due, or is none. -/
theorem dueStep_eq_some_iff {due next : List Char} {c : Char} :
    dueStep due c = some next ↔
      (∃ d, closer? c = some d ∧ next = d :: due) ∨
        (closer? c = none ∧ isClosing c = true ∧ due = c :: next) ∨
        (closer? c = none ∧ isClosing c = false ∧ next = due) := by
  unfold dueStep
  cases hCloser : closer? c with
  | some d => simp [@eq_comm _ next]
  | none =>
    cases hClosing : isClosing c with
    | false => simp [@eq_comm _ next]
    | true =>
      cases due with
      | nil => simp
      | cons d more => simp [@eq_comm _ d]

/-- Brackets that wait outside do not matter. -/
theorem Turns.frame {before cs behind : List Char} (h : Turns before cs behind)
    (outside : List Char) : Turns (before ++ outside) cs (behind ++ outside) := by
  induction cs generalizing before with
  | nil =>
    obtain rfl : before = behind := Option.some.inj h
    rfl
  | cons c rest ih =>
    obtain ⟨next, hNext, hRest⟩ := turns_cons_iff.mp h
    refine turns_cons_iff.mpr ⟨next ++ outside, ?_, ih hRest⟩
    rw [dueStep_eq_some_iff] at hNext ⊢
    rcases hNext with ⟨d, hCloser, rfl⟩ | ⟨hCloser, hClosing, rfl⟩ | ⟨hCloser, hClosing, rfl⟩
    · exact .inl ⟨d, hCloser, rfl⟩
    · exact .inr (.inl ⟨hCloser, hClosing, rfl⟩)
    · exact .inr (.inr ⟨hCloser, hClosing, rfl⟩)

/-- Nested brackets leave nothing due. -/
theorem nestedFrom_iff_turns {due cs : List Char} : nestedFrom due cs = true ↔ Turns due cs [] := by
  induction cs generalizing due with
  | nil => simp [nestedFrom, Turns]
  | cons c rest ih =>
    simp only [turns_cons_iff, dueStep_eq_some_iff, ← ih]
    constructor
    · intro h
      obtain ⟨d, hCloser, hRest⟩ | ⟨more, hClosing, rfl, hRest⟩ | ⟨hOpening, hClosing, hRest⟩ :=
        nestedFrom_cons h
      · exact ⟨_, .inl ⟨d, hCloser, rfl⟩, hRest⟩
      · have hCloser := closer?_of_not_isOpening (Token.isClosing_cases hClosing).2
        exact ⟨_, .inr (.inl ⟨hCloser, hClosing, rfl⟩), hRest⟩
      · exact ⟨_, .inr (.inr ⟨closer?_of_not_isOpening hOpening, hClosing, rfl⟩), hRest⟩
    · rintro ⟨next, ⟨d, hCloser, rfl⟩ | ⟨hCloser, hClosing, rfl⟩ | ⟨hCloser, hClosing, rfl⟩, hRest⟩
      all_goals unfold nestedFrom
      · simpa [hCloser] using hRest
      · simpa [hCloser, hClosing] using hRest
      · simpa [hCloser, hClosing] using hRest

/-- **A nested text closes what it opens**, whatever is due around it. -/
theorem turns_of_isNested {cs : List Char} (h : isNested cs = true) (due : List Char) :
    Turns due cs due :=
  (nestedFrom_iff_turns.mp h).frame due

/-- A text without brackets is nested. -/
theorem isNested_of_bracketFree {cs : List Char} (h : BracketFree cs) : isNested cs = true := by
  refine nestedFrom_iff_turns.mpr ?_
  induction cs with
  | nil => rfl
  | cons c rest ih =>
    obtain ⟨hHere, hRest⟩ := List.forall_mem_cons.mp h
    obtain ⟨hOpening, hClosing⟩ := Bool.or_eq_false_iff.mp hHere
    refine turns_cons_iff.mpr ⟨[], dueStep_eq_some_iff.mpr (.inr (.inr ?_)), ih hRest⟩
    exact ⟨closer?_of_not_isOpening hOpening, hClosing, rfl⟩

/-- A text without brackets leaves all as it was. -/
theorem BracketFree.turns {cs : List Char} (h : BracketFree cs) (due : List Char) :
    Turns due cs due :=
  turns_of_isNested (isNested_of_bracketFree h) due

theorem BracketFree.append {front back : List Char} (hFront : BracketFree front)
    (hBack : BracketFree back) : BracketFree (front ++ back) :=
  List.forall_mem_append.mpr ⟨hFront, hBack⟩

theorem BracketFree.flatMap {α : Type} {items : List α} {text : α → List Char}
    (h : ∀ item ∈ items, BracketFree (text item)) : BracketFree (items.flatMap text) := by
  intro c hc
  obtain ⟨item, hItem, hMem⟩ := List.mem_flatMap.mp hc
  exact h item hItem c hMem

/-- What holds of none of the six brackets holds of no bracket. -/
theorem isBracket_of_class {p : Char → Bool} (h : "()[]\x7b\x7d".toList.any p = false) {c : Char}
    (hc : p c = true) : isBracket c = false := by
  refine Bool.eq_false_iff.mpr fun hBracket => List.any_eq_false.mp h c ?_ hc
  simp only [isBracket, isOpening, isClosing, Bool.or_eq_true, beq_iff_eq] at hBracket
  rcases hBracket with ((rfl | rfl) | rfl) | ((rfl | rfl) | rfl)
  all_goals decide

/-- A trim takes no brackets away. -/
theorem exists_trim (cs : List Char) :
    ∃ front back, cs = front ++ trim cs ++ back ∧ BracketFree front ∧ BracketFree back := by
  obtain ⟨back, hParts, hBack⟩ := exists_trimEnd_append (trimStart cs)
  have hFront : cs.takeWhile isBlank ++ trimStart cs = cs := List.takeWhile_append_dropWhile
  have hBlank {c : Char} (h : isBlank c = true) : isBracket c = false :=
    isBracket_of_class (p := isBlank) (by decide) h
  refine ⟨cs.takeWhile isBlank, back, ?_, fun c hc => ?_, fun c hc => ?_⟩
  · rw [trim, List.append_assoc, ← hParts, hFront]
  · exact hBlank (List.mem_takeWhile_imp hc)
  · exact hBlank (hBack c hc)

/-- A trim brings no brackets in. -/
theorem BracketFree.trim {cs : List Char} (h : BracketFree cs) : BracketFree (trim cs) := by
  obtain ⟨front, back, hParts, -, -⟩ := exists_trim cs
  intro c hc
  exact h c (by rw [hParts]; simp [hc])

/-- A trim takes only blanks away, so nested brackets stay nested. -/
theorem isNested_trim {cs : List Char} (h : isNested cs = true) : isNested (trim cs) = true := by
  obtain ⟨front, back, hParts, hFront, hBack⟩ := exists_trim cs
  have hAll : Turns [] (front ++ Text.trim cs ++ back) [] := by
    rw [← hParts]
    exact turns_of_isNested h []
  unfold Turns at hAll
  rw [List.foldlM_append, List.foldlM_append, hFront.turns []] at hAll
  obtain ⟨due, hDue, hRest⟩ := Option.bind_eq_some_iff.mp hAll
  obtain rfl : due = [] := Option.some.inj ((hBack.turns due).symm.trans hRest)
  exact nestedFrom_iff_turns.mpr hDue

-- ---------------------------------------------------------------------------
-- Texts made of names
-- ---------------------------------------------------------------------------

theorem bracketFree_hex4 (n : Nat) : BracketFree (hex4 n) := by
  have hDigit : ∀ k < 16, isBracket (Nat.digitChar k) = false := by decide
  intro c hc
  obtain ⟨d, hd, rfl⟩ := exists_of_mem_hex4 hc
  exact hDigit d hd

/-- No character is written with a bracket, unless it is one. -/
theorem bracketFree_literalChar {c : Char} (h : isBracket c = false) :
    BracketFree (literalChar c) := by
  unfold literalChar
  split_ifs
  · decide
  · decide
  · decide
  · decide
  · decide
  · exact BracketFree.append (show BracketFree ['\\', 'u'] by decide) (bracketFree_hex4 _)
  · intro d hd
    rwa [List.mem_singleton.mp hd]

/-- A literal has the brackets of its text. -/
theorem bracketFree_literal {s : String} (h : BracketFree s.toList) :
    BracketFree (literal s).toList := by
  have hChars : BracketFree (s.toList.flatMap literalChar) :=
    .flatMap fun c hc => bracketFree_literalChar (h c hc)
  rw [literal, String.toList_ofList, literalChars]
  exact BracketFree.append (BracketFree.append (show BracketFree ['"'] by decide) hChars)
    (by decide)

/-- Every bracket is an ASCII character. -/
theorem isBracket_ofNat {n : Nat} (h : 128 ≤ n) : isBracket (Char.ofNat n) = false := by
  by_cases hValid : n.isValidChar
  · have hSame : (Char.ofNat n).toNat = n := by
      unfold Char.ofNat
      rw [dif_pos hValid]
      rfl
    exact isBracket_of_class (p := fun c => decide (128 ≤ c.toNat)) (by decide)
      (decide_eq_true (by omega))
  · -- what is no code point reads as the null character
    have hNull : Char.ofNat n = '\x00' := by
      unfold Char.ofNat
      rw [dif_neg hValid]
      rfl
    rw [hNull]
    decide

/-- No letter becomes a bracket when it is raised. In the tables of the uppercase forms the
ASCII ones stand alone. -/
theorem bracketFree_capital {c : Char} (h : isBracket c = false) : BracketFree (capital c) := by
  have hAscii : ∀ n < 128, isBracket (Char.ofNat n) = false →
      isBracket (Char.ofNat n).toUpper = false := by decide +kernel
  have hExpansions : ∀ entry ∈ capitalExpansions, BracketFree (entry.2.map Char.ofNat) := by
    decide +kernel
  have hRuns : ∀ run ∈ capitalRuns,
      128 ≤ run.2.2.2 ∨ run.1 = run.2.1 ∧ isBracket (Char.ofNat run.2.2.2) = false := by
    decide +kernel
  unfold capital
  split
  · next hSmall =>
    have hUpper := hAscii c.toNat hSmall
    rw [Char.ofNat_toNat] at hUpper
    intro d hd
    rw [List.mem_singleton.mp hd]
    exact hUpper h
  split
  · next form hForm =>
    obtain ⟨before, behind, hTable, -⟩ := List.lookup_eq_some_iff.mp hForm
    exact hExpansions (c.toNat, form) (by rw [hTable]; simp)
  split
  · next first last step form hRun =>
    have hMem := List.mem_of_find?_eq_some hRun
    have hSteps := List.find?_some hRun
    simp only [onSteps, Bool.and_eq_true, decide_eq_true_eq] at hSteps
    intro d hd
    rw [List.mem_singleton.mp hd]
    -- the forms of a run go up from the first one, so all of them are outside of ASCII
    rcases hRuns _ hMem with hWide | ⟨hSingle, hForm⟩
    · exact isBracket_ofNat (by simp only at hWide; omega)
    · simp only at hSingle hForm
      rw [show form + (c.toNat - first) = form by omega]
      exact hForm
  · intro d hd
    rwa [List.mem_singleton.mp hd]

/-- A factory has the brackets of its name. -/
theorem bracketFree_factoryName {name : String} (h : BracketFree name.toList) :
    BracketFree (factoryName name).toList := by
  rw [factoryName, String.toList_append]
  refine BracketFree.append (by decide) ?_
  cases hName : name.toList with
  | nil => exact List.forall_mem_nil _
  | cons c rest =>
    rw [hName] at h
    rw [String.toList_ofList, capitalize]
    obtain ⟨hFirst, hRest⟩ := List.forall_mem_cons.mp h
    exact (bracketFree_capital hFirst).append hRest

/-- The declaration of ids without brackets. -/
theorem bracketFree_declare {ids : List String} (h : ∀ id ∈ ids, BracketFree id.toList) :
    BracketFree (Stroke.declare ids).text.toList := by
  have hIds : BracketFree (", ".intercalate ids).toList := by
    induction ids with
    | nil => decide
    | cons id ids ih =>
      obtain ⟨hHere, hMore⟩ := List.forall_mem_cons.mp h
      cases ids with
      | nil => simpa using hHere
      | cons next ids =>
        rw [String.intercalate_cons_cons, String.toList_append, String.toList_append]
        exact (hHere.append (by decide)).append (ih hMore)
  rw [Stroke.text, String.toList_append, String.toList_append]
  exact (BracketFree.append (by decide) hIds).append (by decide)

-- ---------------------------------------------------------------------------
-- Entries
-- ---------------------------------------------------------------------------

/-- A key without brackets, or a name without brackets and nested parameters. -/
def NestableKey (key : String) : Prop :=
  BracketFree key.toList ∨ ∃ name params, key.toList = name ++ '(' :: (params ++ [')']) ∧
    BracketFree name ∧ isNested params = true

/-- A node whose names have no brackets and whose values are nested. -/
structure Node.Nestable (node : Node) : Prop where
  id : ∀ id ∈ node.id, BracketFree id.toList
  typeName : BracketFree node.typeName.toList
  base : ∀ base ∈ node.role.base?, BracketFree base.toList
  keys : ∀ p ∈ node.properties, NestableKey p.name
  values : ∀ p ∈ node.properties, isNested p.value.toList = true
  delegates : ∀ d ∈ node.delegates, BracketFree d.name.toList ∧ BracketFree d.target.toList

/-- The last closing parenthesis of a key is the one at its end. -/
theorem beforeLastChar?_concat (c : Char) (front : List Char) :
    beforeLastChar? c (front ++ [c]) = some front := by
  unfold beforeLastChar?
  induction front with
  | nil => simp [beforeLast?]
  | cons d front ih => rw [List.cons_append, beforeLast?, ih]

theorem splitAtFirst?_eq_none {c : Char} {cs : List Char} (h : c ∉ cs) :
    splitAtFirst? c cs = none := by
  have hSplit := Token.splitAtFirst?_of_not_mem h []
  rwa [List.append_nil] at hSplit

/-- The parts of a nestable key: a name, and parameters when it has brackets. -/
theorem signature_of_nestableKey {key : String} (h : NestableKey key) :
    BracketFree (Binding.signature key.toList).1 ∧
      (∀ params ∈ (Binding.signature key.toList).2, isNested params = true) ∧
      ((Binding.signature key.toList).2 = none → BracketFree key.toList) := by
  unfold Binding.signature
  rcases h with hFree | ⟨name, params, hKey, hName, hParams⟩
  · have hNone : '(' ∉ key.toList := fun hMem => absurd (hFree _ hMem) (by decide)
    rw [splitAtFirst?_eq_none hNone]
    exact ⟨hFree.trim, by simp, fun _ => hFree⟩
  · have hNone : '(' ∉ name := fun hMem => absurd (hName _ hMem) (by decide)
    rw [hKey, splitAtFirst?_append hNone]
    simp only [beforeLastChar?_concat, Option.getD_some]
    exact ⟨hName.trim, by simpa using isNested_trim hParams, by simp⟩

/-- A call is nested if the parts that it is made of are. -/
theorem turns_attachCall {method name params body : String} (hMethod : BracketFree method.toList)
    (hName : BracketFree name.toList) (hParams : isNested params.toList = true)
    (hBody : isNested body.toList = true) (due : List Char) :
    Turns due (attachCall method name params body).toList due := by
  unfold attachCall
  rw [String.toList_append, String.toList_append, String.toList_append, String.toList_append,
    String.toList_append, String.toList_append, String.toList_append, String.toList_append]
  have hElem : Turns due "elem.".toList due := rfl
  have hCall : Turns due ("elem.".toList ++ method.toList ++ "(".toList) (')' :: due) :=
    (hElem.append (hMethod.turns due)).append rfl
  have hLiteral := (bracketFree_literal hName).turns (')' :: due)
  have hHead : Turns (')' :: due) ", function (".toList (')' :: ')' :: due) := rfl
  have hInside := turns_of_isNested hParams (')' :: ')' :: due)
  have hOpen : Turns (')' :: ')' :: due) ") \x7b ".toList ('\x7d' :: ')' :: due) := rfl
  have hStatements := turns_of_isNested hBody ('\x7d' :: ')' :: due)
  have hClose : Turns ('\x7d' :: ')' :: due) " \x7d);".toList due := rfl
  exact (((((hCall.append hLiteral).append hHead).append hInside).append hOpen).append
    hStatements).append hClose

/-- The words around a value that is returned have no brackets. -/
theorem isNested_accessorBody {value : String} (h : isNested value.toList = true) :
    isNested (accessorBody value).toList = true := by
  unfold accessorBody
  split
  · exact h
  · refine nestedFrom_iff_turns.mpr ?_
    have hReturn : Turns [] "return ".toList [] := rfl
    rw [String.toList_append, String.toList_append]
    exact (hReturn.append (turns_of_isNested h [])).append rfl

/-- A semicolon behind the statements is no bracket. -/
theorem isNested_statementBody {value : String} (h : isNested value.toList = true) :
    isNested (statementBody value).toList = true := by
  have hBody := isNested_trim h
  unfold statementBody
  simp only
  split
  · rfl
  split
  · rwa [String.toList_ofList]
  · rw [String.toList_ofList]
    exact nestedFrom_iff_turns.mpr ((turns_of_isNested hBody []).append rfl)

/-- The statement of a property leaves no bracket due. -/
theorem turns_propertyStatement {p : Property} (hKey : NestableKey p.name)
    (hValue : isNested p.value.toList = true) (due : List Char) :
    Turns due (propertyStatement p).toList due := by
  obtain ⟨hName, hParams, hPlain⟩ := signature_of_nestableKey hKey
  have hBody := isNested_statementBody hValue
  unfold propertyStatement Binding.classify
  obtain ⟨name, params, hParts⟩ : ∃ name params, Binding.signature p.name.toList = (name, params) :=
    ⟨_, _, rfl⟩
  rw [hParts] at hName hParams hPlain ⊢
  dsimp only at hName hParams hPlain ⊢
  -- a handler has parameters or none, a method has them, a property has none
  cases hOn : ['o', 'n'].isPrefixOf name with
  | true =>
    have hNested : isNested (params.getD []) = true := by
      cases params with
      | none => rfl
      | some params => exact hParams params rfl
    exact turns_attachCall (by decide) (by simpa using hName) (by simpa using hNested) hBody due
  | false =>
    cases params with
    | none =>
      exact turns_attachCall (by decide) (hPlain rfl) (by decide) (isNested_accessorBody hValue) due
    | some params =>
      exact turns_attachCall (by decide) (by simpa using hName)
        (by simpa using hParams params rfl) hBody due

/-- The statement of a delegate leaves no bracket due. -/
theorem turns_delegateStatement {d : Delegate} (hName : BracketFree d.name.toList)
    (hTarget : BracketFree d.target.toList) (due : List Char) :
    Turns due (delegateStatement d).toList due := by
  refine turns_attachCall (by decide) (bracketFree_factoryName hName) (by decide) ?_ due
  refine nestedFrom_iff_turns.mpr ?_
  have hNew : Turns [] "return new ".toList [] := rfl
  rw [String.toList_append, String.toList_append]
  exact (hNew.append (hTarget.turns [])).append rfl

-- ---------------------------------------------------------------------------
-- Strokes
-- ---------------------------------------------------------------------------

/-- The texts of strokes, one behind the other. -/
def Script.Stroke.texts (strokes : List Stroke) : List Char :=
  strokes.flatMap fun stroke => stroke.text.toList

theorem Script.Stroke.texts_append (front back : List Stroke) :
    texts (front ++ back) = texts front ++ texts back :=
  List.flatMap_append

/-- Indentation and the line break have no brackets. -/
theorem turns_write {before behind : List Char} {text : String}
    (h : Turns before text.toList behind) (level : Nat) :
    Turns before (OutputLine.write ⟨level, text⟩) behind := by
  have hBreak : Turns behind ['\n'] behind := rfl
  unfold OutputLine.write
  split
  · next hEmpty =>
    have hText : text = "" := String.isEmpty_iff.mp hEmpty
    rw [hText] at h
    obtain rfl : before = behind := Option.some.inj h
    exact hBreak
  · have hIndent : BracketFree (List.replicate (4 * level) ' ') := by
      intro c hc
      rw [List.eq_of_mem_replicate hc]
      rfl
    exact ((hIndent.turns before).append h).append hBreak

/-- Layout adds no brackets to the texts. -/
theorem turns_linesFrom {strokes : List Stroke} {before behind : List Char}
    (h : Turns before (Stroke.texts strokes) behind) (level : Nat) :
    Turns before ((Stroke.linesFrom level strokes).flatMap OutputLine.write) behind := by
  induction strokes generalizing before level with
  | nil => exact h
  | cons stroke strokes ih =>
    unfold Turns Stroke.texts at h
    rw [List.flatMap_cons, List.foldlM_append] at h
    obtain ⟨between, hHere, hMore⟩ := Option.bind_eq_some_iff.mp h
    rw [Stroke.linesFrom, List.flatMap_cons]
    exact (turns_write hHere _).append (ih hMore _)

/-- Lines that are nested one by one are nested together. -/
theorem turns_map_line {lines : List String} {due : List Char}
    (h : ∀ line ∈ lines, Turns due line.toList due) :
    Turns due (Stroke.texts (lines.map .line)) due := by
  induction lines with
  | nil => rfl
  | cons line lines ih =>
    obtain ⟨hHere, hMore⟩ := List.forall_mem_cons.mp h
    exact hHere.append (ih hMore)

/-- A declaration has no brackets. -/
theorem turns_declaration {ids : List String} (h : ∀ id ∈ ids, BracketFree id.toList)
    (due : List Char) : Turns due (Stroke.texts (declaration ids)) due := by
  cases ids with
  | nil => rfl
  | cons id ids =>
    have hText := (bracketFree_declare h).turns due
    rwa [← List.flatMap_singleton (fun stroke : Stroke => stroke.text.toList)] at hText

-- ---------------------------------------------------------------------------
-- Nodes
-- ---------------------------------------------------------------------------

/-- The brackets that are open inside the function for a node. -/
def nodeDue (node : Node) : List Char :=
  match node.role with
  | .definition _ => ['\x7d']
  | _ => ['\x7d', ')', ')']

/-- The first line of a function leaves its brackets due. -/
theorem turns_nodeOpening {node : Node} (hNode : node.Nestable) {parent : String}
    (hParent : BracketFree parent.toList) (due : List Char) :
    Turns due (nodeOpening node parent).toList (nodeDue node ++ due) := by
  have hVar : Turns due "var ".toList due := rfl
  cases hRole : node.role with
  | definition base =>
    simp only [nodeOpening, nodeDue, hRole, String.toList_append]
    exact (hVar.append (hNode.typeName.turns due)).append rfl
  | _ =>
    simp only [nodeOpening, nodeDue, hRole, String.toList_append]
    exact (hParent.turns due).append rfl

/-- The last line of a function closes the brackets that its first line opens. -/
theorem turns_nodeClosing (node : Node) {parent : String} (hParent : BracketFree parent.toList)
    (due : List Char) : Turns (nodeDue node ++ due) (nodeClosing node parent).toList due := by
  have hCall : Turns ('\x7d' :: ')' :: ')' :: due) "\x7d(".toList (')' :: ')' :: ')' :: due) := rfl
  cases hRole : node.role with
  | definition base =>
    simp only [nodeClosing, nodeDue, hRole]
    rfl
  | _ =>
    simp only [nodeClosing, nodeDue, hRole, String.toList_append]
    exact (hCall.append (hParent.turns _)).append rfl

/-- The construction of a node is nested. -/
theorem turns_nodeConstruction {node : Node} (hNode : node.Nestable) (due : List Char) :
    Turns due (nodeConstruction node).toList due := by
  have hNew : Turns due "var elem = new ".toList due := rfl
  unfold nodeConstruction
  split
  · next base hRole =>
    have hBase : BracketFree base.toList := hNode.base base (by rw [hRole]; rfl)
    rw [String.toList_append, String.toList_append]
    exact (hNew.append (hBase.turns due)).append rfl
  · have hId : BracketFree (node.id.getD "").toList := by
      cases hSome : node.id with
      | none => decide
      | some id => exact hNode.id id hSome
    have hCall : Turns due "(".toList (')' :: due) := rfl
    simp only [String.toList_append]
    exact (((hNew.append (hNode.typeName.turns due)).append hCall).append
      ((bracketFree_literal hId).turns _)).append rfl

theorem turns_nodeKeeping (node : Node) {id : String} (hId : BracketFree id.toList)
    (due : List Char) : Turns due (nodeKeeping node id).text.toList due := by
  have hVar : Turns due "var ".toList due := rfl
  unfold nodeKeeping
  split
  · rw [Stroke.text, String.toList_append, String.toList_append]
    exact (hVar.append (hId.turns due)).append rfl
  · rw [Stroke.text, String.toList_append]
    exact (hId.turns due).append rfl

/-- The head of a function is nested. -/
theorem turns_nodeHead {node : Node} (hNode : node.Nestable) {ids : List String}
    (hIds : ∀ id ∈ ids, BracketFree id.toList) (due : List Char) :
    Turns due (Stroke.texts (nodeHead node ids)) due := by
  have hKeeping : Turns due (Stroke.texts (node.id.toList.map (nodeKeeping node))) due := by
    cases hSome : node.id with
    | none => rfl
    | some id =>
      have hText := turns_nodeKeeping node (hNode.id id hSome) due
      rwa [← List.flatMap_singleton (fun stroke : Stroke => stroke.text.toList)] at hText
  rw [nodeHead, Stroke.texts_append]
  exact (turns_declaration hIds due).append ((turns_nodeConstruction hNode due).append hKeeping)

/-- The statements for the entries of a node are nested. -/
theorem turns_entryStatements {node : Node} (hNode : node.Nestable) (due : List Char) :
    Turns due (Stroke.texts ((entryStatements node).map .line)) due := by
  refine turns_map_line fun line hLine => ?_
  rcases List.mem_append.mp hLine with hProperty | hDelegate
  · obtain ⟨p, hMem, rfl⟩ := List.mem_map.mp hProperty
    exact turns_propertyStatement (hNode.keys p hMem) (hNode.values p hMem) due
  · obtain ⟨d, hMem, rfl⟩ := List.mem_map.mp hDelegate
    obtain ⟨hName, hTarget⟩ := hNode.delegates d hMem
    exact turns_delegateStatement hName hTarget due

/-- A line, strokes and a line behind them. -/
theorem Script.Stroke.texts_block (frame : Frame) (head tail : String) (strokes : List Stroke) :
    texts (.opening frame head :: strokes ++ [.closing tail]) =
      head.toList ++ texts strokes ++ tail.toList := by
  simp [texts, Stroke.text]

/-- The function for a node closes what it opens, if what is inside does. -/
theorem turns_nodeBlock {node : Node} (hNode : node.Nestable) {ids : List String}
    (hIds : ∀ id ∈ ids, BracketFree id.toList) {parent : String}
    (hParent : BracketFree parent.toList) {inside : List Stroke}
    (hInside : ∀ due, Turns due (Stroke.texts inside) due) (due : List Char) :
    Turns due (Stroke.texts (nodeBlock node ids parent inside)) due := by
  have hBody : Turns (nodeDue node ++ due) (Stroke.texts (nodeHead node ids ++
      (entryStatements node).map .line ++ inside ++ [.line "return elem;"]))
      (nodeDue node ++ due) := by
    simp only [Stroke.texts_append]
    exact (((turns_nodeHead hNode hIds _).append (turns_entryStatements hNode _)).append
      (hInside _)).append rfl
  rw [nodeBlock_eq, Stroke.texts_block]
  exact ((turns_nodeOpening hNode hParent due).append hBody).append
    (turns_nodeClosing node hParent due)

/-- Nested parts behind each other are nested. -/
theorem turns_flatMap {α : Type} {items : List α} {strokes : α → List Stroke} {due : List Char}
    (h : ∀ item ∈ items, Turns due (Stroke.texts (strokes item)) due) :
    Turns due (Stroke.texts (items.flatMap strokes)) due := by
  induction items with
  | nil => rfl
  | cons item items ih =>
    obtain ⟨hHere, hMore⟩ := List.forall_mem_cons.mp h
    rw [List.flatMap_cons, Stroke.texts_append]
    exact hHere.append (ih hMore)

-- ---------------------------------------------------------------------------
-- Outlines
-- ---------------------------------------------------------------------------

/-- The ids of a scope are ids of nodes. -/
theorem Outline.exists_of_mem_gatherIds (outline : Outline) (ids : List String)
    (waiting : List Nat) :
    ∀ id ∈ outline.gatherIds ids waiting, id ∈ ids ∨ ∃ i, id ∈ (outline.node i).id := by
  induction ids, waiting using gatherIds.induct outline with
  | case1 ids =>
    rw [gatherIds]
    exact fun id hId => .inl hId
  | case2 ids i waiting ih =>
    rw [gatherIds]
    intro id hId
    rcases ih id hId with hMem | hLater
    · rw [foldl_addId] at hMem
      rcases List.mem_append.mp hMem with hOld | hNew
      · exact .inl hOld
      · rw [List.mem_eraseDups] at hNew
        exact .inr ⟨i, Option.mem_toList.mp (List.mem_of_mem_filter hNew)⟩
    · exact .inr hLater

variable {outline : Outline}

/-- The ids of a scope have no brackets. -/
theorem bracketFree_scopeIds (hNodes : ∀ i, (outline.node i).Nestable) (i : Nat) :
    ∀ id ∈ outline.scopeIds i, BracketFree id.toList := by
  intro id hId
  rcases outline.exists_of_mem_gatherIds [] _ id hId with hNone | ⟨j, hNode⟩
  · exact absurd hNone List.not_mem_nil
  · exact (hNodes j).id id hNode

theorem bracketFree_nodeIds (hNodes : ∀ i, (outline.node i).Nestable) (i : Nat) :
    ∀ id ∈ nodeIds outline i, BracketFree id.toList := by
  unfold nodeIds
  split
  · exact bracketFree_scopeIds hNodes i
  · exact List.forall_mem_nil _

/-- **The strokes for a node close all that they open**, by a walk from the node to what is
inside it. -/
theorem turns_nodeStrokes (hNodes : ∀ i, (outline.node i).Nestable) {parent : String}
    (hParent : BracketFree parent.toList) (i : Nat) (due : List Char) :
    Turns due (Stroke.texts (nodeStrokes outline parent i)) due := by
  have hChildren : ∀ due, Turns due (Stroke.texts
      ((outline.typesOf i ++ outline.elementsOf i).flatMap (nodeStrokes outline "elem"))) due := by
    intro due
    refine turns_flatMap fun child hChild => ?_
    have hLater : i < child ∧ i < outline.nodes.size := by
      rcases List.mem_append.mp hChild with hType | hElement
      · exact Outline.mem_typesOf hType
      · exact Outline.mem_elementsOf hElement
    exact turns_nodeStrokes hNodes (by decide) child due
  rw [nodeStrokes_eq]
  exact turns_nodeBlock (hNodes i) (bracketFree_nodeIds hNodes i) hParent hChildren due
termination_by outline.nodes.size - i
decreasing_by exact Outline.size_sub_lt hLater

/-- The unit around strokes that close what they open. -/
theorem turns_unitBlock {moduleName : Option String}
    (hModule : ∀ name ∈ moduleName, BracketFree name.toList) {ids : List String}
    (hIds : ∀ id ∈ ids, BracketFree id.toList) {nodes : List Stroke}
    (hNodes : ∀ due, Turns due (Stroke.texts nodes) due) :
    Turns [] (Stroke.texts (unitBlock moduleName ids nodes)) [] := by
  have hIdLines : ∀ due, Turns due (Stroke.texts
      ((declaration ids).flatMap fun stroke => [stroke, .line ""])) due := by
    intro due
    cases ids with
    | nil => rfl
    | cons id ids =>
      have hGap : Turns due (Stroke.texts [.line ""]) due := rfl
      show Turns due (Stroke.texts (declaration (id :: ids) ++ [.line ""])) due
      rw [Stroke.texts_append]
      exact (turns_declaration hIds due).append hGap
  have hBody : ∀ due, Turns due (Stroke.texts (["'use strict';", ""].map .line ++
      (declaration ids).flatMap (fun stroke => [stroke, .line ""]) ++
      (rootObject ++ [""]).map .line ++ nodes ++ (unitEnd moduleName).map .line)) due := by
    intro due
    have hStrict : Turns due (Stroke.texts (["'use strict';", ""].map .line)) due := rfl
    have hRoot : Turns due (Stroke.texts ((rootObject ++ [""]).map .line)) due :=
      turns_of_isNested (by decide +kernel) due
    have hEnd : Turns due (Stroke.texts ((unitEnd moduleName).map .line)) due := by
      cases moduleName <;> rfl
    simp only [Stroke.texts_append]
    exact (((hStrict.append (hIdLines due)).append hRoot).append (hNodes due)).append hEnd
  rw [unitBlock_eq, Stroke.texts_block]
  -- the two kinds of units open and close different brackets around the same body
  cases moduleName with
  | none =>
    have hOpening : Turns [] (unitOpening none).toList ['\x7d', ')'] := rfl
    have hClosing : Turns ['\x7d', ')'] (unitClosing none).toList [] := rfl
    exact (hOpening.append (hBody _)).append hClosing
  | some name =>
    have hVar : Turns [] "var ".toList [] := rfl
    have hOpening : Turns [] (unitOpening (some name)).toList ['\x7d'] := by
      rw [unitOpening, String.toList_append, String.toList_append]
      exact (hVar.append ((hModule name rfl).turns [])).append rfl
    have hClosing : Turns ['\x7d'] "\x7d;".toList [] := rfl
    exact (hOpening.append (hBody _)).append hClosing

/-- **The script of an outline is nested**, under a module name without brackets or none,
if the names in the outline have no brackets, its values are nested and the brackets of
a key are those around nested parameters. -/
theorem isNested_render (outline : Outline) (hNodes : ∀ node ∈ outline.nodes, node.Nestable)
    (moduleName : Option String) (hModule : ∀ name ∈ moduleName, BracketFree name.toList) :
    isNested (Script.render outline moduleName).toList = true := by
  have hRoot : Node.root.Nestable :=
    ⟨by simp [Node.root], by decide, by simp [Node.root, Role.base?], by simp [Node.root],
      by simp [Node.root], by simp [Node.root]⟩
  have hAll : ∀ i, (outline.node i).Nestable := by
    intro i
    by_cases hPlace : i < outline.nodes.size
    · have hNode : outline.node i = outline.nodes[i] := by simp [Outline.node, hPlace]
      rw [hNode]
      exact hNodes _ (Array.getElem_mem hPlace)
    · rw [Outline.node_of_size_le (Nat.le_of_not_lt hPlace)]
      exact hRoot
  have hStrokes : Turns [] (Stroke.texts (unitStrokes outline moduleName)) [] := by
    refine turns_unitBlock hModule (bracketFree_scopeIds hAll 0) fun due => ?_
    refine turns_flatMap fun i _ => ?_
    rw [Stroke.texts_append]
    exact (turns_nodeStrokes hAll (by decide) i due).append rfl
  rw [Script.render, OutputLine.render, String.toList_ofList]
  exact nestedFrom_iff_turns.mpr (turns_linesFrom hStrokes 0)

/-- A definition with a method and a delegate inside an element with a handler. -/
def bracketedTokens : List Token :=
  List.map (fun kind => { kind, line := 1, context := "" })
    [.element "Page", .scopeStart, .expression "id", .colon, .expression "page",
      .expression "onKey(event, [a, \x7b b \x7d])", .colon, .expression "go(\x7b x: [1] \x7d)",
      .element "Card", .isA, .element "Item", .scopeStart,
      .expression "area", .colon, .expression "(w) * (h)",
      .expression "row", .colon, .element "Row", .scopeEnd, .scopeEnd]

def bracketedOutline : Outline :=
  (Outline.build bracketedTokens).toOption.getD .empty

/-- A key with parameters, and values with brackets of all three kinds. -/
theorem isNested_render_bracketed :
    Outline.build bracketedTokens = .ok bracketedOutline ∧
      (∀ node ∈ bracketedOutline.nodes, node.Nestable) ∧
      isNested (Script.render bracketedOutline (some "start")).toList = true := by
  have hBuild : Outline.build bracketedTokens = .ok bracketedOutline := by decide +kernel
  have hKey : NestableKey "onKey(event, [a, \x7b b \x7d])" :=
    .inr ⟨"onKey".toList, "event, [a, \x7b b \x7d]".toList, by decide, by decide, by decide⟩
  have hArea : NestableKey "area" := .inl (by decide)
  have hKeys : ∀ node ∈ bracketedOutline.nodes, ∀ p ∈ node.properties,
      p.name = "onKey(event, [a, \x7b b \x7d])" ∨ p.name = "area" := by decide +kernel
  have hRest : ∀ node ∈ bracketedOutline.nodes,
      (∀ id ∈ node.id.toList, BracketFree id.toList) ∧ BracketFree node.typeName.toList ∧
        (∀ base ∈ node.role.base?.toList, BracketFree base.toList) ∧
        (∀ p ∈ node.properties, isNested p.value.toList = true) ∧
        ∀ d ∈ node.delegates, BracketFree d.name.toList ∧ BracketFree d.target.toList := by
    decide +kernel
  have hNodes : ∀ node ∈ bracketedOutline.nodes, node.Nestable := by
    intro node hNode
    obtain ⟨hId, hType, hBase, hValues, hDelegates⟩ := hRest node hNode
    refine ⟨fun id h => hId id (by simpa using h), hType,
      fun base h => hBase base (by simpa using h), fun p hp => ?_, hValues, hDelegates⟩
    rcases hKeys node hNode p hp with hName | hName
    · rw [hName]
      exact hKey
    · rw [hName]
      exact hArea
  exact ⟨hBuild, hNodes, isNested_render _ hNodes (some "start") (by decide)⟩

end BindingMarkup
