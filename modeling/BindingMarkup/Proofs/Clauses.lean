import BindingMarkup.Proofs.OneLine
import BindingMarkup.Proofs.SideBySide

/-!
# BindingMarkup — several statements in one value

A semicolon in a value either stands between two statements of it or ends
it, and the reader decides by what comes next: the value ends when that
looks like the next entry or the next node. A statement here is a
`Clause`, a piece of script without strings and comments whose brackets
are nested.

What an entry or a node looks like is said twice. The rule is
`ReadsAsItem`: a name and a colon, a name with nested arguments and a
colon, or a type name and the mark of a node. The reader does not count
parentheses when it looks ahead and takes the first closing one for the
end of the arguments:

* `propertyAhead_iff`, `elementAhead_iff` — what the two looks ahead
  recognise, in the same terms as the rule;
* `expressionSpan_continued` — a value takes the statements up to the
  first one that is recognised as an item;
* `tokensFrom_clauses_iff` — so statements that are no items by the rule
  form one value exactly when none of them is `Misread`, a call with a
  colon behind the first closing parenthesis in it.

`f(b ? g(x) : y)` is such a call (`tokenize_nestedCall`).
-/

namespace BindingMarkup

open Text

-- ---------------------------------------------------------------------------
-- Nested brackets
-- ---------------------------------------------------------------------------

/-- The bracket that closes the given one. -/
def closer? (c : Char) : Option Char :=
  if c = '(' then some ')' else if c = '[' then some ']' else if c = '\x7b' then some '\x7d'
  else none

/-- Whether the brackets of a text are nested, each closed by its own kind. `waiting`
are the closing brackets that are due, the innermost first. -/
def nestedFrom : List Char → List Char → Bool
  | waiting, [] => waiting.isEmpty
  | waiting, c :: rest =>
    match closer? c with
    | some d => nestedFrom (d :: waiting) rest
    | none =>
      if isClosing c then
        match waiting with
        | [] => false
        | d :: waiting => c == d && nestedFrom waiting rest
      else nestedFrom waiting rest

def isNested (cs : List Char) : Bool :=
  nestedFrom [] cs

/-- The opening brackets are those with a closing one. -/
theorem isOpening_eq_isSome_closer? (c : Char) : isOpening c = (closer? c).isSome := by
  unfold isOpening closer?
  split
  · next h => simp [h]
  split
  · next h => simp [h]
  split
  · next h => simp [h]
  · next h₁ h₂ h₃ => simp [h₁, h₂, h₃]

/-- The first character of a nested text opens a bracket, closes the one that is due, or
is no bracket. -/
theorem nestedFrom_cons {waiting : List Char} {c : Char} {rest : List Char}
    (h : nestedFrom waiting (c :: rest) = true) :
    (∃ d, closer? c = some d ∧ nestedFrom (d :: waiting) rest = true) ∨
      (∃ more, isClosing c = true ∧ waiting = c :: more ∧ nestedFrom more rest = true) ∨
      (isOpening c = false ∧ isClosing c = false ∧ nestedFrom waiting rest = true) := by
  rw [isOpening_eq_isSome_closer?]
  unfold nestedFrom at h
  split at h
  · next d hCloser => exact .inl ⟨d, hCloser, h⟩
  · next hCloser =>
    split at h
    · next hClosing =>
      split at h
      · exact absurd h (by simp)
      · next d more =>
        obtain ⟨hSame, hRest⟩ := Bool.and_eq_true_iff.mp h
        exact .inr (.inl ⟨more, hClosing, by rw [beq_iff_eq.mp hSame], hRest⟩)
    · next hClosing => exact .inr (.inr ⟨by rw [hCloser]; rfl, by simpa using hClosing, h⟩)

/-- Every bracket that is due stands in the text. -/
theorem mem_of_nestedFrom {waiting cs : List Char} (h : nestedFrom waiting cs = true) :
    ∀ d ∈ waiting, d ∈ cs := by
  induction cs generalizing waiting with
  | nil =>
    obtain rfl : waiting = [] := by simpa [nestedFrom] using h
    simp
  | cons c rest ih =>
    intro d hd
    obtain ⟨e, -, hRest⟩ | ⟨more, -, rfl, hRest⟩ | ⟨-, -, hRest⟩ := nestedFrom_cons h
    · exact List.mem_cons_of_mem c (ih hRest d (List.mem_cons_of_mem e hd))
    · rcases List.mem_cons.mp hd with rfl | hMore
      · exact List.mem_cons_self
      · exact List.mem_cons_of_mem c (ih hRest d hMore)
    · exact List.mem_cons_of_mem c (ih hRest d hd)

/-- An end of a nested text is nested, with what is due there. -/
theorem exists_nestedFrom_of_suffix {waiting cs tail : List Char}
    (h : nestedFrom waiting cs = true) (hTail : tail <:+ cs) :
    ∃ due, nestedFrom due tail = true := by
  induction cs generalizing waiting with
  | nil => exact ⟨waiting, by rwa [List.suffix_nil.mp hTail]⟩
  | cons c rest ih =>
    rcases List.suffix_cons_iff.mp hTail with rfl | hRest
    · exact ⟨waiting, h⟩
    · obtain ⟨d, -, hMore⟩ | ⟨more, -, -, hMore⟩ | ⟨-, -, hMore⟩ := nestedFrom_cons h
      · exact ih hMore hRest
      · exact ih hMore hRest
      · exact ih hMore hRest

/-- A parenthesis in a nested text is closed in what follows it. -/
theorem mem_of_isNested {cs args : List Char} (h : isNested cs = true)
    (hArgs : '(' :: args <:+ cs) : ')' ∈ args := by
  obtain ⟨due, hDue⟩ := exists_nestedFrom_of_suffix h hArgs
  have hInside : nestedFrom (')' :: due) args = true := hDue
  exact mem_of_nestedFrom hInside ')' List.mem_cons_self

/-- Nested brackets are balanced, as the reader counts them. -/
theorem balanced_of_nestedFrom {waiting cs : List Char} (h : nestedFrom waiting cs = true)
    (hQuote : ∀ c ∈ cs, isQuote c = false) (hSemicolon : ';' ∉ cs)
    (hComment : ¬['/', '/'] <:+: cs) : Balanced waiting.length cs := by
  induction cs generalizing waiting with
  | nil =>
    obtain rfl : waiting = [] := by simpa [nestedFrom] using h
    exact .nil
  | cons c rest ih =>
    have hRest : ∀ {due : List Char}, nestedFrom due rest = true → Balanced due.length rest :=
      fun hDue => ih hDue (fun d hd => hQuote d (List.mem_cons_of_mem c hd))
        (fun hd => hSemicolon (List.mem_cons_of_mem c hd))
        fun hInfix => hComment (hInfix.trans (List.suffix_cons c rest).isInfix)
    obtain ⟨d, hCloser, hDue⟩ | ⟨more, hClosing, rfl, hDue⟩ | ⟨hOpening, hClosing, hDue⟩ :=
      nestedFrom_cons h
    · exact .opening (by rw [isOpening_eq_isSome_closer?, hCloser]; rfl) (hRest hDue)
    · exact .closing hClosing (hRest hDue)
    · refine .plain (hQuote c List.mem_cons_self) hOpening hClosing ?_ ?_ (hRest hDue)
      · rintro rfl
        exact hSemicolon List.mem_cons_self
      · rintro ⟨rfl, hHead⟩
        cases rest with
        | nil => exact absurd hHead (by simp)
        | cons d more =>
          -- two slashes would start a comment
          obtain rfl : d = '/' := by simpa using hHead
          exact hComment (List.prefix_append ['/', '/'] more).isInfix

-- ---------------------------------------------------------------------------
-- What entries and nodes look like
-- ---------------------------------------------------------------------------

/-- The text is a word of characters of the class `p`, blanks, and then `tail`. -/
def Leads (p : Char → Bool) (cs tail : List Char) : Prop :=
  ∃ word gap, word ≠ [] ∧ (∀ c ∈ word, p c = true) ∧ (∀ c ∈ gap, isBlank c = true) ∧
    cs = word ++ gap ++ tail

/-- The text starts with a name and a colon. -/
def EntryAhead (cs : List Char) : Prop :=
  ∃ rest, Leads isNameChar cs (':' :: rest)

/-- The text starts with a name, arguments in parentheses of which `Args` holds, and a
colon. -/
def MethodAhead (Args : List Char → Prop) (cs : List Char) : Prop :=
  ∃ args gap rest, Leads isNameChar cs ('(' :: (args ++ ')' :: (gap ++ ':' :: rest))) ∧
    Args args ∧ ∀ c ∈ gap, isBlank c = true

/-- The text starts with a type name and the mark of a node. -/
def NodeAhead (cs : List Char) : Prop :=
  ∃ mark rest, Leads Token.isElementChar cs (mark :: rest) ∧
    cs.head?.any Char.isUpper = true ∧ (mark = '\x7b' ∨ mark = '@')

/-- The rule: what follows a semicolon is an item of its own. -/
def ReadsAsItem (cs : List Char) : Prop :=
  EntryAhead cs ∨ MethodAhead (fun args => isNested args = true) cs ∨ NodeAhead cs

/-- A call that looks like an entry as long as parentheses are not counted: a colon
follows the first one that closes something. -/
def Misread (cs : List Char) : Prop :=
  MethodAhead (fun args => ')' ∉ args) cs

/-- Such a text falls apart in one way only, since the word and the blanks are as long as
possible. -/
theorem leads_iff {p : Char → Bool} (hp : ∀ c, isBlank c = true → p c = false) {cs : List Char}
    {mark : Char} (hMark : p mark = false) (hBlank : isBlank mark = false) (rest : List Char) :
    Leads p cs (mark :: rest) ↔
      cs.takeWhile p ≠ [] ∧ trimStart (cs.dropWhile p) = mark :: rest := by
  constructor
  · rintro ⟨word, gap, hNil, hWord, hGap, rfl⟩
    -- the word ends at the gap, or at the mark if there is no gap
    have hStop : (gap ++ mark :: rest).takeWhile p = [] ∧
        (gap ++ mark :: rest).dropWhile p = gap ++ mark :: rest := by
      cases gap with
      | nil => simp [hMark]
      | cons c more => simp [hp c (hGap c List.mem_cons_self)]
    rw [List.append_assoc, List.takeWhile_append_of_pos hWord, List.dropWhile_append_of_pos hWord,
      hStop.1, hStop.2, List.append_nil, trimStart, List.dropWhile_append_of_pos hGap,
      List.dropWhile_cons_of_neg (by simp [hBlank])]
    exact ⟨hNil, rfl⟩
  · rintro ⟨hNil, hRest⟩
    refine ⟨cs.takeWhile p, (cs.dropWhile p).takeWhile isBlank, hNil,
      fun c hc => List.mem_takeWhile_imp hc, fun c hc => List.mem_takeWhile_imp hc, ?_⟩
    rw [← hRest, List.append_assoc, trimStart, List.takeWhile_append_dropWhile,
      List.takeWhile_append_dropWhile]

/-- A mark behind a name, as the reader looks for it: the characters of the name first,
then blanks. -/
theorem leads_name_iff {cs : List Char} {mark : Char} (hMark : mark = ':' ∨ mark = '(')
    (rest : List Char) :
    Leads isNameChar cs (mark :: rest) ↔
      cs.takeWhile isNameChar ≠ [] ∧ trimStart (cs.dropWhile isNameChar) = mark :: rest := by
  refine leads_iff (fun c => Token.isNameChar_of_isBlank) ?_ ?_ rest
  · exact Token.isNameChar_of_mem_specials (by rcases hMark with rfl | rfl <;> decide)
  · rcases hMark with rfl | rfl <;> decide

/-- The first character behind blanks. -/
theorem trimStart_head?_iff {cs : List Char} {c : Char} (hc : isBlank c = false) :
    (trimStart cs).head? = some c ↔
      ∃ gap rest, (∀ d ∈ gap, isBlank d = true) ∧ cs = gap ++ c :: rest := by
  constructor
  · intro hHead
    obtain ⟨rest, hRest⟩ := List.head?_eq_some_iff.mp hHead
    refine ⟨cs.takeWhile isBlank, rest, fun d hd => List.mem_takeWhile_imp hd, ?_⟩
    rw [← hRest, trimStart, List.takeWhile_append_dropWhile]
  · rintro ⟨gap, rest, hGap, rfl⟩
    rw [trimStart, List.dropWhile_append_of_pos hGap, List.dropWhile_cons_of_neg (by simp [hc])]
    rfl

/-- A text is divided at the first `c`. -/
theorem splitAtFirst?_eq_some_iff {c : Char} {cs front back : List Char} :
    splitAtFirst? c cs = some (front, back) ↔ c ∉ front ∧ cs = front ++ c :: back := by
  refine ⟨fun h => ⟨?_, splitAtFirst?_eq_some h⟩, fun h => h.2 ▸ splitAtFirst?_append h.1 back⟩
  induction cs generalizing front with
  | nil => exact absurd h (by simp [splitAtFirst?])
  | cons d rest ih =>
    unfold splitAtFirst? at h
    split at h
    · obtain ⟨rfl, -⟩ := Prod.mk.inj (Option.some.inj h)
      simp
    · next hOther =>
      obtain ⟨⟨a, b⟩, hMore, hEq⟩ := Option.map_eq_some_iff.mp h
      obtain ⟨rfl, rfl⟩ := Prod.mk.inj hEq
      simpa [Ne.symm hOther] using ih hMore

/-- A key and its colon, as the reader looks for them. -/
theorem entryAhead_iff {cs : List Char} :
    EntryAhead cs ↔ cs.takeWhile isNameChar ≠ [] ∧
      (trimStart (cs.dropWhile isNameChar)).head? = some ':' := by
  simp only [EntryAhead, leads_name_iff (.inl rfl), exists_and_left, List.head?_eq_some_iff]

/-- A key with arguments and its colon, as the reader looks for them. -/
theorem methodAhead_iff {Args : List Char → Prop} {cs : List Char} :
    MethodAhead Args cs ↔ cs.takeWhile isNameChar ≠ [] ∧ ∃ args after,
      trimStart (cs.dropWhile isNameChar) = '(' :: (args ++ ')' :: after) ∧ Args args ∧
        (trimStart after).head? = some ':' := by
  constructor
  · rintro ⟨args, gap, rest, hLeads, hArgs, hGap⟩
    obtain ⟨hName, hRest⟩ := (leads_name_iff (.inr rfl) _).mp hLeads
    exact ⟨hName, args, _, hRest, hArgs,
      (trimStart_head?_iff (by decide)).mpr ⟨gap, rest, hGap, rfl⟩⟩
  · rintro ⟨hName, args, after, hRest, hArgs, hColon⟩
    obtain ⟨gap, rest, hGap, rfl⟩ := (trimStart_head?_iff (by decide)).mp hColon
    exact ⟨args, gap, rest, (leads_name_iff (.inr rfl) _).mpr ⟨hName, hRest⟩, hArgs, hGap⟩

namespace Token

/-- **What is recognised as an entry.** Arguments end at the first closing
parenthesis. -/
theorem propertyAhead_iff {cs : List Char} :
    propertyAhead cs = true ↔ EntryAhead cs ∨ Misread cs := by
  rw [Misread, entryAhead_iff, methodAhead_iff, ← and_or_left, propertyAhead, Bool.and_eq_true,
    Bool.not_eq_true', List.isEmpty_eq_false_iff]
  refine and_congr_right fun _ => ?_
  split
  · next args hArgs =>
    rw [hArgs]
    split
    · next front back hSplit =>
      obtain ⟨hFirst, rfl⟩ := splitAtFirst?_eq_some_iff.mp hSplit
      rw [beq_iff_eq]
      constructor
      · exact fun hColon => .inr ⟨front, back, rfl, hFirst, hColon⟩
      · rintro (hColon | ⟨front', back', hEq, hFirst', hColon⟩)
        · exact absurd hColon (by simp)
        · -- both splits are at the first closing parenthesis
          have hSame := splitAtFirst?_append hFirst' back'
          rw [← (List.cons.inj hEq).2, splitAtFirst?_append hFirst] at hSame
          obtain ⟨-, rfl⟩ := Prod.mk.inj (Option.some.inj hSame)
          exact hColon
    · next hNone =>
      refine iff_of_false (by simp) ?_
      rintro (hColon | ⟨front, back, hEq, hFirst, -⟩)
      · exact absurd hColon (by simp)
      · rw [(List.cons.inj hEq).2, splitAtFirst?_append hFirst] at hNone
        exact absurd hNone (by simp)
  · next hOther =>
    rw [beq_iff_eq]
    refine ⟨.inl, ?_⟩
    rintro (hColon | ⟨front, back, hEq, -⟩)
    · exact hColon
    · exact absurd hEq (hOther _)

/-- What is recognised as a node. -/
theorem elementAhead_iff {cs : List Char} : elementAhead cs = true ↔ NodeAhead cs := by
  have hLeads : ∀ {mark : Char} {rest : List Char}, (mark = '\x7b' ∨ mark = '@') →
      (Leads isElementChar cs (mark :: rest) ↔
        cs.takeWhile isElementChar ≠ [] ∧
          trimStart (cs.dropWhile isElementChar) = mark :: rest) := by
    intro mark rest hMark
    refine leads_iff (fun c => isElementChar_of_isBlank) ?_ ?_ rest
    · rcases hMark with rfl | rfl <;> decide
    · rcases hMark with rfl | rfl <;> decide
  have hWord : cs.head?.any Char.isUpper = true → cs.takeWhile isElementChar ≠ [] := by
    intro hUpper
    cases cs with
    | nil => exact absurd hUpper (by simp)
    | cons c rest => simp [isElementChar_of_isUpper hUpper]
  -- the capital comes first in the test, so the name cannot be empty
  rw [elementAhead, Bool.and_eq_true]
  constructor
  · rintro ⟨hUpper, hMark⟩
    cases hRest : trimStart (cs.dropWhile isElementChar) with
    | nil => simp [hRest] at hMark
    | cons mark rest =>
      have hMark : mark = '\x7b' ∨ mark = '@' := by simpa [hRest] using hMark
      exact ⟨mark, rest, (hLeads hMark).mpr ⟨hWord hUpper, hRest⟩, hUpper, hMark⟩
  · rintro ⟨mark, rest, hFront, hUpper, hMark⟩
    rw [((hLeads hMark).mp hFront).2]
    exact ⟨hUpper, by simpa using hMark⟩

end Token

/-- A split at a closing parenthesis is one of finitely many. -/
theorem exists_arguments_iff {Args Behind : List Char → Prop} {cs : List Char} :
    (∃ args after, cs = '(' :: (args ++ ')' :: after) ∧ Args args ∧ Behind after) ↔
      cs.head? = some '(' ∧ ∃ i < cs.length, Args (cs.tail.take i) ∧
        (cs.tail.drop i).head? = some ')' ∧ Behind (cs.tail.drop (i + 1)) := by
  constructor
  · rintro ⟨args, after, rfl, hArgs, hBehind⟩
    have hBound : args.length < ('(' :: (args ++ ')' :: after)).length := by
      simp only [List.length_cons, List.length_append]
      omega
    refine ⟨rfl, args.length, hBound, ?_, ?_, ?_⟩
    · simpa using hArgs
    · simp
    · simpa [List.drop_append, List.drop_eq_nil_of_le (Nat.le_succ args.length)] using hBehind
  · rintro ⟨hOpen, i, -, hArgs, hClose, hBehind⟩
    obtain ⟨tail, rfl⟩ := List.head?_eq_some_iff.mp hOpen
    obtain ⟨after, hAfter⟩ := List.head?_eq_some_iff.mp hClose
    rw [List.tail_cons] at hArgs hAfter hBehind
    have hBehind' : tail.drop (i + 1) = after := by
      rw [← List.tail_drop, hAfter, List.tail_cons]
    refine ⟨tail.take i, after, ?_, hArgs, hBehind' ▸ hBehind⟩
    rw [← hAfter, List.take_append_drop]

instance (cs : List Char) : Decidable (EntryAhead cs) :=
  decidable_of_iff _ entryAhead_iff.symm

instance (Args : List Char → Prop) [DecidablePred Args] (cs : List Char) :
    Decidable (MethodAhead Args cs) :=
  decidable_of_iff _ (methodAhead_iff.trans (and_congr_right fun _ => exists_arguments_iff)).symm

instance (cs : List Char) : Decidable (NodeAhead cs) :=
  decidable_of_iff _ Token.elementAhead_iff

instance (cs : List Char) : Decidable (ReadsAsItem cs) :=
  inferInstanceAs (Decidable (_ ∨ _ ∨ _))

instance (cs : List Char) : Decidable (Misread cs) :=
  inferInstanceAs (Decidable (MethodAhead _ cs))

-- arguments may hold calls by the rule, but then the reader does not find their end
example : ReadsAsItem "f(g(x)): y".toList ∧ ¬Misread "f(g(x)): y".toList := by decide +kernel

namespace Token

-- ---------------------------------------------------------------------------
-- Clauses
-- ---------------------------------------------------------------------------

/-- A statement between semicolons: a text on one line, without strings and comments,
with nested brackets and without blanks at its ends. -/
structure Clause where
  text : List Char
  ne_nil : text ≠ [] := by decide +kernel
  first_not_blank : text.head?.any isBlank = false := by decide +kernel
  last_not_blank : text.getLast?.any isBlank = false := by decide +kernel
  no_break : '\n' ∉ text := by decide +kernel
  no_quote : text.any isQuote = false := by decide +kernel
  no_semicolon : ';' ∉ text := by decide +kernel
  no_comment : ¬['/', '/'] <:+: text := by decide +kernel
  nested : isNested text = true := by decide +kernel

/-- The statements behind the first one, each behind a semicolon and a space. -/
def continued (more : List Clause) : List Char :=
  more.flatMap fun clause => ';' :: ' ' :: clause.text

/-- A list of statements as one value. -/
def joined (first : Clause) (more : List Clause) : List Char :=
  first.text ++ continued more

/-- Whether the reader takes a statement behind a semicolon for more of the value. -/
def Clause.continues (clause : Clause) : Bool :=
  !propertyAhead clause.text && !elementAhead clause.text

theorem joined_cons (first next : Clause) (more : List Clause) :
    joined first (next :: more) = first.text ++ ';' :: ' ' :: joined next more := by
  simp [joined, continued]

theorem isBlank_of_any {o : Option Char} (h : o.any isBlank = false) :
    ∀ c ∈ o, isBlank c = false := by
  rintro c rfl
  exact h

/-- A statement without strings and semicolons whose brackets are nested is balanced. -/
theorem Clause.balanced (clause : Clause) : Balanced 0 clause.text :=
  balanced_of_nestedFrom clause.nested
    (fun c hc => Bool.eq_false_iff.mpr (List.any_eq_false.mp clause.no_quote c hc))
    clause.no_semicolon clause.no_comment

theorem continued_append (front back : List Clause) :
    continued (front ++ back) = continued front ++ continued back :=
  List.flatMap_append

/-- Only no statements have no text. -/
theorem continued_eq_nil_iff {more : List Clause} : continued more = [] ↔ more = [] := by
  cases more with
  | nil => simp [continued]
  | cons clause more => simp [continued]

/-- What follows a statement starts with a semicolon. -/
theorem exists_continued (more : List Clause) (rest : List Char) :
    ∃ tail, continued more ++ ';' :: rest = ';' :: tail := by
  cases more with
  | nil => exact ⟨rest, rfl⟩
  | cons clause more => exact ⟨_, rfl⟩

/-- Words and blanks end at the latest at a mark. -/
theorem span_append_mark {p : Char → Bool} {mark : Char} (hMark : p mark = false)
    (front rest : List Char) :
    (front ++ mark :: rest).takeWhile p = front.takeWhile p ∧
      (front ++ mark :: rest).dropWhile p = front.dropWhile p ++ mark :: rest := by
  induction front with
  | nil => simp [hMark]
  | cons c more ih =>
    cases hc : p c with
    | true => simp [hc, ih]
    | false => simp [hc]

/-- Whether a colon comes first does not depend on what follows another mark. -/
theorem head?_trimStart_append {c mark : Char} (hMark : isBlank mark = false) (hOther : mark ≠ c)
    (front rest : List Char) :
    ((trimStart (front ++ mark :: rest)).head? == some c) =
      ((trimStart front).head? == some c) := by
  rw [trimStart, (span_append_mark hMark front rest).2, trimStart]
  cases front.dropWhile isBlank with
  | nil => simpa using hOther
  | cons d more => rfl

/-- The look ahead for an entry does not see beyond the semicolon behind a statement: a
parenthesis that is opened in the statement is closed in it. -/
theorem propertyAhead_append (clause : Clause) (rest : List Char) :
    propertyAhead (clause.text ++ ';' :: rest) = propertyAhead clause.text := by
  have hName : isNameChar ';' = false := isNameChar_of_mem_specials (by decide)
  have hBlank : isBlank ';' = false := by decide
  obtain ⟨hTake, hDrop⟩ := span_append_mark hName clause.text rest
  unfold propertyAhead
  rw [hTake, hDrop]
  refine congrArg (!(clause.text.takeWhile isNameChar).isEmpty && ·) ?_
  rw [trimStart, (span_append_mark hBlank _ rest).2, ← trimStart]
  have hSuffix : trimStart (clause.text.dropWhile isNameChar) <:+ clause.text :=
    (trimStart_suffix _).trans (List.dropWhile_suffix _)
  cases hBehind : trimStart (clause.text.dropWhile isNameChar) with
  | nil => rfl
  | cons c args =>
    by_cases hParen : c = '('
    · subst hParen
      -- the brackets of the statement are nested, so the closing parenthesis stands before the
      -- semicolon
      obtain ⟨front, back, rfl, hFirst⟩ :=
        List.eq_append_cons_of_mem (mem_of_isNested clause.nested (hBehind ▸ hSuffix))
      have hSplit := splitAtFirst?_append hFirst (back ++ ';' :: rest)
      simp only [List.cons_append, List.append_assoc, hSplit, splitAtFirst?_append hFirst,
        head?_trimStart_append hBlank (show ';' ≠ ':' by decide)]
    · rw [List.cons_append]
      split
      · next hEq => exact absurd (List.cons.inj hEq).1 hParen
      · split
        · next hEq => exact absurd (List.cons.inj hEq).1 hParen
        · rfl

/-- Whether a statement looks like a node is decided before its semicolon. -/
theorem elementAhead_append (clause : Clause) (rest : List Char) :
    elementAhead (clause.text ++ ';' :: rest) = elementAhead clause.text := by
  have hChar : isElementChar ';' = false := by decide
  have hHead : (clause.text ++ ';' :: rest).head? = clause.text.head? :=
    List.head?_append_of_ne_nil _ clause.ne_nil
  unfold elementAhead
  rw [hHead, (span_append_mark hChar clause.text rest).2, trimStart,
    (span_append_mark (by decide) _ rest).2, ← trimStart]
  cases trimStart (clause.text.dropWhile isElementChar) with
  | nil => rfl
  | cons c more => rfl

/-- Behind a semicolon the reader looks at the next statement only. -/
theorem statementContinues_clause (clause : Clause) (rest : List Char) :
    statementContinues (' ' :: (clause.text ++ ';' :: rest)) = clause.continues := by
  obtain ⟨c, more, hText⟩ := List.exists_cons_of_ne_nil clause.ne_nil
  have hMargin : isMargin c = false := by
    refine Bool.eq_false_iff.mpr fun hMargin => ?_
    have hBlank := isBlank_of_any clause.first_not_blank c (by rw [hText]; rfl)
    rw [isBlank_of_isMargin hMargin] at hBlank
    exact absurd hBlank (by simp)
  obtain ⟨hSlashes, hTop⟩ := balanced_head (hText ▸ clause.balanced)
  have hBreak : (c == '\n') = false :=
    beq_eq_false_iff_ne.mpr fun hEq => clause.no_break (by simp [hText, hEq])
  have hClose : (c == '\x7d') = false := beq_eq_false_iff_ne.mpr (hTop rfl).1
  have hComment : startsComment (c :: (more ++ ';' :: rest)) = false := by
    refine startsComment_eq_false fun hHere => ?_
    exact head?_append_ne (fun hHead => hSlashes ⟨hHere.1, hHead⟩) (by simp) hHere.2
  -- what looks like an item does so within the statement, so the semicolon behind it changes
  -- nothing
  have hProperty := propertyAhead_append clause rest
  have hElement := elementAhead_append clause rest
  rw [hText, List.cons_append] at hProperty hElement
  rw [statementContinues_space, hText, List.cons_append, statementContinues,
    List.dropWhile_cons_of_neg (by simp [hMargin])]
  simp [hBreak, hClose, hComment, hProperty, hElement, Clause.continues, hText]

/-- **A value takes the statements up to the first one that is taken for an item.** -/
theorem expressionSpan_continued (more : List Clause) (rest : List Char) :
    expressionSpan true .outside 0 (continued more ++ ';' :: '\n' :: rest) =
      (continued (more.takeWhile Clause.continues),
        continued (more.dropWhile Clause.continues) ++ ';' :: '\n' :: rest) := by
  induction more with
  | nil =>
    have hEnd : EndsValue (';' :: '\n' :: rest) := .semicolon rfl
    simpa [continued] using expressionSpan_balanced .nil (by simp) hEnd
  | cons clause more ih =>
    obtain ⟨tail, hTail⟩ := exists_continued more ('\n' :: rest)
    have hText : continued (clause :: more) ++ ';' :: '\n' :: rest =
        ';' :: ' ' :: (clause.text ++ ';' :: tail) := by
      rw [← hTail]
      simp [continued]
    -- a semicolon ends the value exactly before a statement that does not continue it
    have hEnds : endsExpression true .outside 0 ';' (' ' :: (clause.text ++ ';' :: tail)) =
        !clause.continues := by
      simp [endsExpression, startsComment, statementContinues_clause]
    cases hContinues : clause.continues with
    | false =>
      rw [List.takeWhile_cons_of_neg (by simp [hContinues]),
        List.dropWhile_cons_of_neg (by simp [hContinues]), hText, expressionSpan,
        if_pos (by simp [hEnds, hContinues])]
      rfl
    | true =>
      rw [hTail] at ih
      have hClause := expressionSpan_balanced_append clause.balanced clause.no_break (by simp) ih
      have hSpace : endsExpression true .outside 0 ' ' (clause.text ++ ';' :: tail) = false :=
        endsExpression_eq_false_of_outside (by decide) (by simp) (by simp)
      rw [List.takeWhile_cons_of_pos hContinues, List.dropWhile_cons_of_pos hContinues, hText]
      exact expressionSpan_cons (by simp [hEnds, hContinues])
        (expressionSpan_cons hSpace hClause)

/-- The last character of a list of statements is that of the last one. -/
theorem joined_last (first : Clause) (more : List Clause) :
    ∀ c ∈ (joined first more).getLast?, isBlank c = false ∧ c ≠ ';' := by
  induction more generalizing first with
  | nil =>
    intro c hc
    rw [joined, continued, List.flatMap_nil, List.append_nil] at hc
    refine ⟨isBlank_of_any first.last_not_blank c hc, ?_⟩
    rintro rfl
    exact first.no_semicolon (List.mem_of_getLast? hc)
  | cons next more ih =>
    intro c hc
    have hNil : joined next more ≠ [] := by simp [joined, next.ne_nil]
    refine ih next c ?_
    rw [joined_cons, List.getLast?_append_of_ne_nil _ (by simp), List.getLast?_cons_cons,
      List.getLast?_cons_of_ne_nil hNil] at hc
    exact hc

/-- Statements end with neither a blank nor a semicolon, so nothing falls away. -/
theorem expressionText_joined (first : Clause) (more : List Clause) :
    expressionText (joined first more) = joined first more := by
  refine expressionText_eq_self ?_ (fun c hc => (joined_last first more c hc).1)
    fun hLast => (joined_last first more ';' hLast).2 rfl
  rw [joined, List.head?_append_of_ne_nil _ first.ne_nil]
  exact isBlank_of_any first.first_not_blank

-- ---------------------------------------------------------------------------
-- Lines of statements
-- ---------------------------------------------------------------------------

/-- A letter that is no capital, so that it cannot start the name of a type. -/
def startsScript (c : Char) : Bool :=
  isAlphabetic c && !c.isUpper

/-- Behind a colon, the statements up to the first one that is taken for an item become
one token. The semicolon there is taken along. -/
theorem tokensFrom_joined {first : Clause}
    (hFirst : first.text.head?.any startsScript = true)
    (more : List Clause) (n : Nat) (rest : List Char) :
    ∃ context, tokensFrom ⟨n, true, true⟩ (joined first more ++ ';' :: '\n' :: rest) =
      { kind := .expression (String.ofList (joined first (more.takeWhile Clause.continues))),
        line := n, context } ::
        tokensFrom (lineStart n)
          (continued (more.dropWhile Clause.continues) ++ ';' :: '\n' :: rest).tail := by
  obtain ⟨c, text, hText⟩ := List.exists_cons_of_ne_nil first.ne_nil
  rw [hText, List.head?_cons, Option.any_some, startsScript, Bool.and_eq_true,
    Bool.not_eq_true'] at hFirst
  obtain ⟨hLetter, hUpper⟩ := hFirst
  have hWord : isWordChar c = true := by simp [isWordChar, isNameChar, isAlphanumeric, hLetter]
  obtain ⟨after, hAfter⟩ := exists_continued (more.dropWhile Clause.continues) ('\n' :: rest)
  obtain ⟨tail, hTail⟩ := exists_continued more ('\n' :: rest)
  -- the span passes over the first statement and takes those that continue it
  have hSpan : expressionSpan true .outside 0 (joined first more ++ ';' :: '\n' :: rest) =
      (joined first (more.takeWhile Clause.continues), ';' :: after) := by
    rw [joined, List.append_assoc, ← hAfter]
    exact expressionSpan_balanced_append first.balanced first.no_break (by simp [hTail])
      (expressionSpan_continued more rest)
  have hNil : expressionText (expressionSpan true .outside 0
      (joined first more ++ ';' :: '\n' :: rest)).1 ≠ [] := by
    rw [hSpan, expressionText_joined]
    simp [joined, hText]
  have hExpression := stepExpression_eq ⟨n, true, true⟩ hNil
  rw [hSpan, expressionText_joined] at hExpression
  have hStart : joined first more ++ ';' :: '\n' :: rest =
      c :: (text ++ (continued more ++ ';' :: '\n' :: rest)) := by
    simp [joined, hText]
  rw [hStart] at hExpression ⊢
  have hStep := step_of_startsText
    (startsText_of_isWordChar hWord (text ++ (continued more ++ ';' :: '\n' :: rest)))
    ⟨n, true, true⟩
  rw [hUpper, Bool.false_and, if_neg (by simp), Bool.true_or, if_pos rfl, hExpression] at hStep
  rw [tokensFrom_of_token hStep, hAfter]
  exact ⟨_, rfl⟩

/-- A statement that is no item by the rule is taken for one only when it is misread. -/
theorem Clause.continues_iff {clause : Clause} (hItem : ¬ReadsAsItem clause.text) :
    clause.continues = true ↔ ¬Misread clause.text := by
  have hEntry : ¬EntryAhead clause.text := fun h => hItem (.inl h)
  have hNode : ¬NodeAhead clause.text := fun h => hItem (.inr (.inr h))
  rw [continues, Bool.and_eq_true, Bool.not_eq_true', Bool.not_eq_true', ← Bool.not_eq_true,
    ← Bool.not_eq_true, propertyAhead_iff, elementAhead_iff]
  simp [hEntry, hNode]

/-- **Several statements form one value, unless one of them is misread.** -/
theorem tokensFrom_clauses_iff {name : String} {params : Option String}
    (hKey : IsKey name params) {first : Clause}
    (hFirst : first.text.head?.any startsScript = true)
    {more : List Clause} (hItem : ∀ clause ∈ more, ¬ReadsAsItem clause.text)
    (indentation : Indentation) (n : Nat) (rest : List Char) :
    (∃ c₁ c₂ c₃,
      tokensFrom (lineStart n) (indentation.blanks ++ ((keyText name params).toList ++
          ':' :: ' ' :: (joined first more ++ ';' :: '\n' :: rest))) =
        { kind := .expression (keyText name params), line := n, context := c₁ } ::
          { kind := .colon, line := n, context := c₂ } ::
          { kind := .expression (String.ofList (joined first more)), line := n, context := c₃ } ::
          tokensFrom (lineStart (n + 1)) rest) ↔
      ∀ clause ∈ more, ¬Misread clause.text := by
  obtain ⟨c₁, hName⟩ := tokensFrom_key hKey n (' ' :: (joined first more ++ ';' :: '\n' :: rest))
  obtain ⟨c₂, hColon⟩ := tokensFrom_colon n (joined first more ++ ';' :: '\n' :: rest)
  obtain ⟨c₃, hValue⟩ := tokensFrom_joined hFirst more n rest
  rw [tokensFrom_indentation, hName, hColon, hValue]
  have hAll : (∀ clause ∈ more, ¬Misread clause.text) ↔ more.takeWhile Clause.continues = more :=
    (forall₂_congr fun clause hc => (Clause.continues_iff (hItem clause hc)).symm).trans
      List.takeWhile_eq_self_iff.symm
  rw [hAll]
  constructor
  · rintro ⟨_, _, _, hTokens⟩
    -- the value is all of the text, so no statement is left over
    simp only [List.cons.injEq, mk.injEq, Kind.expression.injEq] at hTokens
    obtain ⟨-, -, ⟨hValues, -⟩, -⟩ := hTokens
    have hTexts : joined first (more.takeWhile Clause.continues) = joined first more :=
      String.ofList_injective hValues
    have hSplit := continued_append (more.takeWhile Clause.continues)
      (more.dropWhile Clause.continues)
    rw [List.takeWhile_append_dropWhile, ← List.append_cancel_left hTexts] at hSplit
    have hLeft : more.dropWhile Clause.continues = [] :=
      continued_eq_nil_iff.mp (List.self_eq_append_right.mp hSplit)
    exact List.takeWhile_eq_self_iff.mpr (List.dropWhile_eq_nil_iff.mp hLeft)
  · intro hTaken
    have hLeft : more.dropWhile Clause.continues = [] :=
      List.dropWhile_eq_nil_iff.mpr (List.takeWhile_eq_self_iff.mp hTaken)
    refine ⟨c₁, c₂, c₃, ?_⟩
    rw [hTaken, hLeft]
    show _ :: _ :: _ :: tokensFrom (lineStart n) ('\n' :: rest) = _
    rw [tokensFrom_newline]

def Clause.call : Clause where
  text := "a()".toList

def Clause.choice : Clause where
  text := "b[c ? d : e]".toList

def Clause.jump : Clause where
  text := "go(x)".toList

/-- A call in the arguments of a call, with a colon behind it. -/
def Clause.nestedCall : Clause where
  text := "f(b ? g(x) : y)".toList

theorem tokensFrom_calls :
    ∃ c₁ c₂ c₃,
      tokensFrom (lineStart 2) "  onClick: a(); b[c ? d : e]; go(x);\n\x7d\n".toList =
        { kind := .expression "onClick", line := 2, context := c₁ } ::
          { kind := .colon, line := 2, context := c₂ } ::
          { kind := .expression "a(); b[c ? d : e]; go(x)", line := 2, context := c₃ } ::
          tokensFrom (lineStart 3) "\x7d\n".toList := by
  have hKey : IsKey "onClick" none := ⟨by decide, by decide, by simp⟩
  have hFirst : Clause.call.text.head?.any startsScript = true := by decide +kernel
  have hItem : ∀ clause ∈ [Clause.choice, .jump], ¬ReadsAsItem clause.text := by decide +kernel
  have hRead : ∀ clause ∈ [Clause.choice, .jump], ¬Misread clause.text := by decide +kernel
  have hValue : String.ofList (joined .call [.choice, .jump]) = "a(); b[c ? d : e]; go(x)" := by
    decide +kernel
  have hLine : "  onClick: a(); b[c ? d : e]; go(x);\n\x7d\n".toList =
      [' ', ' '] ++ ((keyText "onClick" none).toList ++
        ':' :: ' ' :: (joined .call [.choice, .jump] ++ ';' :: '\n' :: "\x7d\n".toList)) := by
    decide +kernel
  have hTokens := (tokensFrom_clauses_iff hKey hFirst hItem
    ⟨[' ', ' '], by simp [isBlank], by decide⟩ 2 "\x7d\n".toList).mpr hRead
  rwa [← hLine, hValue] at hTokens

/-- A statement that is no item by the rule is cut off from its value. -/
theorem tokenize_nestedCall :
    Clause.call.text.head?.any startsScript = true ∧
      ¬ReadsAsItem Clause.nestedCall.text ∧
      String.ofList (joined .call [.nestedCall]) = "a(); f(b ? g(x) : y)" ∧
      (tokenize "A \x7b\n  onClick: a(); f(b ? g(x) : y);\n\x7d\n").map kind =
        [.element "A", .scopeStart, .expression "onClick", .colon, .expression "a()",
          .expression "f(b ? g(x) : y)", .scopeEnd] := by
  decide +kernel

end Token

end BindingMarkup
