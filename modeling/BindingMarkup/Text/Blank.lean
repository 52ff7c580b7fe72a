/-!
# BindingMarkup — character classes, blanks and trimming

Several character classes of the markup are Unicode properties. A property
is stored as the list of its maximal runs of code points, first and last
code point of a run included. ASCII is never in a table: each class
decides its ASCII members by a plain test first, so that the common case
touches no table and reads off the definition. Scripts with alternating
capitals and small letters give runs of every second code point, so the
tables about case carry a step as well.

The first of these classes are the blanks. A character is **blank** when it
has the Unicode property `White_Space`: twenty-five code points, of which
the line breaks are part. Texts are trimmed of blanks at one or both ends;
all three trims keep what stands between the first and the last character
that is not blank.
-/

namespace BindingMarkup.Text

-- ---------------------------------------------------------------------------
-- Tables of code points
-- ---------------------------------------------------------------------------

/-- Whether the code point of `c` lies in one of the runs, both ends included. -/
def inRuns (runs : List (Nat × Nat)) (c : Char) : Bool :=
  runs.any fun (first, last) => decide (first ≤ c.toNat) && decide (c.toNat ≤ last)

/-- Whether `n` is one of `first`, `first + step`, and so on up to `last`. -/
def onSteps (first last step n : Nat) : Bool :=
  decide (first ≤ n) && decide (n ≤ last) && (n - first) % step == 0

/-- Membership spelled out: some run has the code point between its ends. -/
theorem inRuns_eq_true_iff {runs : List (Nat × Nat)} {c : Char} :
    inRuns runs c = true ↔ ∃ run ∈ runs, run.1 ≤ c.toNat ∧ c.toNat ≤ run.2 := by
  simp [inRuns, List.any_eq_true]

-- ---------------------------------------------------------------------------
-- Blanks
-- ---------------------------------------------------------------------------

/-- The blank characters: space, the five controls from tab to carriage
return, and the blanks outside ASCII. -/
def isBlank (c : Char) : Bool :=
  c == ' ' || (decide ('\t' ≤ c) && decide (c ≤ '\r')) ||
    inRuns
      [(0x85, 0x85), (0xa0, 0xa0), (0x1680, 0x1680), (0x2000, 0x200a), (0x2028, 0x2029),
        (0x202f, 0x202f), (0x205f, 0x205f), (0x3000, 0x3000)] c

/-- The blanks that do not end a line: space, tab and carriage return. -/
def isMargin (c : Char) : Bool :=
  c == ' ' || c == '\t' || c == '\r'

/-- A blank that does not end a line is a blank. -/
theorem isBlank_of_isMargin {c : Char} (h : isMargin c = true) : isBlank c = true := by
  simp only [isMargin, Bool.or_eq_true, beq_iff_eq] at h
  rcases h with (rfl | rfl) | rfl <;> decide

-- ---------------------------------------------------------------------------
-- Trimming
-- ---------------------------------------------------------------------------

def trimStart (cs : List Char) : List Char :=
  cs.dropWhile isBlank

def trimEnd (cs : List Char) : List Char :=
  (cs.reverse.dropWhile isBlank).reverse

def trim (cs : List Char) : List Char :=
  trimEnd (trimStart cs)

/-- A text without the blanks at its ends. -/
def trimmed (s : String) : String :=
  String.ofList (trim s.toList)

/-- Removes one `c` from the front, if it is there. -/
def stripFront (c : Char) : List Char → List Char
  | [] => []
  | d :: rest => if d = c then rest else d :: rest

/-- Removes one `c` from the end, if it is there. -/
def stripBack (c : Char) (cs : List Char) : List Char :=
  (stripFront c cs.reverse).reverse

@[simp] theorem trimStart_nil : trimStart [] = [] := rfl

@[simp] theorem trimEnd_nil : trimEnd [] = [] := rfl

@[simp] theorem trim_nil : trim [] = [] := rfl

/-- Trimming the front leaves an end of the text. -/
theorem trimStart_suffix (cs : List Char) : trimStart cs <:+ cs :=
  List.dropWhile_suffix isBlank

end BindingMarkup.Text
