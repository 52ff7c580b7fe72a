import BindingMarkup.Text.Blank

/-!
# BindingMarkup — lines and columns

A text falls into lines at every line feed; a carriage return right
before the line feed belongs to the break and not to the line, and a
final line feed opens no further line. Columns inside a line count the
bytes of its UTF-8 form. A column may point into the middle of a
character or behind the end of the line: `cut` then goes back to the last
character boundary that is not beyond it, while `slice?` has no answer.

Both outputs of the compiler, the script and the dump of an outline, are
written line by line at a level of indentation. A level is four spaces,
and a line without text has no indentation either. The text of such a line
may itself hold line breaks, when a value spans several lines; what follows
a break of this kind is not indented.

* `cut_append`      — cutting loses nothing.
* `byteLength_cut_le` — the front part never reaches beyond the column.
-/

namespace BindingMarkup.Text

-- ---------------------------------------------------------------------------
-- Lines
-- ---------------------------------------------------------------------------

/-- The lines of a text, without their breaks. -/
def lines : List Char → List (List Char)
  | [] => []
  | '\n' :: rest => [] :: lines rest
  | '\r' :: '\n' :: rest => [] :: lines rest
  | c :: rest =>
    match lines rest with
    | [] => [[c]]
    | line :: more => (c :: line) :: more

/-- The part of the text up to the first line feed. -/
def firstLine (cs : List Char) : List Char :=
  cs.takeWhile (· != '\n')

/-- The text from its first line feed on. -/
def afterFirstLine (cs : List Char) : List Char :=
  cs.dropWhile (· != '\n')

@[simp] theorem lines_nil : lines [] = [] := rfl

/-- The first line and what follows make up the text. -/
theorem firstLine_append_afterFirstLine (cs : List Char) :
    firstLine cs ++ afterFirstLine cs = cs :=
  List.takeWhile_append_dropWhile

-- ---------------------------------------------------------------------------
-- Columns
-- ---------------------------------------------------------------------------

/-- Number of bytes in the UTF-8 form of a text. -/
def byteLength : List Char → Nat
  | [] => 0
  | c :: rest => c.utf8Size + byteLength rest

/-- Splits a line at the last character boundary at or before a column. -/
def cut : Nat → List Char → List Char × List Char
  | _, [] => ([], [])
  | column, c :: rest =>
    if c.utf8Size ≤ column then
      let (front, back) := cut (column - c.utf8Size) rest
      (c :: front, back)
    else ([], c :: rest)

/-- The text of a line from its front up to a column, unless the column falls
inside a character or behind the end. -/
def takeBytes? : Nat → List Char → Option (List Char)
  | 0, _ => some []
  | _ + 1, [] => none
  | column + 1, c :: rest =>
    if c.utf8Size ≤ column + 1 then
      (takeBytes? (column + 1 - c.utf8Size) rest).map (c :: ·)
    else none

/-- The text of a line from a column on, unless the column falls inside a
character or behind the end. -/
def dropBytes? : Nat → List Char → Option (List Char)
  | 0, cs => some cs
  | _ + 1, [] => none
  | column + 1, c :: rest =>
    if c.utf8Size ≤ column + 1 then dropBytes? (column + 1 - c.utf8Size) rest else none

/-- The text of a line between two columns, unless one of them falls inside a
character or behind the end. -/
def slice? (start stop : Nat) (line : List Char) : Option (List Char) :=
  (dropBytes? start line).bind (takeBytes? (stop - start))

@[simp] theorem byteLength_append (a b : List Char) :
    byteLength (a ++ b) = byteLength a + byteLength b := by
  induction a with
  | nil => simp [byteLength]
  | cons c rest ih =>
    simp only [List.cons_append, byteLength, ih]
    omega

/-- Cutting a line loses nothing of it. -/
theorem cut_append (column : Nat) (line : List Char) :
    (cut column line).1 ++ (cut column line).2 = line := by
  induction line generalizing column with
  | nil => rfl
  | cons c rest ih =>
    unfold cut
    split
    · simpa using ih (column - c.utf8Size)
    · rfl

/-- The front part of a cut does not reach beyond the column. -/
theorem byteLength_cut_le (column : Nat) (line : List Char) :
    byteLength (cut column line).1 ≤ column := by
  induction line generalizing column with
  | nil => simp [cut, byteLength]
  | cons c rest ih =>
    unfold cut
    split
    · next hFits =>
      have := ih (column - c.utf8Size)
      simp only [byteLength]
      omega
    · simp [byteLength]

-- ---------------------------------------------------------------------------
-- Lines of output
-- ---------------------------------------------------------------------------

/-- A line of output before its indentation is written. -/
structure OutputLine where
  level : Nat
  text : String
  deriving DecidableEq, Repr

namespace OutputLine

def blank : OutputLine where
  level := 0
  text := ""

/-- The characters of a line with its indentation and its line break. -/
def write (line : OutputLine) : List Char :=
  if line.text.isEmpty then ['\n']
  else List.replicate (4 * line.level) ' ' ++ line.text.toList ++ ['\n']

def render (lines : List OutputLine) : String :=
  String.ofList (lines.flatMap write)

end OutputLine

end BindingMarkup.Text
