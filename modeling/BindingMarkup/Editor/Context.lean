import BindingMarkup.Editor.Cursor
import BindingMarkup.Text.Case
import BindingMarkup.Text.Occurrence

/-!
# BindingMarkup — what is being written at the cursor

While a document is being written it is mostly incomplete, and its
outline does not exist. What belongs at the cursor is therefore guessed
from the text before it, by counting braces: behind a colon stands a
value, outside all braces a type, and inside a node a key, or a type if
the line starts with a capital.

Braces are counted in both directions. Forward, `openBraces` counts those
that are open at the end, and a closing brace too many is ignored.
Backward, `enclosingElement` looks for the last one that is open and takes
the first word of its line as the name of the node.
-/

namespace BindingMarkup.Editor

open Text

-- ---------------------------------------------------------------------------
-- Code without comments
-- ---------------------------------------------------------------------------

/-- The part of a line before its comment. -/
def stripComment : List Char → List Char
  | [] => []
  | '/' :: '/' :: _ => []
  | c :: rest => c :: stripComment rest

/-- A line without two slashes is code as a whole. -/
theorem stripComment_eq_self {line : List Char} (h : ¬['/', '/'] <:+: line) :
    stripComment line = line := by
  fun_induction stripComment line with
  | case1 => rfl
  | case2 rest => exact absurd (List.prefix_append ['/', '/'] rest).isInfix h
  | case3 c rest _ ih =>
    rw [ih fun hRest => h (hRest.trans (List.suffix_cons c rest).isInfix)]

/-- The comment of a line begins where two slashes stand for the first time. -/
theorem exists_comment {line : List Char} (h : ['/', '/'] <:+: line) :
    ∃ comment, line = stripComment line ++ '/' :: '/' :: comment := by
  fun_induction stripComment line with
  | case1 => exact absurd h (by simp)
  | case2 comment => exact ⟨comment, rfl⟩
  | case3 c rest hOther ih =>
    rcases List.infix_cons_iff.mp h with ⟨more, hMore⟩ | hLater
    · obtain ⟨rfl, rfl⟩ := List.cons.inj hMore
      exact absurd rfl (hOther more rfl)
    · obtain ⟨comment, hComment⟩ := ih hLater
      exact ⟨comment, by rw [List.cons_append, ← hComment]⟩

/-- What follows a comment does not matter. -/
theorem stripComment_append {line : List Char} (h : ['/', '/'] <:+: line) (more : List Char) :
    stripComment (line ++ more) = stripComment line := by
  fun_induction stripComment line with
  | case1 => exact absurd h (by simp)
  | case2 comment => simp [stripComment]
  | case3 c rest hOther ih =>
    rcases List.infix_cons_iff.mp h with ⟨more, hMore⟩ | hLater
    · obtain ⟨rfl, rfl⟩ := List.cons.inj hMore
      exact absurd rfl (hOther more rfl)
    · obtain ⟨d, rest, rfl⟩ := List.exists_cons_of_ne_nil (List.ne_nil_of_mem (hLater.subset
        List.mem_cons_self))
      rw [List.cons_append, stripComment.eq_3 c _ fun after hc hRest => ?_, ih hLater]
      rw [List.cons_append, List.cons.injEq] at hRest
      exact hOther rest hc (by rw [hRest.1])

/-- No two slashes stand in the code of a line. -/
theorem length_stripComment_le (front back : List Char) :
    (stripComment (front ++ '/' :: '/' :: back)).length ≤ front.length := by
  induction front with
  | nil => simp [stripComment]
  | cons c front ih =>
    rw [List.cons_append]
    unfold stripComment
    split
    · simp
    · simp
    · next hEq =>
      obtain ⟨rfl, rfl⟩ := List.cons.inj hEq
      simpa using ih

-- ---------------------------------------------------------------------------
-- The enclosing node
-- ---------------------------------------------------------------------------

/-- Reads characters from right to left with `depth` closing braces to match.
The result is the number left to match, or nothing when an opening brace
comes up that none of them matches. -/
def matchBack : Nat → List Char → Option Nat
  | depth, [] => some depth
  | depth, c :: rest =>
    if c = '\x7d' then matchBack (depth + 1) rest
    else if c = '\x7b' then
      match depth with
      | 0 => none
      | depth + 1 => matchBack depth rest
    else matchBack depth rest

/-- The type that the first word of a line names, if it starts with a capital.
Opening braces at its end do not belong to it. -/
def elementOnLine (line : List Char) : Option (List Char) :=
  match (trimStart line).takeWhile (!isBlank ·) with
  | [] => none
  | c :: rest =>
    if isUppercase c then some ((c :: rest).reverse.dropWhile (· == '\x7b')).reverse else none

/-- The search for the enclosing node through lines given from last to first. -/
def enclosingBack : Nat → List (List Char) → Option (List Char)
  | _, [] => none
  | depth, line :: earlier =>
    let code := trim (stripComment line)
    match matchBack depth code.reverse with
    | none => elementOnLine code
    | some depth => enclosingBack depth earlier

/-- The type of the node that is open at the end of a text. -/
def enclosingElement (before : List Char) : Option (List Char) :=
  enclosingBack 0 (lines before).reverse

-- ---------------------------------------------------------------------------
-- Open braces
-- ---------------------------------------------------------------------------

/-- The number of open braces after one more character. -/
def countBrace (depth : Nat) (c : Char) : Nat :=
  if c = '\x7b' then depth + 1 else if c = '\x7d' then depth - 1 else depth

def openBraces (before : List Char) : Nat :=
  ((lines before).flatMap stripComment).foldl countBrace 0

-- ---------------------------------------------------------------------------
-- The context
-- ---------------------------------------------------------------------------

inductive Context where
  | element
  /-- A key of a node of type `element`. -/
  | property (element : String)
  /-- The value of the key `prop` of a node of type `element`. -/
  | value (element prop : String)
  deriving DecidableEq, Repr

/-- The text before a position: the lines before it, each with a line feed, and
the front part of its own line. -/
def textBefore (text : String) (position : Position) : List Char :=
  ((lines text.toList).take position.line).flatMap (· ++ ['\n']) ++
    (cut position.character ((lineAt? text position).getD [])).1

def contextAt (text : String) (position : Position) : Context :=
  let code := stripComment (cut position.character ((lineAt? text position).getD [])).1
  let before := textBefore text position
  let element := String.ofList ((enclosingElement before).getD [])
  match splitAtFirst? ':' code with
  | some (key, _) => .value element (String.ofList (trim key))
  | none =>
    if openBraces before = 0 then .element
    else if (trim code).head?.any isUppercase then .element
    else .property element

end BindingMarkup.Editor
