import BindingMarkup.Compile
import BindingMarkup.Editor.Cursor
import BindingMarkup.Text.Occurrence

/-!
# BindingMarkup — diagnostics

The problem of a document is shown under the text it was found at. A
problem names its line and the rest of that line from the offending token
on, so the column is where that rest last stands in the line. Should it
not be there, the whole line is marked. Lines and columns are published
as numbers of 32 bits; what does not fit is cut off.
-/

namespace BindingMarkup.Editor

open Text

/-- A problem of a document and the part of the line it is shown under. -/
structure Diagnostic where
  start : Position
  stop : Position
  code : Code
  message : String
  deriving DecidableEq, Repr

/-- A place as it is published, with the low 32 bits of its line and column. -/
def Position.published (line character : Nat) : Position where
  line := line % UInt32.size
  character := character % UInt32.size

/-- The columns between which a problem with the given context is shown. -/
def markedColumns (line context : List Char) : Nat × Nat :=
  match beforeLast? context line with
  | some front =>
    if context.isEmpty then (0, byteLength line)
    else (byteLength front, byteLength front + byteLength context)
  | none => (0, byteLength line)

/-- The diagnostic for a problem of a text. -/
def Diagnostic.ofProblem (text : String) (problem : Problem) : Diagnostic :=
  let row := problem.line - 1
  let line := (lines text.toList)[row]?.getD []
  let (start, stop) := markedColumns line problem.context.toList
  { start := .published row start
    stop := .published row stop
    code := problem.code
    message := problem.message }

/-- The diagnostics of a text: none, or the one for its problem. -/
def diagnostics (text : String) : List Diagnostic :=
  match Outline.parse text with
  | .ok _ => []
  | .error problem => [Diagnostic.ofProblem text problem]

end BindingMarkup.Editor
