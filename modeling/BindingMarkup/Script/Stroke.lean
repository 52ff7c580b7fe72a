import BindingMarkup.Text.Line

/-!
# BindingMarkup — the strokes of a script

A unit of script is written from left to right as a list of **strokes**.
Every stroke is a line. Two kinds are the frame of a function: behind its
opening line the text stands one level deeper, and before its closing line
it comes back. The writer knows its level only by counting these, so
`linesFrom` carries a counter along the strokes.

Two kinds of lines are strokes of their own because the ids of a document
are variables: a declaration lists ids, and an assignment keeps the object
under construction under its id. Which ids a function may assign depends
on its frame.
-/

namespace BindingMarkup.Script

open Text

/-- The kinds of functions in a unit. -/
inductive Frame where
  /-- The unit or the factory of a definition, with variables for ids. -/
  | scope
  /-- The function around an element, which has no such variables. -/
  | closure
  deriving DecidableEq, Repr

inductive Stroke where
  | line (text : String)
  /-- The variables of a function. -/
  | declare (ids : List String)
  /-- Keeps the object under construction under an id. -/
  | assign (id : String)
  /-- The first line of a function; what follows is one level deeper. -/
  | opening (frame : Frame) (text : String)
  /-- The last line of a function, on the level of its first one. -/
  | closing (text : String)
  deriving DecidableEq, Repr

namespace Stroke

def text : Stroke → String
  | line text => text
  | declare ids => "var " ++ ", ".intercalate ids ++ ";"
  | assign id => id ++ " = elem;"
  | opening _ text => text
  | closing text => text

/-- The level that a stroke is written at, when the counter shows `level`. -/
def levelAt (level : Nat) : Stroke → Nat
  | closing _ => level - 1
  | _ => level

/-- What the counter shows behind a stroke. -/
def levelAfter (level : Nat) : Stroke → Nat
  | opening _ _ => level + 1
  | closing _ => level - 1
  | _ => level

/-- The lines of strokes, when the counter shows `level` before the first. -/
def linesFrom : Nat → List Stroke → List OutputLine
  | _, [] => []
  | level, stroke :: more =>
    ⟨stroke.levelAt level, stroke.text⟩ :: linesFrom (stroke.levelAfter level) more

end Stroke

end BindingMarkup.Script
