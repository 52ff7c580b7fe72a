import BindingMarkup.Command.Run

/-!
# BindingMarkup — the command

Connects a run of the command with the operating system: arguments,
standard streams and files. Everything that is decided about a run is
decided in `BindingMarkup.Command.Run`.
-/

namespace BindingMarkup.Command

/-- The file error that an error of the system stands for. The system gives the
number of an error as it is or negated. -/
def FileError.ofSystem : IO.Error → FileError
  | .noFileOrDirectory _ _ _ => .notFound
  | .noSuchThing _ _ _ => .notFound
  | .inappropriateType _ code details =>
    if code = 20 ∨ -code = 20 then .notDirectory
    else if code = 21 ∨ -code = 21 then .isDirectory
    else .other details
  | error => .other (toString error)

def attempt {α : Type} (action : IO α) : IO (Except FileError α) := do
  try
    return .ok (← action)
  catch error =>
    return .error (FileError.ofSystem error)

/-- The operating system. -/
def Host.operating : Host IO where
  readInput := attempt do (← IO.getStdin).readBinToEnd
  readFile path := attempt (IO.FS.readBinFile path)
  writeFile path content := attempt (IO.FS.writeBinFile path content)
  print text := IO.print text
  printError text := IO.eprint text

end BindingMarkup.Command

open BindingMarkup.Command

def main (arguments : List String) : IO UInt32 := do
  return (← runIn arguments Host.operating).toUInt32
