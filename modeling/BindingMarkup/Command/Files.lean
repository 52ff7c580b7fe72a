import BindingMarkup.Command.Path

/-!
# BindingMarkup — the files around a run

A run of the command takes place in a directory of a file system. The
system has plain files and directories and no links, everything in it may
be read and written, and there is always room for more. A place in it is
given by the names that lead to it from the top.

A path starts at the top if its first character is a slash, and in the
working directory otherwise. It is followed segment by segment, and every
segment needs a directory to start from, also an empty one behind a last
slash. `..` leads to the directory around a place; around the top there is
only the top itself.

A run may create files and change them, but no directories. So what is
there apart from files is kept by itself, in `Directories`, and a write
gives the files back as they are afterwards, whether it succeeds or not.

The errors are those of the operating system, with its wording.
-/

namespace BindingMarkup.Command

inductive FileError where
  | notFound
  | notDirectory
  | isDirectory
  /-- The bytes are not the UTF-8 form of a text. -/
  | notText
  /-- Any other error, with the wording of the system. -/
  | other (text : String)
  deriving DecidableEq, Repr

def FileError.message : FileError → String
  | notFound => "No such file or directory (os error 2)"
  | notDirectory => "Not a directory (os error 20)"
  | isDirectory => "Is a directory (os error 21)"
  | notText => "stream did not contain valid UTF-8"
  | other text => text

/-- The names that lead to a place from the top of the file system. -/
abbrev Names := List (List Char)

/-- The files, by the names that lead to them. -/
abbrev Files := List (Names × ByteArray)

/-- The directories that are there even if no file is in them. All directories around
them are there as well, and so are those around a file. -/
structure Directories where
  /-- The directory in which a run takes place. -/
  working : Names := []
  others : List Names := []
  deriving DecidableEq, Repr

inductive Place where
  | file (content : ByteArray)
  | directory
  | missing

/-- Where one segment of a path leads. -/
def Names.move (names : Names) (segment : List Char) : Names :=
  if segment = [] ∨ segment = ['.'] then names
  else if segment = ['.', '.'] then names.dropLast
  else names ++ [segment]

/-- The place at which a path starts. -/
def Directories.start (directories : Directories) (path : List Char) : Names :=
  if path.head? = some '/' then [] else directories.working

namespace Files

-- ---------------------------------------------------------------------------
-- Following a path
-- ---------------------------------------------------------------------------

def hasDirectory (files : Files) (directories : Directories) (names : Names) : Bool :=
  (directories.working :: directories.others).any (fun directory => names.isPrefixOf directory) ||
    files.any fun file => names.isPrefixOf file.1

def placeAt (files : Files) (directories : Directories) (names : Names) : Place :=
  match files.lookup names with
  | some content => .file content
  | none => if files.hasDirectory directories names then .directory else .missing

/-- Follows one segment, which needs a directory to start from. -/
def follow (files : Files) (directories : Directories) (names : Names) (segment : List Char) :
    Except FileError Names :=
  match files.placeAt directories names with
  | .directory => .ok (names.move segment)
  | .file _ => .error .notDirectory
  | .missing => .error .notFound

-- ---------------------------------------------------------------------------
-- Reading and writing
-- ---------------------------------------------------------------------------

def read (files : Files) (directories : Directories) (path : String) :
    Except FileError ByteArray := do
  let names ← (segments path.toList).foldlM (files.follow directories)
    (directories.start path.toList)
  match files.placeAt directories names with
  | .file content => .ok content
  | .directory => .error .isDirectory
  | .missing => .error .notFound

/-- Puts a content under the names that lead to a file. -/
def put (files : Files) (names : Names) (content : ByteArray) : Files :=
  (names, content) :: files.filter fun file => file.1 != names

/-- The place of the file that a path asks to write: one that is there, or a new one
in a directory that is there. A path that ends in a slash can only name a
directory. -/
def target (files : Files) (directories : Directories) (path : String) :
    Except FileError Names := do
  let reversed := (segments path.toList).reverse
  match reversed.dropWhile List.isEmpty with
  | [] => .error .isDirectory
  | last :: front =>
    let parent ← front.reverse.foldlM (files.follow directories) (directories.start path.toList)
    let names ← files.follow directories parent last
    if reversed.head? = some [] then .error .isDirectory
    else
      match files.placeAt directories names with
      | .directory => .error .isDirectory
      | _ => .ok names

/-- Opens the file at a path for writing. It is there afterwards, and empty. -/
def create (files : Files) (directories : Directories) (path : String) :
    Except FileError Names × Files :=
  match files.target directories path with
  | .ok names => (.ok names, files.put names .empty)
  | .error error => (.error error, files)

/-- Writes the file at a path, which is opened first and then filled. -/
def write (files : Files) (directories : Directories) (path : String) (content : ByteArray) :
    Except FileError Unit × Files :=
  match files.create directories path with
  | (.ok names, files) => (.ok (), files.put names content)
  | (.error error, files) => (.error error, files)

end Files

end BindingMarkup.Command
