import BindingMarkup.Command.Arguments
import BindingMarkup.Command.Files
import BindingMarkup.Compile

/-!
# BindingMarkup — a run of the command

A run reads its source, produces one text from it and delivers the text
to a file or to the standard output. Whatever fails on the way ends the
run with exit code 1, a message, and no output; wrong arguments end it
with exit code 2 and nothing done. The dump is shown as soon as the script
is made, before it is delivered.

A run is written once, for any `Host` that can read, write and print
(`runIn`). The command itself runs in the operating system. `run` is the
same program on a system that is a value: it keeps the files and what was
printed, and `Outcome` is what can be seen of it in the end.
-/

namespace BindingMarkup.Command

inductive Failure where
  | readInput (error : FileError)
  | readFile (path : String) (error : FileError)
  /-- The source, known under the given label, has a problem. -/
  | document (label : String) (problem : Problem)
  | writeFile (path : String) (error : FileError)
  deriving DecidableEq, Repr

def Failure.message : Failure → String
  | readInput error => "failed to read stdin: " ++ error.message
  | readFile path error => "failed to read " ++ path ++ ": " ++ error.message
  | document label problem => label ++ ":" ++ problem.report
  | writeFile path error => "failed to write " ++ path ++ ": " ++ error.message

structure Product where
  text : String
  dump : String
  deriving DecidableEq, Repr

/-- What a run asks of the system around it. -/
structure Host (m : Type → Type) where
  readInput : m (Except FileError ByteArray)
  readFile : String → m (Except FileError ByteArray)
  writeFile : String → ByteArray → m (Except FileError Unit)
  print : String → m Unit
  printError : String → m Unit

-- ---------------------------------------------------------------------------
-- The stages of a run
-- ---------------------------------------------------------------------------

namespace Options

/-- What it means for a run that its source cannot be read. -/
def unreadable (options : Options) (error : FileError) : Failure :=
  if isStandardInput options.input then .readInput error else .readFile options.input error

/-- The source as a text, once its bytes have been asked for. -/
def decode (options : Options) (content : Except FileError ByteArray) : Except Failure String :=
  match content with
  | .error error => .error (options.unreadable error)
  | .ok content =>
    match String.fromUTF8? content with
    | some source => .ok source
    | none => .error (options.unreadable .notText)

def scriptModule (options : Options) : Option String :=
  if options.moduleFromFile then some (Command.moduleName options.input) else options.moduleName

/-- How a run compiles its source to script. -/
def compileOptions (options : Options) : CompileOptions where
  moduleName := options.scriptModule
  dump := options.dump

def produce (options : Options) (source : String) : Except Failure Product :=
  let onProblem := Except.mapError (Failure.document options.input)
  match options.emit with
  | .tokens => .ok { text := (Token.listToJson (Token.tokenize source)).render, dump := "" }
  | .outline =>
    onProblem ((Outline.parse source).map fun outline =>
      { text := outline.toJson.render, dump := "" })
  | .script =>
    onProblem ((options.compileOptions.compile source).map fun result =>
      { text := result.code, dump := result.dump.getD "" })

/-- The records that a run writes to its log about its source. -/
def log (options : Options) (source : String) : List Log.Record :=
  Log.within options.logLimit
    (match options.emit with
    | .script => options.compileOptions.log source
    | _ => CompileOptions.readingLog (Token.read source))

/-- The text as it goes to the standard output, which ends with a line feed. -/
def displayed (text : String) : String :=
  if text.toList.getLast? = some '\n' then text else text ++ "\n"

end Options

variable {m : Type → Type} [Monad m]

/-- The end of a run that fails. -/
def Host.fail (host : Host m) (failure : Failure) : m Nat := do
  host.printError ("error: " ++ failure.message ++ "\n")
  return 1

namespace Options

/-- The bytes of the source. -/
def content (options : Options) (host : Host m) : m (Except FileError ByteArray) :=
  if isStandardInput options.input then host.readInput else host.readFile options.input

/-- Delivers what a run made of its source. -/
def deliver (options : Options) (host : Host m) (product : Product) : m Nat := do
  host.printError product.dump
  match options.output with
  | none =>
    host.print (displayed product.text)
    return 0
  | some path =>
    match ← host.writeFile path product.text.toUTF8 with
    | .ok _ => return 0
    | .error error => host.fail (.writeFile path error)

def runIn (options : Options) (host : Host m) : m Nat := do
  match options.decode (← options.content host) with
  | .error failure => host.fail failure
  | .ok source =>
    host.printError (String.join ((options.log source).map Log.Record.line))
    match options.produce source with
    | .error failure => host.fail failure
    | .ok product => options.deliver host product

end Options

-- ---------------------------------------------------------------------------
-- The command
-- ---------------------------------------------------------------------------

def versionText : String := "bmlc 0.1.0\n"

def usage : String := "Usage: bmlc [OPTIONS] <INPUT>\n"

def helpText : String :=
  "Compile .bml markup to JavaScript\n\n" ++ usage ++
    "\nArguments:\n" ++
    "  <INPUT>  Source file, or `-` for stdin\n" ++
    "\nOptions:\n" ++
    "  -o, --output <OUTPUT>   Write output here instead of stdout\n" ++
    "      --module <MODULE>   Name of the generated factory function\n" ++
    "      --module-from-file  Derive the factory name from the input file name\n" ++
    "      --dump              Print the object tree to stderr before generating code\n" ++
    "      --emit <EMIT>       What to write: js, tokens or tree\n" ++
    "  -v, --verbose...        Raise log verbosity (-v info, -vv debug, -vvv trace)\n" ++
    "      --log <LOG>         Log level; overrides -v\n" ++
    "  -h, --help              Print help\n" ++
    "  -V, --version           Print version\n"

/-- One run of the command with its arguments, which ends with an exit code. -/
def runIn (arguments : List String) (host : Host m) : m Nat := do
  match Request.ofArguments arguments with
  | .error error =>
    host.printError ("error: " ++ error.message ++ "\n\n" ++ usage)
    return 2
  | .ok .help =>
    host.print helpText
    return 0
  | .ok .version =>
    host.print versionText
    return 0
  | .ok (.run options) => options.runIn host

-- ---------------------------------------------------------------------------
-- A system as a value
-- ---------------------------------------------------------------------------

/-- What a run has printed and written so far. -/
structure Trace where
  stdout : String := ""
  stderr : String := ""
  files : Files

structure Outcome extends Trace where
  exit : Nat

/-- A system with the given standard input and directories, whose files change along
a run. -/
def Host.traced (stdin : ByteArray) (directories : Directories) : Host (StateM Trace) where
  readInput := pure (.ok stdin)
  readFile path := do return (← get).files.read directories path
  writeFile path content := modifyGet fun trace =>
    let (result, files) := trace.files.write directories path content
    (result, { trace with files })
  print text := modify fun trace => { trace with stdout := trace.stdout ++ text }
  printError text := modify fun trace => { trace with stderr := trace.stderr ++ text }

/-- What is left behind by actions that start with the given files. -/
def Outcome.of (actions : StateM Trace Nat) (files : Files) : Outcome :=
  let (exit, trace) := actions.run { files }
  { trace with exit }

/-- One run of the command between the given files. -/
def run (arguments : List String) (stdin : ByteArray) (files : Files)
    (directories : Directories := {}) : Outcome :=
  .of (runIn arguments (.traced stdin directories)) files

end BindingMarkup.Command
