import BindingMarkup.Log

/-!
# BindingMarkup — arguments of the command

The command takes one input and options. An option has a long name after
two dashes, some have a letter after one dash as well, and letters may be
written together. The value of an option follows as the next argument, or
directly: behind `=` for a long name, behind the letter with or without
`=` for a short one. A value that follows as an argument of its own must
not start with a dash, except for a single dash, which is a name like any
other. Behind `--` every argument is an input.

Arguments are read from left to right and the first mistake ends the
reading. Asking for help or for the version also ends it, whatever
follows.
-/

namespace BindingMarkup.Command

-- ---------------------------------------------------------------------------
-- Options
-- ---------------------------------------------------------------------------

inductive Emit where
  | script
  | tokens
  | outline
  deriving DecidableEq, Repr

/-- The word that asks for an output. -/
def Emit.ofName? : String → Option Emit
  | "js" => some script
  | "tokens" => some tokens
  | "tree" => some outline
  | _ => none

structure Options where
  /-- The source file, or `-` for the standard input. -/
  input : String
  /-- The file to write; without one the output goes to the standard output. -/
  output : Option String
  moduleName : Option String
  moduleFromFile : Bool
  dump : Bool
  emit : Emit
  /-- The records that the log shows. -/
  logLimit : Option Log.Level
  deriving DecidableEq, Repr

inductive Request where
  | run (options : Options)
  | help
  | version
  deriving DecidableEq, Repr

inductive Valued where
  | output
  | moduleName
  | emit
  | log
  deriving DecidableEq, Repr

inductive Switch where
  | moduleFromFile
  | dump
  | verbose
  | help
  | version
  deriving DecidableEq, Repr

def optionOfName? : String → Option (Valued ⊕ Switch)
  | "output" => some (.inl .output)
  | "module" => some (.inl .moduleName)
  | "emit" => some (.inl .emit)
  | "log" => some (.inl .log)
  | "module-from-file" => some (.inr .moduleFromFile)
  | "dump" => some (.inr .dump)
  | "verbose" => some (.inr .verbose)
  | "help" => some (.inr .help)
  | "version" => some (.inr .version)
  | _ => none

def optionOfLetter? (c : Char) : Option (Valued ⊕ Switch) :=
  if c = 'o' then some (.inl .output)
  else if c = 'v' then some (.inr .verbose)
  else if c = 'h' then some (.inr .help)
  else if c = 'V' then some (.inr .version)
  else none

inductive UsageError where
  | unknownOption (argument : String)
  | unexpectedValue (argument : String)
  | missingValue (option : Valued)
  | emptyValue
  | invalidEmit (value : String)
  | repeated
  | extraInput (argument : String)
  | missingInput
  | twoModuleNames
  deriving DecidableEq, Repr

def UsageError.message : UsageError → String
  | unknownOption argument => "unexpected argument '" ++ argument ++ "'"
  | unexpectedValue argument => "unexpected value in '" ++ argument ++ "'"
  | missingValue _ => "an option needs a value"
  | emptyValue => "a path cannot be empty"
  | invalidEmit value => "invalid value '" ++ value ++ "' for '--emit': js, tokens or tree"
  | repeated => "an option cannot be used twice"
  | extraInput argument => "unexpected argument '" ++ argument ++ "'"
  | missingInput => "an input is required"
  | twoModuleNames => "'--module' cannot be used with '--module-from-file'"

-- ---------------------------------------------------------------------------
-- Reading
-- ---------------------------------------------------------------------------

/-- What has been read of the arguments. -/
structure Parsed where
  input : Option String := none
  output : Option String := none
  moduleName : Option String := none
  moduleFromFile : Bool := false
  dump : Bool := false
  emit : Option Emit := none
  verbosity : Nat := 0
  log : Option String := none
  deriving DecidableEq, Repr

namespace Parsed

/-- Enters an input. There is one, and it is a path, which is never empty. -/
def addInput (parsed : Parsed) (argument : String) : Except UsageError Parsed :=
  if parsed.input.isSome then .error (.extraInput argument)
  else if argument.isEmpty then .error .emptyValue
  else .ok { parsed with input := some argument }

/-- Enters the value of an option, which may be given once. -/
def addValue (parsed : Parsed) (option : Valued) (value : String) :
    Except UsageError Parsed :=
  match option with
  | .output =>
    if parsed.output.isSome then .error .repeated
    else if value.isEmpty then .error .emptyValue
    else .ok { parsed with output := some value }
  | .moduleName =>
    if parsed.moduleName.isSome then .error .repeated
    else .ok { parsed with moduleName := some value }
  | .log =>
    if parsed.log.isSome then .error .repeated else .ok { parsed with log := some value }
  | .emit =>
    if parsed.emit.isSome then .error .repeated
    else
      match Emit.ofName? value with
      | some emit => .ok { parsed with emit := some emit }
      | none => .error (.invalidEmit value)

inductive Move where
  | next (parsed : Parsed)
  /-- The next argument is the value of an option. -/
  | value (parsed : Parsed) (option : Valued)
  | stop (request : Request)

def addSwitch (parsed : Parsed) : Switch → Except UsageError Move
  | .moduleFromFile =>
    if parsed.moduleFromFile then .error .repeated
    else .ok (.next { parsed with moduleFromFile := true })
  | .dump =>
    if parsed.dump then .error .repeated else .ok (.next { parsed with dump := true })
  | .verbose => .ok (.next { parsed with verbosity := parsed.verbosity + 1 })
  | .help => .ok (.stop .help)
  | .version => .ok (.stop .version)

/-- Reads a long option, given by what follows the two dashes. -/
def readLong (parsed : Parsed) (body : List Char) : Except UsageError Move :=
  let argument := String.ofList ('-' :: '-' :: body)
  let name := String.ofList (body.takeWhile (· != '='))
  let attached :=
    match body.dropWhile (· != '=') with
    | [] => none
    | _ :: value => some (String.ofList value)
  match optionOfName? name, attached with
  | none, _ => .error (.unknownOption argument)
  | some (.inl option), some value => (parsed.addValue option value).map .next
  | some (.inl option), none => .ok (.value parsed option)
  | some (.inr _), some _ => .error (.unexpectedValue argument)
  | some (.inr switch), none => parsed.addSwitch switch

/-- Reads the letters behind one dash. -/
def readLetters (parsed : Parsed) : List Char → Except UsageError Move
  | [] => .ok (.next parsed)
  | c :: rest =>
    match optionOfLetter? c with
    | none => .error (.unknownOption (String.ofList ['-', c]))
    | some (.inl option) =>
      match rest with
      | [] => .ok (.value parsed option)
      | '=' :: value => (parsed.addValue option (String.ofList value)).map .next
      | value => (parsed.addValue option (String.ofList value)).map .next
    | some (.inr switch) =>
      match parsed.addSwitch switch with
      | .ok (.next parsed) => parsed.readLetters rest
      | result => result

/-- Reads an argument that is not the value of an option. -/
def readArgument (parsed : Parsed) (argument : String) : Except UsageError Move :=
  match argument.toList with
  | '-' :: '-' :: body => parsed.readLong body
  | '-' :: c :: rest => parsed.readLetters (c :: rest)
  | _ => (parsed.addInput argument).map .next

/-- Whether an argument can be the value of the option before it. -/
def isValue (argument : String) : Bool :=
  match argument.toList with
  | '-' :: _ :: _ => false
  | _ => true

/-- The limit of the log: a level named in the arguments, or else warnings and
one level more for each `-v`. -/
def logLimit (parsed : Parsed) : Option Log.Level :=
  match parsed.log.bind Log.Level.limitOf? with
  | some limit => limit
  | none =>
    match parsed.verbosity with
    | 0 => some .warn
    | 1 => some .info
    | 2 => some .debug
    | _ => some .trace

def finish (parsed : Parsed) : Except UsageError Request :=
  match parsed.input with
  | none => .error .missingInput
  | some input =>
    if parsed.moduleName.isSome && parsed.moduleFromFile then .error .twoModuleNames
    else
      .ok (.run
        { input
          output := parsed.output
          moduleName := parsed.moduleName
          moduleFromFile := parsed.moduleFromFile
          dump := parsed.dump
          emit := parsed.emit.getD .script
          logLimit := parsed.logLimit })

/-- Reads the arguments from left to right. -/
def readAll : Parsed → List String → Except UsageError Request
  | parsed, [] => parsed.finish
  | parsed, argument :: rest =>
    if argument = "--" then (rest.foldlM addInput parsed).bind finish
    else
      match parsed.readArgument argument with
      | .error e => .error e
      | .ok (.stop request) => .ok request
      | .ok (.next parsed) => parsed.readAll rest
      | .ok (.value parsed option) =>
        match rest with
        | [] => .error (.missingValue option)
        | value :: rest =>
          if isValue value then
            match parsed.addValue option value with
            | .error e => .error e
            | .ok parsed => parsed.readAll rest
          else .error (.missingValue option)

end Parsed

/-- What the arguments of the command ask for. -/
def Request.ofArguments (arguments : List String) : Except UsageError Request :=
  Parsed.readAll {} arguments

end BindingMarkup.Command
