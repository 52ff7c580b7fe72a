/-!
# BindingMarkup — log records

A run of the compiler can be followed in a log. A record has a level, the
part of the compiler it comes from, and a line of text. Levels are
ordered from errors, which always matter, to traces of single tokens; a
limit keeps the records at its level and those that matter more.
-/

namespace BindingMarkup.Log

inductive Level where
  | error
  | warn
  | info
  | debug
  | trace
  deriving DecidableEq, Repr

namespace Level

/-- The place of a level in the order, which grows with detail. -/
def rank : Level → Nat
  | error => 1
  | warn => 2
  | info => 3
  | debug => 4
  | trace => 5

def label : Level → String
  | error => "ERROR"
  | warn => "WARN"
  | info => "INFO"
  | debug => "DEBUG"
  | trace => "TRACE"

/-- The limit that a word asks for: a level, or no records at all. -/
def limitOf? : String → Option (Option Level)
  | "off" => some none
  | "error" => some (some error)
  | "warn" => some (some warn)
  | "info" => some (some info)
  | "debug" => some (some debug)
  | "trace" => some (some trace)
  | _ => none

end Level

inductive Origin where
  | tokens
  | outline
  | script
  | dump
  deriving DecidableEq, Repr

def Origin.label : Origin → String
  | tokens => "bml_compiler::tokenizer"
  | outline => "bml_compiler::tree"
  | script => "bml_compiler::codegen"
  | dump => "bml_compiler::dump"

structure Record where
  level : Level
  origin : Origin
  text : String
  deriving DecidableEq, Repr

/-- A record as it stands in the log. -/
def Record.line (record : Record) : String :=
  "[" ++ record.level.label ++ " " ++ record.origin.label ++ "] " ++ record.text ++ "\n"

def within (limit : Option Level) (records : List Record) : List Record :=
  match limit with
  | none => []
  | some level => records.filter fun record => decide (record.level.rank ≤ level.rank)

end BindingMarkup.Log
