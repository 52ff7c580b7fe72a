import BindingMarkup.Token

/-!
# BindingMarkup — what can be wrong with a document

Reading tokens never fails, so every problem of a document is a problem
of its grammar, found at a token. A problem holds its **cause** and the
place of that token; the wording and the published code follow from the
cause alone (`Cause.message`, `Cause.code`).
-/

namespace BindingMarkup

/-- The published categories of problems. -/
inductive Code where
  | generic
  | unknownElement
  | noProperty
  | noElementType
  | noTypeName
  | noExpression
  | noColon
  | invalidPropertyName
  | unexpectedEnd
  deriving DecidableEq, Repr

def Code.label : Code → String
  | generic => "GENERIC"
  | unknownElement => "UNKNOWN_ELEMENT"
  | noProperty => "NO_PROPERTY"
  | noElementType => "NO_ELEMENTTYPE"
  | noTypeName => "NO_TYPENAME"
  | noExpression => "NO_EXPRESSION"
  | noColon => "NO_COLON"
  | invalidPropertyName => "INVALID_PROPERTY_NAME"
  | unexpectedEnd => "UNEXPECTED_END"

/-- Why a document has no outline. -/
inductive Cause where
  /-- A second type name where the header of a node should go on. -/
  | elementAfterElement (previous name : String)
  /-- A second mark of a base type in one header. -/
  | secondBase
  /-- The mark of a base type without a new type before it. -/
  | strayIsA
  /-- A brace where the base type of `name` should stand. -/
  | missingBase (name : String)
  /-- A brace without a type name before it. -/
  | missingElement
  /-- The end of a node right after the type name `name`. -/
  | closeAfterHeader (name : String)
  | unmatchedClose
  /-- The key `name` right after the type name `pending`. -/
  | propertyAfterHeader (pending name : String)
  /-- The key `name` without its colon. -/
  | missingColon (name : String)
  | digitName (name : String)
  /-- The key `name` outside all nodes. -/
  | propertyAtRoot (name : String)
  | invalidId (value : String)
  /-- A mark where the value of `name` should stand. -/
  | notAValue (name : String) (found : Token.Kind)
  /-- The end of the document where the value of `name` should stand. -/
  | missingValue (name : String)
  | strayColon
  | endAfterHeader (name : String)
  | unclosed (typeName : String) (line : Nat)
  deriving DecidableEq, Repr

namespace Cause

def code : Cause → Code
  | elementAfterElement _ _ => .unknownElement
  | secondBase => .generic
  | strayIsA => .noTypeName
  | missingBase _ => .noElementType
  | missingElement => .noElementType
  | closeAfterHeader _ => .unknownElement
  | unmatchedClose => .generic
  | propertyAfterHeader _ _ => .unknownElement
  | missingColon _ => .noColon
  | digitName _ => .invalidPropertyName
  | propertyAtRoot _ => .noElementType
  | invalidId _ => .generic
  | notAValue _ _ => .noExpression
  | missingValue _ => .noExpression
  | strayColon => .noProperty
  | endAfterHeader _ => .unexpectedEnd
  | unclosed _ _ => .unexpectedEnd

def message : Cause → String
  | elementAfterElement previous name =>
    "`" ++ previous ++ "` must be followed by '\x7b' or '@', found `" ++ name ++ "`"
  | secondBase => "a type definition takes exactly one base type"
  | strayIsA => "'@' must follow the name of the type being defined"
  | missingBase name => "missing base type for `" ++ name ++ "` before '\x7b'"
  | missingElement => "'\x7b' must follow an element type"
  | closeAfterHeader name => "`" ++ name ++ "` must be followed by '\x7b'"
  | unmatchedClose => "unmatched '\x7d'"
  | propertyAfterHeader pending name =>
    "`" ++ pending ++ "` must be followed by '\x7b', found property `" ++ name ++ "`"
  | missingColon name => "expected ':' after property `" ++ name ++ "`"
  | digitName name => "property name `" ++ name ++ "` starts with a digit"
  | propertyAtRoot name => "property `" ++ name ++ "` is not inside an element"
  | invalidId value => "id `" ++ value ++ "` is not a valid identifier"
  | notAValue name found =>
    "expected a value for property `" ++ name ++ "`, found " ++ found.describe
  | missingValue name => "expected a value for property `" ++ name ++ "`"
  | strayColon => "':' without a property name before it"
  | endAfterHeader name => "unexpected end of input after `" ++ name ++ "`, expected '\x7b'"
  | unclosed typeName line =>
    "unexpected end of input, `" ++ typeName ++ "` opened on line " ++ toString line ++
      " is not closed"

end Cause

/-- A cause and the place it was found at. -/
structure Problem where
  cause : Cause
  line : Nat
  /-- The rest of that line from the offending token on. -/
  context : String
  deriving DecidableEq, Repr

namespace Problem

def atToken (cause : Cause) (t : Token) : Problem where
  cause := cause
  line := t.line
  context := t.context

/-- A problem found at the end: at the last token, or on the first line of a
document without tokens. -/
def atEnd (cause : Cause) : Option Token → Problem
  | some t => Problem.atToken cause t
  | none => { cause, line := 1, context := "" }

def message (problem : Problem) : String :=
  problem.cause.message

def code (problem : Problem) : Code :=
  problem.cause.code

def describe (problem : Problem) : String :=
  "line " ++ toString problem.line ++ ": " ++ problem.message

/-- Line, category and wording, with the context on a line of its own when
there is one. -/
def report (problem : Problem) : String :=
  let head :=
    "line " ++ toString problem.line ++ ": " ++ problem.code.label ++ ": " ++ problem.message
  if problem.context.isEmpty then head else head ++ "\n    " ++ problem.context

end Problem

end BindingMarkup
