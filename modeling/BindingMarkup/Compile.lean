import BindingMarkup.Log
import BindingMarkup.Outline.Builder
import BindingMarkup.Outline.Dump
import BindingMarkup.Script.Unit
import BindingMarkup.Text.Line
import BindingMarkup.Token.Lexer

/-!
# BindingMarkup — compiling a document

The whole way from a text to its script: tokens, outline, script. The
first problem ends it, and then there is no output at all. `log` is what
a run writes to the log on the way, up to the point where it ends.
-/

namespace BindingMarkup

structure CompileOptions where
  /-- The name of the generated factory; without one the unit is anonymous. -/
  moduleName : Option String := none
  /-- Whether the dump of the outline is wanted as well. -/
  dump : Bool := false
  deriving DecidableEq, Repr

structure Compilation where
  code : String
  dump : Option String
  deriving DecidableEq, Repr

def Outline.parse (source : String) : Except Problem Outline :=
  Outline.build (Token.tokenize source)

namespace CompileOptions

/-- The result of a compile whose outline is known. -/
def finish (options : CompileOptions) (outline : Outline) : Compilation where
  code := Script.render outline options.moduleName
  dump := if options.dump then some outline.dump else none

def compile (options : CompileOptions) (source : String) : Except Problem Compilation :=
  (Outline.parse source).map options.finish

-- ---------------------------------------------------------------------------
-- The log of a compile
-- ---------------------------------------------------------------------------

def readingLog (reading : Token.Reading) : List Log.Record :=
  reading.events.map (fun event => ⟨.trace, .tokens, event.describe⟩) ++
    [⟨.debug, .tokens,
      "tokenized " ++ toString reading.lines ++ " lines into " ++
        toString reading.tokens.length ++ " tokens"⟩]

def outlineLog (options : CompileOptions) (outline : Outline) : List Log.Record :=
  let result := options.finish outline
  [⟨.debug, .outline, "built object tree with " ++ toString outline.size ++ " nodes"⟩] ++
    (Text.lines (result.dump.getD "").toList).map
      (fun line => ⟨.info, .dump, String.ofList line⟩) ++
    [⟨.debug, .script,
      "rendered " ++ toString outline.size ++ " nodes into " ++
        toString result.code.utf8ByteSize ++ " bytes"⟩]

def log (options : CompileOptions) (source : String) : List Log.Record :=
  let reading := Token.read source
  readingLog reading ++
    match Outline.build reading.tokens with
    | .ok outline => options.outlineLog outline
    | .error _ => []

end CompileOptions

end BindingMarkup
