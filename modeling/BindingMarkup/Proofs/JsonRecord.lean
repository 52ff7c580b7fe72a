import BindingMarkup.Proofs.Delivery
import BindingMarkup.Proofs.JsonReader

/-!
# BindingMarkup — tokens and outlines from their JSON

What the command emits as JSON can be turned back into what it was made of.
A record is read from an object by the names of its members, and members
that are there for some records only, the text of a token and the base of
a definition, tell these records from the others.

The main statement, `emitted_json`, says that the two readers recover every
list of tokens and every outline from its text. So two different ones never
have the same text, and a run of the command that emits JSON has lost
nothing of what it read.
-/

namespace BindingMarkup

open Text

namespace Text.Json

-- ---------------------------------------------------------------------------
-- Members of objects
-- ---------------------------------------------------------------------------

def member? (json : Json) (key : String) : Option Json :=
  match json with
  | .object members => members.lookup key
  | _ => none

def string? : Json → Option String
  | .string s => some s
  | _ => none

def number? : Json → Option Nat
  | .number n => some n
  | _ => none

/-- A value that may be missing. -/
def optional? {α : Type} (decode : Json → Option α) : Json → Option (Option α)
  | .null => some none
  | json => (decode json).map some

def list? {α : Type} (decode : Json → Option α) : Json → Option (List α)
  | .array items => items.mapM decode
  | _ => none

/-- A list is decoded if each of its items is. -/
theorem list?_map {α : Type} {encode : α → Json} {decode : Json → Option α}
    (h : ∀ a, decode (encode a) = some a) (items : List α) :
    list? decode (.array (items.map encode)) = some items := by
  unfold list?
  induction items with
  | nil => rfl
  | cons a items ih => simp [h a, ih]

end Text.Json

-- ---------------------------------------------------------------------------
-- Tokens
-- ---------------------------------------------------------------------------

namespace Token

/-- The kind with a label, and with a text if it is one of those that have one. -/
def Kind.ofLabel? (label : String) (text : Option String) : Option Kind :=
  match label with
  | "ELEMENT" => text.map .element
  | "EXPRESSION" => text.map .expression
  | "SCOPE_START" => some .scopeStart
  | "SCOPE_END" => some .scopeEnd
  | "COLON" => some .colon
  | "IS_A" => some .isA
  | "SEMICOLON" => some .semicolon
  | _ => none

def ofJson? (json : Json) : Option Token := do
  let label ← (json.member? "kind").bind Json.string?
  let kind ← Kind.ofLabel? label ((json.member? "data").bind Json.string?)
  let line ← (json.member? "line").bind Json.number?
  let context ← (json.member? "context").bind Json.string?
  return { kind, line, context }

/-- The tokens that a text stands for, if it is the JSON of tokens. -/
def readList (text : String) : Option (List Token) :=
  (Json.read text).bind (Json.list? ofJson?)

/-- A token is decoded from its record. -/
theorem ofJson?_toJson (t : Token) : ofJson? t.toJson = some t := by
  obtain ⟨kind, line, context⟩ := t
  cases kind with
  | element name => rfl
  | expression text => rfl
  | _ => rfl

/-- A list of tokens is read back from its text. -/
theorem readList_render (tokens : List Token) :
    readList (listToJson tokens).render = some tokens := by
  rw [readList, Json.read_render, listToJson]
  exact Json.list?_map ofJson?_toJson tokens

end Token

-- ---------------------------------------------------------------------------
-- Outlines
-- ---------------------------------------------------------------------------

def Property.ofJson? (json : Json) : Option Property := do
  let name ← (json.member? "name").bind Json.string?
  let value ← (json.member? "value").bind Json.string?
  let line ← (json.member? "line").bind Json.number?
  return { name, value, line }

def Delegate.ofJson? (json : Json) : Option Delegate := do
  let name ← (json.member? "name").bind Json.string?
  let target ← (json.member? "target").bind Json.string?
  let line ← (json.member? "line").bind Json.number?
  return { name, target, line }

/-- The role with a label, and with a base if it is a definition. -/
def Role.ofLabel? (label : String) (base : Option String) : Option Role :=
  match label with
  | "root" => some .root
  | "element" => some .element
  | "type_definition" => base.map .definition
  | _ => none

def Node.ofJson? (json : Json) : Option Node := do
  let id ← (json.member? "id").bind (Json.optional? Json.string?)
  let typeName ← (json.member? "type_name").bind Json.string?
  let label ← (json.member? "kind").bind Json.string?
  let role ← Role.ofLabel? label ((json.member? "base").bind Json.string?)
  let parent ← (json.member? "parent").bind (Json.optional? Json.number?)
  let types ← (json.member? "types").bind (Json.list? Json.number?)
  let elements ← (json.member? "elements").bind (Json.list? Json.number?)
  let properties ← (json.member? "properties").bind (Json.list? Property.ofJson?)
  let delegates ← (json.member? "delegates").bind (Json.list? Delegate.ofJson?)
  let line ← (json.member? "line").bind Json.number?
  return { id, typeName, role, parent, types, elements, properties, delegates, line }

def Outline.ofJson? (json : Json) : Option Outline := do
  let nodes ← (json.member? "nodes").bind (Json.list? Node.ofJson?)
  return { nodes := nodes.toArray }

/-- The outline that a text stands for, if it is the JSON of one. -/
def Outline.read (text : String) : Option Outline :=
  (Json.read text).bind Outline.ofJson?

theorem Property.ofJson?_toJson (p : Property) : Property.ofJson? p.toJson = some p := rfl

theorem Delegate.ofJson?_toJson (d : Delegate) : Delegate.ofJson? d.toJson = some d := rfl

/-- A list of places is decoded. -/
theorem list?_numbers (places : List Nat) :
    Json.list? Json.number? (.array (places.map .number)) = some places := by
  have hNumber : ∀ n, Json.number? (.number n) = some n := fun _ => rfl
  exact Json.list?_map hNumber places

/-- A node is read back, whatever its role: its label tells the roles apart, and the base is
there when the label asks for it. -/
theorem Node.ofJson?_toJson (node : Node) : Node.ofJson? node.toJson = some node := by
  obtain ⟨id, typeName, role, parent, types, elements, properties, delegates, line⟩ := node
  have hId : Json.optional? Json.string? (Json.ofOption .string id) = some id := by
    cases id <;> rfl
  have hParent : Json.optional? Json.number? (Json.ofOption .number parent) = some parent := by
    cases parent <;> rfl
  have hProperties := Json.list?_map Property.ofJson?_toJson properties
  have hDelegates := Json.list?_map Delegate.ofJson?_toJson delegates
  cases role
  all_goals
    simp [Node.ofJson?, Node.toJson, Json.member?, List.lookup_cons, Json.string?, Json.number?,
      Role.base?, Role.label, Role.ofLabel?, hId, hParent, list?_numbers, hProperties, hDelegates]

/-- An outline is read back from its text. -/
theorem Outline.read_render (outline : Outline) :
    Outline.read outline.toJson.render = some outline := by
  have hNodes := Json.list?_map Node.ofJson?_toJson outline.nodes.toList
  rw [Outline.read, Json.read_render]
  show (do
    let nodes ← Json.list? Node.ofJson? (.array (outline.nodes.toList.map Node.toJson))
    return { nodes := nodes.toArray : Outline }) = some outline
  rw [hNodes]
  rfl

-- ---------------------------------------------------------------------------
-- What the command emits
-- ---------------------------------------------------------------------------

/-- **The emitted JSON loses nothing.** Every list of tokens and every outline is recovered
from its text by a reader that knows nothing but the text; so equal texts come from equal
tokens, and from equal outlines. In particular this holds of what a run of the command
emits for its source. -/
theorem emitted_json :
    (∀ tokens, Token.readList (Token.listToJson tokens).render = some tokens) ∧
      (∀ outline : Outline, Outline.read outline.toJson.render = some outline) ∧
      (∀ tokens others,
        (Token.listToJson tokens).render = (Token.listToJson others).render → tokens = others) ∧
      (∀ outline other : Outline,
        outline.toJson.render = other.toJson.render → outline = other) ∧
      ∀ (options : Command.Options) (source : String) (product : Command.Product),
        options.produce source = .ok product →
          (options.emit = .tokens → Token.readList product.text = some (Token.tokenize source)) ∧
          (options.emit = .outline → ∃ outline, Outline.parse source = .ok outline ∧
            Outline.read product.text = some outline) := by
  refine ⟨Token.readList_render, Outline.read_render, ?_, ?_, ?_⟩
  · intro tokens others hText
    have hTokens := Token.readList_render tokens
    rw [hText, Token.readList_render] at hTokens
    exact (Option.some.inj hTokens).symm
  · intro outline other hText
    have hOutline := outline.read_render
    rw [hText, Outline.read_render] at hOutline
    exact (Option.some.inj hOutline).symm
  · intro options source product hProduct
    constructor
    · intro hEmit
      rw [Command.Options.produce_of_tokens hEmit, Except.ok.injEq] at hProduct
      rw [← hProduct]
      exact Token.readList_render (Token.tokenize source)
    · intro hEmit
      have hOther : options.emit ≠ .tokens := by simp [hEmit]
      obtain ⟨outline, hParse, rfl⟩ := (Command.Options.produce_eq_ok_iff hOther).mp hProduct
      refine ⟨outline, hParse, ?_⟩
      rw [Command.Options.productOf_of_outline hEmit]
      exact outline.read_render

/-- A card with an id, a property and an element inside. -/
def titledSource : String :=
  "Card \x7b\n    id: card\n    title: \"a\tb\"\n    Label \x7b\n    \x7d\n\x7d\n"

def emitting (emit : Command.Emit) : Command.Options where
  input := "-"
  output := none
  moduleName := none
  moduleFromFile := false
  dump := false
  emit := emit
  logLimit := none

/-- A document with quotes and a control character in a value. -/
theorem emitted_json_titled :
    (∃ product, (emitting .tokens).produce titledSource = .ok product ∧
      Token.readList product.text = some (Token.tokenize titledSource)) ∧
    (∃ product outline, (emitting .outline).produce titledSource = .ok product ∧
      Outline.parse titledSource = .ok outline ∧ Outline.read product.text = some outline) ∧
    (∀ others, (Token.listToJson (Token.tokenize titledSource)).render =
      (Token.listToJson others).render → Token.tokenize titledSource = others) := by
  obtain ⟨-, -, hTokens, -, hProduce⟩ := emitted_json
  have hOutline : ((emitting .outline).produce titledSource).toOption.isSome = true := by
    decide +kernel
  refine ⟨⟨_, rfl, (hProduce (emitting .tokens) titledSource _ rfl).1 rfl⟩, ?_, hTokens _⟩
  cases hRun : (emitting .outline).produce titledSource with
  | error failure => simp [hRun, Except.toOption] at hOutline
  | ok product =>
    obtain ⟨outline, hParse, hRead⟩ := (hProduce _ _ _ hRun).2 rfl
    exact ⟨product, outline, rfl, hParse, hRead⟩

end BindingMarkup
