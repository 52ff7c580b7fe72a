import BindingMarkup.Command.Arguments
import BindingMarkup.Command.Files
import BindingMarkup.Command.Path
import BindingMarkup.Command.Run
import BindingMarkup.Compile
import BindingMarkup.Editor.Completion
import BindingMarkup.Editor.Context
import BindingMarkup.Editor.Cursor
import BindingMarkup.Editor.Describe
import BindingMarkup.Editor.Diagnostic
import BindingMarkup.Editor.Hover
import BindingMarkup.Editor.KnownTypes
import BindingMarkup.Editor.Session
import BindingMarkup.Log
import BindingMarkup.Lookup
import BindingMarkup.Outline
import BindingMarkup.Outline.Builder
import BindingMarkup.Outline.Dump
import BindingMarkup.Problem
import BindingMarkup.Proofs.Draft
import BindingMarkup.Script.Binding
import BindingMarkup.Script.Stroke
import BindingMarkup.Script.Unit
import BindingMarkup.Text.Alphabetic
import BindingMarkup.Text.Blank
import BindingMarkup.Text.Case
import BindingMarkup.Text.Hidden
import BindingMarkup.Text.Json
import BindingMarkup.Text.Line
import BindingMarkup.Text.Literal
import BindingMarkup.Text.Numeric
import BindingMarkup.Text.Occurrence
import BindingMarkup.Text.Quote
import BindingMarkup.Token
import BindingMarkup.Token.Block
import BindingMarkup.Token.Lexer
import BindingMarkup.Token.Lookahead
import BindingMarkup.Token.Span
import BindingMarkup.Main
import BindingMarkup.Proofs.Grammar
import BindingMarkup.Proofs.Position
import BindingMarkup.Proofs.Diagnostic
import BindingMarkup.Proofs.Markup
import BindingMarkup.Proofs.RoundTrip
import BindingMarkup.Proofs.Shape
import BindingMarkup.Proofs.Forest
import BindingMarkup.Proofs.Printing
import BindingMarkup.Proofs.Scoping
import BindingMarkup.Proofs.OneLine
import BindingMarkup.Proofs.Continuation
import BindingMarkup.Proofs.Concatenation
import BindingMarkup.Proofs.Margin
import BindingMarkup.Proofs.Reindent
import BindingMarkup.Proofs.Capture
import BindingMarkup.Proofs.Vocabulary
import BindingMarkup.Proofs.History
import BindingMarkup.Proofs.Arguments
import BindingMarkup.Proofs.Files
import BindingMarkup.Proofs.Delivery
import BindingMarkup.Proofs.Bases
import BindingMarkup.Proofs.Interleaving
import BindingMarkup.Proofs.Clauses
import BindingMarkup.Proofs.Enclosure
import BindingMarkup.Proofs.CommentFree
import BindingMarkup.Proofs.Nesting
import BindingMarkup.Proofs.ObjectKey
import BindingMarkup.Proofs.TypeNames
import BindingMarkup.Proofs.Braces
import BindingMarkup.Proofs.OpenNode
import BindingMarkup.Proofs.OpenBraces
import BindingMarkup.Proofs.Word
import BindingMarkup.Proofs.KeyHover
import BindingMarkup.Proofs.Reach
import BindingMarkup.Proofs.TypeHover
import BindingMarkup.Proofs.EntryHover
import BindingMarkup.Proofs.WordBoundary
import BindingMarkup.Proofs.ScriptBrackets
import BindingMarkup.Proofs.JsonReader
import BindingMarkup.Proofs.JsonRecord
import BindingMarkup.Proofs.Activation
import BindingMarkup.Proofs.NodeCall
import BindingMarkup.Proofs.Variables
import BindingMarkup.Proofs.LiteralReader
import BindingMarkup.Proofs.ModuleName
import BindingMarkup.Proofs.Progress
