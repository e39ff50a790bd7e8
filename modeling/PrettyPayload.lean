import PrettyPayload.Text.Basic
import PrettyPayload.Text.Digit
import PrettyPayload.Text.Number
import PrettyPayload.Text.Path
import PrettyPayload.Text.Alphanumeric
import PrettyPayload.Text.ControlSequence
import PrettyPayload.Tree
import PrettyPayload.Kind
import PrettyPayload.LineEnding
import PrettyPayload.Options
import PrettyPayload.Css.Basic
import PrettyPayload.Css.Error
import PrettyPayload.Css.Scan
import PrettyPayload.Css.Comment
import PrettyPayload.Css.Spacing
import PrettyPayload.Css.Reader
import PrettyPayload.Css.Printer
import PrettyPayload.Json.Number
import PrettyPayload.Json.Quoted
import PrettyPayload.Json.Value
import PrettyPayload.Json.Reader
import PrettyPayload.Json.Printer
import PrettyPayload.Html.NamedCharacter
import PrettyPayload.Html.Reference
import PrettyPayload.Html.Token
import PrettyPayload.Html.Lexer
import PrettyPayload.Html.Vocabulary
import PrettyPayload.Html.Forest
import PrettyPayload.Html.Page.Basic
import PrettyPayload.Html.Page.Formatting
import PrettyPayload.Html.Page.Body
import PrettyPayload.Html.Page.Table
import PrettyPayload.Html.Page.Step
import PrettyPayload.Html.Document
import PrettyPayload.Xml.Character
import PrettyPayload.Xml.Name
import PrettyPayload.Xml.Reference
import PrettyPayload.Xml.Token
import PrettyPayload.Xml.Lexer
import PrettyPayload.Xml.Content
import PrettyPayload.Xml.Prolog
import PrettyPayload.Xml.Document
import PrettyPayload.Markup.Basic
import PrettyPayload.Markup.Document
import PrettyPayload.Markup.Escape
import PrettyPayload.Markup.Layout
import PrettyPayload.Markup.Serializer
import PrettyPayload.Markup.StylePass
import PrettyPayload.Markup.OfHtml
import PrettyPayload.Markup.OfXml
import PrettyPayload.Format.Failure
import PrettyPayload.Format.Event
import PrettyPayload.Format.Css
import PrettyPayload.Format.Html
import PrettyPayload.Format.Json
import PrettyPayload.Format.Xml
import PrettyPayload.Format.Formatter
import PrettyPayload.Dispatcher
import PrettyPayload.Toml.Lexical
import PrettyPayload.Toml.Number
import PrettyPayload.Toml.Item
import PrettyPayload.Toml.Reader
import PrettyPayload.Settings.Basic
import PrettyPayload.Settings.File
import PrettyPayload.CommandLine
import PrettyPayload.Pattern.Fault
import PrettyPayload.Pattern.Node
import PrettyPayload.Pattern.Lexical
import PrettyPayload.Pattern.Bracket
import PrettyPayload.Pattern.Group
import PrettyPayload.Pattern.Reader
import PrettyPayload.Pattern.Matching
import PrettyPayload.Pattern.Meaning
import PrettyPayload.Log
import PrettyPayload.Program
import PrettyPayload.Main
import PrettyPayload.Proofs.Text.Trim
import PrettyPayload.Proofs.Text.Join
import PrettyPayload.Proofs.Css.Clean
import PrettyPayload.Proofs.Css.Comment
import PrettyPayload.Proofs.Css.Scan
import PrettyPayload.Proofs.Css.Blank
import PrettyPayload.Proofs.Css.Passage
import PrettyPayload.Proofs.Css.Tight
import PrettyPayload.Proofs.Css.WellFormed
import PrettyPayload.Proofs.Css.Legible
import PrettyPayload.Proofs.Css.RoundTrip
import PrettyPayload.Proofs.Css.Reread
import PrettyPayload.Proofs.Css.Returnless
import PrettyPayload.Proofs.Format.Css
import PrettyPayload.Proofs.Markup.Marks
import PrettyPayload.Proofs.Text.Words
import PrettyPayload.Proofs.Html.Escape
import PrettyPayload.Proofs.Html.Reference
import PrettyPayload.Proofs.Html.Lexer
import PrettyPayload.Proofs.Html.Forest
import PrettyPayload.Proofs.Html.Page.Steady
import PrettyPayload.Proofs.Html.Page.Formatting
import PrettyPayload.Proofs.Html.Page.Role
import PrettyPayload.Proofs.Html.Page.StartTag
import PrettyPayload.Proofs.Format.Html
import PrettyPayload.Proofs.Tree
import PrettyPayload.Proofs.Markup.Document
import PrettyPayload.Proofs.Markup.Entries
import PrettyPayload.Proofs.Markup.Serializer
import PrettyPayload.Proofs.Json.Number
import PrettyPayload.Proofs.Json.Quoted
import PrettyPayload.Proofs.Json.Legible
import PrettyPayload.Proofs.Json.RoundTrip
import PrettyPayload.Proofs.Format.Json
import PrettyPayload.Proofs.Text.Break
import PrettyPayload.Proofs.Xml.Scope
import PrettyPayload.Proofs.Markup.Namespace
import PrettyPayload.Proofs.Markup.Outline
import PrettyPayload.Proofs.Markup.Stable
import PrettyPayload.Proofs.Markup.Returnless
import PrettyPayload.Proofs.Markup.Source
import PrettyPayload.Proofs.Format.Xml
import PrettyPayload.Proofs.Dispatcher
import PrettyPayload.Proofs.Markup.Edit
import PrettyPayload.Proofs.Markup.Links
import PrettyPayload.Proofs.Markup.Lineage
import PrettyPayload.Proofs.Markup.Changes
import PrettyPayload.Proofs.Markup.Held
import PrettyPayload.Proofs.Format.LineEnding
import PrettyPayload.Proofs.Css.Normal
import PrettyPayload.Proofs.Css.Padding
import PrettyPayload.Proofs.Css.Append
import PrettyPayload.Proofs.Css.Alike
import PrettyPayload.Proofs.Css.Zone
import PrettyPayload.Proofs.Css.Respaced
import PrettyPayload.Proofs.Css.Residue
import PrettyPayload.Proofs.Css.Inline
import PrettyPayload.Proofs.Css.Quotes
import PrettyPayload.Proofs.Css.Blocks
import PrettyPayload.Proofs.Css.Escapes
import PrettyPayload.Proofs.Css.Collapsed
import PrettyPayload.Proofs.Css.Parts
import PrettyPayload.Proofs.Text.Slice
import PrettyPayload.Proofs.Css.Offset
import PrettyPayload.Proofs.Css.Seek
import PrettyPayload.Proofs.Css.Sliced
import PrettyPayload.Proofs.Css.InRange
import PrettyPayload.Proofs.Markup.StylePass
import PrettyPayload.Proofs.Markup.Targets
import PrettyPayload.Proofs.Markup.StyleAttributes
import PrettyPayload.Proofs.Markup.StyleBlocks
import PrettyPayload.Proofs.Markup.StyleOrder
import PrettyPayload.Proofs.Markup.LaidOut
import PrettyPayload.Proofs.Markup.LaidText
import PrettyPayload.Proofs.Markup.Contents
import PrettyPayload.Proofs.Markup.Place
import PrettyPayload.Proofs.Xml.Expansion
import PrettyPayload.Proofs.Xml.Prolog
import PrettyPayload.Proofs.Markup.DocumentType
import PrettyPayload.Proofs.Markup.SourceTree
import PrettyPayload.Proofs.Html.Detection
import PrettyPayload.Proofs.Program
import PrettyPayload.Proofs.Text.Number
import PrettyPayload.Proofs.Text.Name
import PrettyPayload.Proofs.CommandLine
import PrettyPayload.Proofs.Settings.Sources
import PrettyPayload.Proofs.Toml.Number
import PrettyPayload.Proofs.Toml.Entry
import PrettyPayload.Proofs.Settings.File
import PrettyPayload.Proofs.Html.Nested
import PrettyPayload.Proofs.Html.Page.Fragment
import PrettyPayload.Proofs.Markup.Durable
import PrettyPayload.Proofs.Markup.Formed
