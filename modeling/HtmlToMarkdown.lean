import HtmlToMarkdown.Conversion.Custom
import HtmlToMarkdown.Converter
import HtmlToMarkdown.Html.Path
import HtmlToMarkdown.Markdown.Flow.Depth
import HtmlToMarkdown.Markdown.Json
import HtmlToMarkdown.Proofs.Walk.Induction
import HtmlToMarkdown.Proofs.Flow.Induction
import HtmlToMarkdown.Proofs.Flow.Invariant
import HtmlToMarkdown.Proofs.Flow.Subtree
import HtmlToMarkdown.Proofs.Flow.Coverage
import HtmlToMarkdown.Proofs.Coercion
import HtmlToMarkdown.Proofs.Grid.Spread
import HtmlToMarkdown.Proofs.Walk.Handlers
import HtmlToMarkdown.Proofs.Walk.Invariant
import HtmlToMarkdown.Proofs.Normal
import HtmlToMarkdown.Proofs.Normal.Blanks
import HtmlToMarkdown.Proofs.Normal.Form
import HtmlToMarkdown.Proofs.WellFormed
import HtmlToMarkdown.Proofs.Ink.Markdown
import HtmlToMarkdown.Proofs.Text.Lower
import HtmlToMarkdown.Proofs.Ink.Minify
import HtmlToMarkdown.Proofs.Source.Decoded
import HtmlToMarkdown.Proofs.Ink.Conversion
import HtmlToMarkdown.Proofs.Table.Frame
import HtmlToMarkdown.Proofs.Grid.Width
import HtmlToMarkdown.Proofs.Table.Rows
import HtmlToMarkdown.Proofs.Table.Header
import HtmlToMarkdown.Proofs.Table.Conversion
import HtmlToMarkdown.Proofs.Grid.Seats
import HtmlToMarkdown.Proofs.Grid.Columns
import HtmlToMarkdown.Proofs.Grid.Seated
import HtmlToMarkdown.Proofs.Grid.Standing
import HtmlToMarkdown.Proofs.Table.Columns
import HtmlToMarkdown.Proofs.Flow.Clean
import HtmlToMarkdown.Proofs.Walk.Actions
import HtmlToMarkdown.Proofs.Walk.Scope
import HtmlToMarkdown.Proofs.Walk.Independence
import HtmlToMarkdown.Proofs.Siblings
import HtmlToMarkdown.Proofs.Whitespace.Marks
import HtmlToMarkdown.Proofs.Whitespace.Settle
import HtmlToMarkdown.Proofs.Whitespace.Thinning
import HtmlToMarkdown.Proofs.Whitespace.Canonical
import HtmlToMarkdown.Proofs.Unmixed
import HtmlToMarkdown.Proofs.Alike.Minify
import HtmlToMarkdown.Proofs.Alike.Readers
import HtmlToMarkdown.Proofs.Alike.Conversion
import HtmlToMarkdown.Proofs.Passwords
import HtmlToMarkdown.Proofs.Ignored
import HtmlToMarkdown.Proofs.Pushed.Content
import HtmlToMarkdown.Proofs.Pushed.Room
import HtmlToMarkdown.Proofs.Pushed.Conversion
import HtmlToMarkdown.Proofs.Json.Numbers
import HtmlToMarkdown.Proofs.Json.Tokens
import HtmlToMarkdown.Proofs.Json.Reading
import HtmlToMarkdown.Proofs.Json.Records
import HtmlToMarkdown.Proofs.Json.Html
import HtmlToMarkdown.Proofs.Json.Markdown
import HtmlToMarkdown.Proofs.Positions.Units
import HtmlToMarkdown.Proofs.Positions.Conversion
import HtmlToMarkdown.Proofs.Table.Alignment
import HtmlToMarkdown.Proofs.Whitespace.Collapsed
import HtmlToMarkdown.Proofs.Whitespace.Nodewise
import HtmlToMarkdown.Proofs.Whitespace.Repeated
import HtmlToMarkdown.Proofs.Whitespace.LineFeeds
import HtmlToMarkdown.Proofs.Normal.OneLine
import HtmlToMarkdown.Proofs.Inline.Signs
import HtmlToMarkdown.Proofs.Inline.Spacing
import HtmlToMarkdown.Proofs.Inline.Conversion
import HtmlToMarkdown.Proofs.Preformatted
import HtmlToMarkdown.Proofs.Lines.Strokes
import HtmlToMarkdown.Proofs.Lines.Scan
import HtmlToMarkdown.Proofs.Lines.Source
import HtmlToMarkdown.Proofs.Lines.Rules
import HtmlToMarkdown.Proofs.Lines.Outline
import HtmlToMarkdown.Proofs.Lines.Edges
import HtmlToMarkdown.Proofs.Lines.Conversion
import HtmlToMarkdown.Proofs.Lines.Filled
import HtmlToMarkdown.Proofs.Lines.Breaks
import HtmlToMarkdown.Proofs.Lines.Items
import HtmlToMarkdown.Proofs.Quotations
import HtmlToMarkdown.Proofs.Selection
import HtmlToMarkdown.Proofs.Definitions
import HtmlToMarkdown.Proofs.Tasks.Markdown
import HtmlToMarkdown.Proofs.Tasks.Source
import HtmlToMarkdown.Proofs.Tasks.Conversion
import HtmlToMarkdown.Proofs.Flow.Repeated
import HtmlToMarkdown.Proofs.Flow.Termination
import HtmlToMarkdown.Proofs.Text.Integer
