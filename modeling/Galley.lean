import Galley.Code.Highlighting
import Galley.Code.Language
import Galley.Code.Registry
import Galley.Command.Line
import Galley.Command.Run
import Galley.Conversion
import Galley.Counts
import Galley.Diagram.Error
import Galley.Diagram.Id
import Galley.Diagram.Renderer
import Galley.EditSession
import Galley.Files.Document
import Galley.Files.Error
import Galley.Files.Host
import Galley.Files.Path
import Galley.Files.Tree
import Galley.Heading.Contents
import Galley.Heading.Id
import Galley.Heading.Title
import Galley.Html.Builder
import Galley.Html.Dom
import Galley.Html.Names
import Galley.Html.Node
import Galley.Html.Rules
import Galley.Html.Token
import Galley.Machine
import Galley.Main
import Galley.Markdown.Content
import Galley.Markdown.Document
import Galley.Markdown.Emphasis
import Galley.Markdown.Event
import Galley.Markdown.Inline
import Galley.Markdown.Leaf
import Galley.Markdown.Link
import Galley.Markdown.Margin
import Galley.Markdown.Opening
import Galley.Markdown.Outline
import Galley.Markdown.RawHtml
import Galley.Markdown.Token
import Galley.Markdown.Writer
import Galley.Math.Check
import Galley.Math.Grammar
import Galley.Math.Markup
import Galley.Page
import Galley.Sanitizer.Address
import Galley.Sanitizer.Allowance
import Galley.Sanitizer.Clean
import Galley.Screen
import Galley.Settings.Configuration
import Galley.Settings.Expansion
import Galley.Settings.Value
import Galley.Shell.Pattern
import Galley.Shell.Reader
import Galley.Shell.Run
import Galley.Shell.Script
import Galley.Shell.Tool
import Galley.Shortcode
import Galley.Source.Caret
import Galley.Source.CodeZones
import Galley.Source.Extraction
import Galley.Source.Fence
import Galley.Source.Regions
import Galley.Source.Span
import Galley.Text.Blank
import Galley.Text.Bytes
import Galley.Text.Case
import Galley.Text.CaseTable
import Galley.Text.Escape
import Galley.Text.Letter
import Galley.Text.LetterTable
import Galley.Text.Reference
import Galley.Text.ReferenceTable
import Galley.Text.Scan
import Galley.Text.Table
import Galley.Text.Utf8
import Galley.Toml.Literal
import Galley.Toml.Node
import Galley.Toml.Reader
import Galley.Toml.Scalar
import Galley.Toml.Writer
import Galley.Proofs.Source.Boundary
import Galley.Proofs.Source.Lookup
import Galley.Proofs.Source.ProtectedRegions
import Galley.Proofs.Source.Unmasking
import Galley.Proofs.Source.Zones
import Galley.Proofs.Session.Runs
import Galley.Proofs.Session.Completions
import Galley.Proofs.Session.Typesetting
import Galley.Proofs.Source.Filling
import Galley.Proofs.Conversion.Forging
import Galley.Proofs.Conversion.Placement
import Galley.Proofs.Markdown.Reference
import Galley.Proofs.Markdown.Margin
import Galley.Proofs.Markdown.Line
import Galley.Proofs.Markdown.Blocks
import Galley.Proofs.Markdown.Leaf
import Galley.Proofs.Source.Counting
import Galley.Proofs.Source.Crossing
import Galley.Proofs.Markdown.Silent
import Galley.Proofs.Markdown.Written
import Galley.Proofs.Code.Rendering
import Galley.Proofs.Heading.Id
import Galley.Proofs.Shortcode
import Galley.Proofs.Conversion.Drafting
import Galley.Proofs.Markdown.LinkParts
import Galley.Proofs.Markdown.Paragraph
import Galley.Proofs.Markdown.Outlines
import Galley.Proofs.Markdown.Passages
import Galley.Proofs.Markdown.Cutting
import Galley.Proofs.Markdown.Inlines
import Galley.Proofs.Markdown.Parsed
import Galley.Proofs.Markdown.Pieces
import Galley.Proofs.Markdown.Placed
import Galley.Proofs.Conversion.Seating
import Galley.Proofs.Conversion.Streams
import Galley.Proofs.Source.Grammar
import Galley.Proofs.Source.Fragments
import Galley.Proofs.Sanitizer.Refusal
import Galley.Proofs.Html.Origin
import Galley.Proofs.Html.Rounds
import Galley.Proofs.Html.References
import Galley.Proofs.Html.Stages
import Galley.Proofs.Html.Tokens
import Galley.Proofs.Sanitizer.Vocabulary
import Galley.Proofs.Markdown.Levels
import Galley.Proofs.Sanitizer.Writing
import Galley.Proofs.Sanitizer.Drafts
import Galley.Proofs.Html.Filled
import Galley.Proofs.Sanitizer.Coverage
import Galley.Proofs.Conversion.Layout
import Galley.Proofs.Conversion.Links
import Galley.Proofs.Conversion.Footnotes
import Galley.Proofs.Text.Decoding
import Galley.Proofs.Session.Places
import Galley.Proofs.Session.Shown
import Galley.Proofs.Session.Elements
import Galley.Proofs.Session.Edited
import Galley.Proofs.Session.Escaped
import Galley.Proofs.Code.DiagramPlaces
import Galley.Proofs.Session.Rendered
import Galley.Proofs.Markdown.Drawn
import Galley.Proofs.Conversion.Standing
import Galley.Proofs.Conversion.Diagrams
import Galley.Proofs.Markdown.Boxes
import Galley.Proofs.Conversion.Rewriting
import Galley.Proofs.Html.Parts
import Galley.Proofs.Html.Slots
import Galley.Proofs.Toml.Literal
import Galley.Proofs.Toml.Document
import Galley.Proofs.Settings.Saved
import Galley.Proofs.Heading.Fresh
import Galley.Proofs.Html.Anchors
import Galley.Proofs.Markdown.Anchored
import Galley.Proofs.Conversion.Gathering
import Galley.Proofs.Conversion.Anchors
import Galley.Proofs.Conversion.Ids
import Galley.Proofs.Source.Revealing
import Galley.Proofs.Code.Spelling
import Galley.Proofs.Conversion.Landing
import Galley.Proofs.Conversion.Revealed
import Galley.Proofs.Heading.Numbering
import Galley.Proofs.Source.Reading
import Galley.Proofs.Source.Replacing
import Galley.Proofs.Source.Places
import Galley.Proofs.Source.Standings
import Galley.Proofs.Source.Paragraphs
import Galley.Proofs.Source.Fences
import Galley.Proofs.Text.Trimming
import Galley.Proofs.Heading.Entries
import Galley.Proofs.Source.Backticks
import Galley.Proofs.Html.Tree
import Galley.Proofs.Heading.Listing
import Galley.Proofs.Math.Nesting
import Galley.Proofs.Text.Matches
import Galley.Proofs.Text.Runs
import Galley.Proofs.Math.Validity
import Galley.Proofs.Math.Escapes
import Galley.Proofs.Shortcode.Reading
import Galley.Proofs.Heading.Titles
import Galley.Proofs.Files.Path
import Galley.Proofs.Command.PagePath
import Galley.Proofs.Heading.Dashes
import Galley.Proofs.Source.Turns
