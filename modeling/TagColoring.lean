import TagColoring.Coloring
import TagColoring.Content
import TagColoring.Decoration
import TagColoring.Enclosure
import TagColoring.Enclosure.Lookup
import TagColoring.Journal
import TagColoring.Line
import TagColoring.Number.Binary64
import TagColoring.Number.Decimal
import TagColoring.Number.Numeral
import TagColoring.Number.Ratio
import TagColoring.Rotation
import TagColoring.Session
import TagColoring.Session.Editor
import TagColoring.Session.Run
import TagColoring.Settings
import TagColoring.Settings.Datum
import TagColoring.Settings.Scope
import TagColoring.Settings.Table
import TagColoring.Span
import TagColoring.Tag
import TagColoring.Tag.Head
import TagColoring.Tag.Region
import TagColoring.Tag.Vocabulary
import TagColoring.Template.Placeholder
import TagColoring.Template.Segment
import TagColoring.Template.Tagged
import TagColoring.Text.Blank
import TagColoring.Text.CaseTable
import TagColoring.Text.DecimalDigit
import TagColoring.Text.LowerCase
import TagColoring.Text.Ranges
import TagColoring.Text.Window
import TagColoring.Version
import TagColoring.Proofs.Enclosure
import TagColoring.Proofs.Head
import TagColoring.Proofs.Window
import TagColoring.Proofs.Reading
import TagColoring.Proofs.Forest
import TagColoring.Proofs.Cursor
import TagColoring.Proofs.Ledger
import TagColoring.Proofs.Decoration
import TagColoring.Proofs.TagCursor
import TagColoring.Proofs.SegmentCursor
import TagColoring.Proofs.CheckedScan
import TagColoring.Proofs.Anatomy
import TagColoring.Proofs.Painting
import TagColoring.Proofs.Locality
import TagColoring.Proofs.Nesting
import TagColoring.Proofs.Siblings
import TagColoring.Proofs.Execution
import TagColoring.Proofs.SoundLedger
import TagColoring.Proofs.Timers
import TagColoring.Proofs.Debounce
import TagColoring.Proofs.Effects
import TagColoring.Proofs.Overlap
import TagColoring.Proofs.Snapshots
import TagColoring.Proofs.Screen
import TagColoring.Proofs.Deactivation
import TagColoring.Proofs.Grammar
import TagColoring.Proofs.Traversal
import TagColoring.Proofs.Modes
import TagColoring.Proofs.Tiling
import TagColoring.Proofs.Line
import TagColoring.Proofs.EditorRange
import TagColoring.Proofs.RawText
import TagColoring.Proofs.LineComment
import TagColoring.Proofs.LiteralBody
import TagColoring.Proofs.DecorationHistory
import TagColoring.Proofs.TagOrigin
