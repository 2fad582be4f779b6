import SqlLayout.Text.Blank
import SqlLayout.Text.WordChar
import SqlLayout.Text.Numeral
import SqlLayout.Quoting
import SqlLayout.Nesting
import SqlLayout.Keyword
import SqlLayout.Family
import SqlLayout.Lexeme
import SqlLayout.Segment
import SqlLayout.Token.Listing
import SqlLayout.Layout.Page
import SqlLayout.Main
import SqlLayout.Proofs.Text.Chunks
import SqlLayout.Proofs.Text.Lexemes
import SqlLayout.Proofs.Text.Collapse
import SqlLayout.Proofs.Text.Ends
import SqlLayout.Proofs.Text.Folding
import SqlLayout.Proofs.Text.WordRuns
import SqlLayout.Proofs.Text.Flow
import SqlLayout.Proofs.Scan.Words
import SqlLayout.Proofs.Text.LetterCase
import SqlLayout.Proofs.Statement.Meaning
import SqlLayout.Proofs.Scan.Hits
import SqlLayout.Proofs.Scan.Marks
import SqlLayout.Proofs.Scan.FreeWords
import SqlLayout.Proofs.Scan.Tokens
import SqlLayout.Proofs.Scan.Sources
import SqlLayout.Proofs.Scan.Spans
import SqlLayout.Proofs.Scan.Coverage
import SqlLayout.Proofs.Scan.Opacity
import SqlLayout.Proofs.Scan.Completeness
import SqlLayout.Proofs.Scan.Shapes
import SqlLayout.Proofs.Scan.Gaps
import SqlLayout.Proofs.Scan.Overlap
import SqlLayout.Proofs.Scan.Rejoining
import SqlLayout.Proofs.Layout.Pieces
import SqlLayout.Proofs.Layout.Reflow
import SqlLayout.Proofs.Text.Narrowing
import SqlLayout.Proofs.Statement.Spacing
import SqlLayout.Proofs.Layout.Calm
import SqlLayout.Proofs.Layout.Settling
import SqlLayout.Proofs.Layout.Readback
import SqlLayout.Proofs.Layout.Stability
import SqlLayout.Proofs.Scan.Parts
import SqlLayout.Proofs.Layout.Clauses
import SqlLayout.Proofs.Layout.LineEnds
import SqlLayout.Proofs.Text.Raising
import SqlLayout.Proofs.Statement.Passes
import SqlLayout.Proofs.Scan.Caseless
import SqlLayout.Proofs.Statement.Spelling
import SqlLayout.Proofs.CommandLine.Modes
import SqlLayout.Proofs.Scan.Streams
import SqlLayout.Proofs.CommandLine.Outcomes
import SqlLayout.Proofs.Layout.EmptyItems
import SqlLayout.Proofs.Layout.Blocks
import SqlLayout.Proofs.Layout.Ink
import SqlLayout.Proofs.Statement.Recognition
import SqlLayout.Proofs.Scan.Families
import SqlLayout.Proofs.Scan.Orders
import SqlLayout.Proofs.Text.Cuts
import SqlLayout.Proofs.Layout.Commas
import SqlLayout.Proofs.CommandLine.Listings
import SqlLayout.Proofs.Text.Regions
import SqlLayout.Proofs.Scan.WordEnds
import SqlLayout.Proofs.Scan.Readers
import SqlLayout.Proofs.Scan.Progress
import SqlLayout.Proofs.Text.Offsets
