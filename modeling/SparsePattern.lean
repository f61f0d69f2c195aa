import SparsePattern.Json.Forms
import SparsePattern.Draft.Widen
import SparsePattern.Main
import SparsePattern.Stream.Block
import SparsePattern.Proofs.Bisection
import SparsePattern.Proofs.Layout.Reads
import SparsePattern.Proofs.Layout.Acceptance
import SparsePattern.Proofs.Layout.Lengths
import SparsePattern.Proofs.Compressed.Lawful
import SparsePattern.Proofs.Compressed.Numbering
import SparsePattern.Proofs.Image.Header
import SparsePattern.Proofs.Image.RoundTrip
import SparsePattern.Proofs.Image.Sections
import SparsePattern.Proofs.Image.InPlace
import SparsePattern.Proofs.Image.Canonical
import SparsePattern.Proofs.Stream.Pieces
import SparsePattern.Proofs.Stream.Reading
import SparsePattern.Proofs.Stream.Blocks
import SparsePattern.Proofs.Distinct
import SparsePattern.Proofs.Draft.Windows
import SparsePattern.Proofs.Draft.Creation
import SparsePattern.Proofs.Draft.Insertion
import SparsePattern.Proofs.Draft.Compression
import SparsePattern.Proofs.Session
import SparsePattern.Proofs.Draft.Growth
import SparsePattern.Proofs.Draft.History
import SparsePattern.Proofs.Draft.Canonical
import SparsePattern.Proofs.Draft.Queries
import SparsePattern.Proofs.Draft.Widening
import SparsePattern.Proofs.Draft.Rebuilding
import SparsePattern.Proofs.Json.Patterns
import SparsePattern.Proofs.Draft.Transposition
import SparsePattern.Proofs.Draft.Rows
import SparsePattern.Proofs.Draft.Reservations
import SparsePattern.Proofs.Draft.Sequences
import SparsePattern.Proofs.Draft.Atomicity
import SparsePattern.Proofs.Compressed.Enumeration
import SparsePattern.Proofs.Image.File
import SparsePattern.Proofs.Image.Acceptance
import SparsePattern.Proofs.Text.Lines
import SparsePattern.Proofs.Stream.Interruption
import SparsePattern.Proofs.Compressed.Faithful
import SparsePattern.Proofs.Compressed.Answers
import SparsePattern.Proofs.Compressed.Agreement
import SparsePattern.Proofs.Compressed.Walking
import SparsePattern.Proofs.Image.Significance
import SparsePattern.Proofs.Draft.Refusals
import SparsePattern.Proofs.Stencil
import SparsePattern.Proofs.Text.Reading
import SparsePattern.Proofs.Summary
import SparsePattern.Proofs.Command
