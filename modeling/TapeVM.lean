import TapeVM.Assembly
import TapeVM.Clock
import TapeVM.Command
import TapeVM.Command.Invocation
import TapeVM.Command.Usage
import TapeVM.Console
import TapeVM.Decimal
import TapeVM.Decimal.Digit
import TapeVM.Decimal.Fixed
import TapeVM.Decimal.Grouped
import TapeVM.Decimal.Reader
import TapeVM.Diagnostic
import TapeVM.Engine
import TapeVM.Engine.Handle
import TapeVM.Excerpt
import TapeVM.Failure
import TapeVM.Host
import TapeVM.Instruction
import TapeVM.Machine
import TapeVM.Machine.Load
import TapeVM.Machine.Run
import TapeVM.Machine.Trace
import TapeVM.Main
import TapeVM.Program.Listing
import TapeVM.Proofs.Acceptance
import TapeVM.Proofs.Atomicity
import TapeVM.Proofs.Beside
import TapeVM.Proofs.Blame
import TapeVM.Proofs.Block
import TapeVM.Proofs.Canonical
import TapeVM.Proofs.Capacity
import TapeVM.Proofs.Colours
import TapeVM.Proofs.Columns
import TapeVM.Proofs.Composition
import TapeVM.Proofs.Confinement
import TapeVM.Proofs.Escapes
import TapeVM.Proofs.Excerpts
import TapeVM.Proofs.Folding
import TapeVM.Proofs.Grouping
import TapeVM.Proofs.Interruption
import TapeVM.Proofs.Jumps
import TapeVM.Proofs.Lines
import TapeVM.Proofs.Linking
import TapeVM.Proofs.Listings
import TapeVM.Proofs.Lookahead
import TapeVM.Proofs.Measures
import TapeVM.Proofs.Nesting
import TapeVM.Proofs.Numerals
import TapeVM.Proofs.Observation
import TapeVM.Proofs.Operations
import TapeVM.Proofs.Options
import TapeVM.Proofs.Outcomes
import TapeVM.Proofs.Placement
import TapeVM.Proofs.Reference
import TapeVM.Proofs.Refinement
import TapeVM.Proofs.Relocation
import TapeVM.Proofs.Reports
import TapeVM.Proofs.Requests
import TapeVM.Proofs.Residue
import TapeVM.Proofs.Rounding
import TapeVM.Proofs.Scan
import TapeVM.Proofs.Simulation
import TapeVM.Proofs.Step
import TapeVM.Proofs.Streams
import TapeVM.Proofs.Stretch
import TapeVM.Proofs.Underway
import TapeVM.Proofs.Verdict
import TapeVM.Proofs.Widening
import TapeVM.Proofs.Windows
import TapeVM.Screen
import TapeVM.Session
import TapeVM.Source
import TapeVM.Statistics
import TapeVM.Symbol
import TapeVM.Tape
import TapeVM.Tape.Window
import TapeVM.Text.Blank
import TapeVM.Text.Escape
import TapeVM.Text.Justified
import TapeVM.Text.Printable
import TapeVM.Text.Quoted
import TapeVM.Text.Similarity
import TapeVM.Text.Style
import TapeVM.Token
