import Lockstep.Address
import Lockstep.CallStack
import Lockstep.CommandLine.Arguments
import Lockstep.CommandLine.Program
import Lockstep.Diagnostic
import Lockstep.History
import Lockstep.Listing.Index
import Lockstep.Listing.Line
import Lockstep.Main
import Lockstep.Malformed
import Lockstep.Pairing
import Lockstep.Printed
import Lockstep.Proofs.CallStack.Nesting
import Lockstep.Proofs.CallStack.Query
import Lockstep.Proofs.CallStack.Unmatched
import Lockstep.Proofs.Listing.Blocks
import Lockstep.Proofs.Listing.Coherence
import Lockstep.Proofs.Pairing.Agreement
import Lockstep.Proofs.Pairing.Conservation
import Lockstep.Proofs.Pairing.Course
import Lockstep.Proofs.Pairing.Exhaustion
import Lockstep.Proofs.Pairing.Likeness
import Lockstep.Proofs.Pairing.Resumption
import Lockstep.Proofs.Pairing.Sums
import Lockstep.Proofs.Pairing.Verdicts
import Lockstep.Proofs.Reference.Detour
import Lockstep.Proofs.Reference.Lines
import Lockstep.Proofs.Reference.Loading
import Lockstep.Proofs.Report.Counting
import Lockstep.Proofs.Report.Height
import Lockstep.Proofs.Run.Account
import Lockstep.Proofs.Run.Alignment
import Lockstep.Proofs.Run.Alone
import Lockstep.Proofs.Run.Completed
import Lockstep.Proofs.Run.LastRecord
import Lockstep.Proofs.Run.Outcome
import Lockstep.Proofs.Run.Script
import Lockstep.Proofs.Run.Steps
import Lockstep.Proofs.Run.Streaming
import Lockstep.Proofs.Run.Unbroken
import Lockstep.Proofs.Stages
import Lockstep.Proofs.Text.Lines
import Lockstep.Proofs.Text.Unbroken
import Lockstep.Reference.Queue
import Lockstep.Reference.Record
import Lockstep.Report.Entry
import Lockstep.Report.Tally
import Lockstep.Run.Basic
import Lockstep.Run.Check
import Lockstep.Run.Print
import Lockstep.Source.Failure
import Lockstep.Source.Files
import Lockstep.Source.Stream
import Lockstep.Source.Zstd.Decoder
import Lockstep.Source.Zstd.Frame
import Lockstep.Source.Zstd.Header
import Lockstep.Source.Zstd.Legacy
import Lockstep.Source.Zstd.Outlet
import Lockstep.Text.Basic
import Lockstep.Text.Blank
import Lockstep.Text.Digit
import Lockstep.Text.Line
import Lockstep.Text.Numeral
import Lockstep.Text.Pieces
import Lockstep.Text.Utf8
import Lockstep.Trace.Dialect
import Lockstep.Trace.Executed
import Lockstep.Proofs.Run.Foreign
import Lockstep.Proofs.Text.Decoding
import Lockstep.Proofs.Text.Encoding
import Lockstep.Proofs.Text.Endings
import Lockstep.Proofs.Text.Numerals
import Lockstep.Proofs.Printed.Strings
import Lockstep.Proofs.Run.Compressed
import Lockstep.Proofs.Run.Endings
import Lockstep.Proofs.Trace.Grammar
import Lockstep.Proofs.Trace.Logged
import Lockstep.Proofs.Listing.Grammar
import Lockstep.Proofs.Printed.Positions
import Lockstep.Proofs.Printed.Stamps
import Lockstep.Proofs.Text.Addresses
import Lockstep.Proofs.Report.Columns
