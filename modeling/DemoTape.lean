import DemoTape.Audit
import DemoTape.Bytes
import DemoTape.Bytes.Cursor
import DemoTape.ChangeLog
import DemoTape.CommandLine
import DemoTape.CommandLine.Arguments
import DemoTape.CommandLine.Listing
import DemoTape.Entities
import DemoTape.Fault
import DemoTape.Frame
import DemoTape.Header
import DemoTape.Main
import DemoTape.Message
import DemoTape.Number.Binary
import DemoTape.Number.Decimal
import DemoTape.Number.Layout
import DemoTape.Number.Shortest
import DemoTape.Proofs.Agreement
import DemoTape.Proofs.ChangeLog.Filter
import DemoTape.Proofs.ChangeLog.Lossless
import DemoTape.Proofs.ChangeLog.Quiet
import DemoTape.Proofs.Decoding.Behind
import DemoTape.Proofs.Decoding.Congruence
import DemoTape.Proofs.Decoding.Exact
import DemoTape.Proofs.Decoding.Forward
import DemoTape.Proofs.Decoding.Located
import DemoTape.Proofs.Decoding.Reads
import DemoTape.Proofs.Decoding.Shortened
import DemoTape.Proofs.Decoding.Slices
import DemoTape.Proofs.Decoding.Takes
import DemoTape.Proofs.Decoding.Words
import DemoTape.Proofs.Faults
import DemoTape.Proofs.Frames.Context
import DemoTape.Proofs.Frames.Orderly
import DemoTape.Proofs.Frames.Transcript
import DemoTape.Proofs.Frames.Truncation
import DemoTape.Proofs.Header.Extent
import DemoTape.Proofs.Header.Layout
import DemoTape.Proofs.LastWrite
import DemoTape.Proofs.Noninterference
import DemoTape.Proofs.Number.Mixed
import DemoTape.Proofs.Number.Nearest
import DemoTape.Proofs.Number.Numeral
import DemoTape.Proofs.Number.Rational
import DemoTape.Proofs.Number.Widening
import DemoTape.Proofs.Pulls
import DemoTape.Proofs.Query.Alternatives
import DemoTape.Proofs.Query.Attempt
import DemoTape.Proofs.Query.Comparing
import DemoTape.Proofs.Query.Grammar
import DemoTape.Proofs.Query.Layers
import DemoTape.Proofs.Query.Locality
import DemoTape.Proofs.Query.Order
import DemoTape.Proofs.Query.Projection
import DemoTape.Proofs.Query.Reading
import DemoTape.Proofs.Query.Rendering
import DemoTape.Proofs.Query.Rewriting
import DemoTape.Proofs.Query.Unambiguous
import DemoTape.Proofs.Query.Viability
import DemoTape.Proofs.Roster
import DemoTape.Proofs.Sampling.Batch
import DemoTape.Proofs.Sampling.InStep
import DemoTape.Proofs.Sampling.Thinning
import DemoTape.Proofs.Sampling.Truncation
import DemoTape.Proofs.Scene.Changes
import DemoTape.Proofs.Scene.Commuting
import DemoTape.Proofs.Scene.Failing
import DemoTape.Proofs.Scene.History
import DemoTape.Proofs.Scene.Inert
import DemoTape.Proofs.Scene.Inlining
import DemoTape.Proofs.Scene.Kinds
import DemoTape.Proofs.Scene.Vetting
import DemoTape.Proofs.Summary
import DemoTape.Proofs.Text.Runs
import DemoTape.Proofs.Text.Spelling
import DemoTape.Proofs.Text.Zero
import DemoTape.Proofs.Wire.Layout
import DemoTape.Proofs.Wire.Masked
import DemoTape.Proofs.Wire.Reading
import DemoTape.Proofs.Wire.Sizes
import DemoTape.Proofs.Wire.Spelling
import DemoTape.Query
import DemoTape.Query.Complaint
import DemoTape.Query.Evaluation
import DemoTape.Query.Printer
import DemoTape.Query.Reader
import DemoTape.Recording
import DemoTape.Roster
import DemoTape.Sampling
import DemoTape.Sampling.Options
import DemoTape.Scene
import DemoTape.SortedMap
import DemoTape.Summary
import DemoTape.Text.Blank
import DemoTape.Text.Hex
import DemoTape.Text.Json
import DemoTape.Text.Json.Reader
import DemoTape.Text.Utf8
import DemoTape.Value
import DemoTape.Value.Text
