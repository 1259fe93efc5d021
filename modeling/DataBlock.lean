import DataBlock.Benchmark
import DataBlock.Binary.Format
import DataBlock.Binary.Number
import DataBlock.Binary.Reading
import DataBlock.Binary.Shortest
import DataBlock.Bytes
import DataBlock.CodecError
import DataBlock.Error
import DataBlock.Expectation
import DataBlock.Plan
import DataBlock.PlcType
import DataBlock.Power
import DataBlock.Scenario.Basic
import DataBlock.Scenario.Settings
import DataBlock.Span
import DataBlock.Tag.Address
import DataBlock.Tag.Basic
import DataBlock.Tag.Builder
import DataBlock.Tag.Decoding
import DataBlock.Tag.Parser
import DataBlock.Text.Blank
import DataBlock.Text.Numeral
import DataBlock.Text.Split
import DataBlock.Text.Utf16
import DataBlock.Time.Clock
import DataBlock.Time.Date
import DataBlock.Time.Duration
import DataBlock.Time.Interval
import DataBlock.Time.Reading
import DataBlock.Transport.Basic
import DataBlock.Transport.Memory
import DataBlock.Transport.Reading
import DataBlock.Transport.Trace
import DataBlock.Transport.Unreliable
import DataBlock.Value
import DataBlock.Proofs.Benchmark.Average
import DataBlock.Proofs.Benchmark.Course
import DataBlock.Proofs.Benchmark.Mismatch
import DataBlock.Proofs.Benchmark.Verdict
import DataBlock.Proofs.Binary.Products
import DataBlock.Proofs.Bytes.BigEndian
import DataBlock.Proofs.Bytes.Numbers
import DataBlock.Proofs.Bytes.Texts
import DataBlock.Proofs.Bytes.WideTexts
import DataBlock.Proofs.Decoding.Clamping
import DataBlock.Proofs.Decoding.Encoding
import DataBlock.Proofs.Decoding.Outcome
import DataBlock.Proofs.Decoding.Relevance
import DataBlock.Proofs.Decoding.Span
import DataBlock.Proofs.Expectation.Integers
import DataBlock.Proofs.Expectation.Pairs
import DataBlock.Proofs.Expectation.Written
import DataBlock.Proofs.Memory.History
import DataBlock.Proofs.Plan.Budget
import DataBlock.Proofs.Plan.Fewest
import DataBlock.Proofs.Plan.Grouping
import DataBlock.Proofs.Plan.Partition
import DataBlock.Proofs.Plan.Reordering
import DataBlock.Proofs.Reading.Agreement
import DataBlock.Proofs.Reading.Calls
import DataBlock.Proofs.Reading.Failures
import DataBlock.Proofs.Reading.Filing
import DataBlock.Proofs.Reading.Routing
import DataBlock.Proofs.Reading.Unreliable
import DataBlock.Proofs.Results
import DataBlock.Proofs.Scenario.Additions
import DataBlock.Proofs.Scenario.History
import DataBlock.Proofs.Scenario.Lines
import DataBlock.Proofs.Scenario.Overflow
import DataBlock.Proofs.Scenario.Settings
import DataBlock.Proofs.Scenario.Trimming
import DataBlock.Proofs.Tag.Building
import DataBlock.Proofs.Tag.Grammar
import DataBlock.Proofs.Tag.Refusals
import DataBlock.Proofs.Tag.RoundTrip
import DataBlock.Proofs.Text.Pieces
import DataBlock.Proofs.Text.Positions
import DataBlock.Proofs.Text.Printed
import DataBlock.Proofs.Text.Surrogates
import DataBlock.Proofs.Time.Calendar
import DataBlock.Proofs.Time.Millis
import DataBlock.Proofs.Time.Periods
import DataBlock.Proofs.Time.Printed
import DataBlock.Proofs.Time.Spelling
import DataBlock.Proofs.Value.Integers
