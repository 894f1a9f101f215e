import EventChains.Disk
import EventChains.Json.Reader
import EventChains.Main
import EventChains.Proofs.ArrivalOrder
import EventChains.Proofs.CompiledPattern
import EventChains.Proofs.Findings
import EventChains.Proofs.Findings.FirstSearch
import EventChains.Proofs.Findings.Summary
import EventChains.Proofs.KeyOrder
import EventChains.Proofs.Log
import EventChains.Proofs.Matching.Again
import EventChains.Proofs.Matching.Chains
import EventChains.Proofs.Matching.Coding
import EventChains.Proofs.Matching.CourseCoding
import EventChains.Proofs.Matching.Coverage
import EventChains.Proofs.Matching.Crossings
import EventChains.Proofs.Matching.Groups
import EventChains.Proofs.Matching.Growth
import EventChains.Proofs.Matching.LastEvent
import EventChains.Proofs.Matching.Links
import EventChains.Proofs.Matching.Memory
import EventChains.Proofs.Matching.Occurrences
import EventChains.Proofs.Matching.Parts
import EventChains.Proofs.Matching.Plain
import EventChains.Proofs.Matching.PlainScan
import EventChains.Proofs.Matching.PlainSearch
import EventChains.Proofs.Matching.Scan
import EventChains.Proofs.Matching.Walk
import EventChains.Proofs.Matching.Ways
import EventChains.Proofs.Text.Trim
import EventChains.Proofs.Time
import EventChains.Proofs.Trace.Arrivals
import EventChains.Proofs.Trace.Built
import EventChains.Proofs.Trace.Part
import EventChains.Proofs.Trace.Runs
import EventChains.Proofs.Pattern.Spelling
import EventChains.Proofs.Pattern.Canonical
import EventChains.Proofs.Json.Quoted
import EventChains.Proofs.Timeline.Chains
import EventChains.Proofs.Timeline.Records
import EventChains.Proofs.Binary64.Unpacked
import EventChains.Proofs.Decimal.Digits
import EventChains.Proofs.Decimal.Interval
import EventChains.Proofs.Binary64.Rounding
import EventChains.Proofs.Binary64.Nearest
import EventChains.Proofs.Decimal.Numeral
import EventChains.Proofs.Decimal.RoundTrip
import EventChains.Proofs.Json.Number
import EventChains.Proofs.Json.RoundTrip
import EventChains.Proofs.Timeline.RoundTrip
import EventChains.Proofs.Binary64.Difference
import EventChains.Proofs.Time.Worth
import EventChains.Proofs.Trace.FlowTime
import EventChains.Proofs.Trace.FlowOrder
import EventChains.Proofs.Trace.FlowFailure
import EventChains.Proofs.Disk
import EventChains.Proofs.Command.Gathering
import EventChains.Proofs.Command.Failure
import EventChains.Proofs.Matching.RepeatRules
import EventChains.Proofs.Log.Pairs
import EventChains.Proofs.Log.Spacing
import EventChains.Proofs.Json.Fields
import EventChains.Proofs.Log.Fields
import EventChains.Proofs.Log.Lines
import EventChains.Proofs.Binary64.Overflow
import EventChains.Proofs.Log.Numbers
import EventChains.Proofs.Timeline.Times
import EventChains.Proofs.Timeline.Spans
import EventChains.Proofs.Timeline.Names
import EventChains.Proofs.ProcessNames
import EventChains.Proofs.Matching.Completion
import EventChains.Proofs.Matching.Stack
import EventChains.Proofs.Matching.Records
import EventChains.Proofs.Matching.Turns
