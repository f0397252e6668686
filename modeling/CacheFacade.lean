import CacheFacade.Action
import CacheFacade.Bytes
import CacheFacade.Capabilities
import CacheFacade.Clock
import CacheFacade.Codec
import CacheFacade.Compact.Reader
import CacheFacade.Compact.Varint
import CacheFacade.Compact.Writer
import CacheFacade.Config
import CacheFacade.Environment
import CacheFacade.Fault
import CacheFacade.FieldTtl
import CacheFacade.Handle
import CacheFacade.Json.Bracket
import CacheFacade.Json.Buffered
import CacheFacade.Json.Fault
import CacheFacade.Json.Number
import CacheFacade.Json.Reader
import CacheFacade.Json.Scan
import CacheFacade.Json.Skip
import CacheFacade.Json.Text
import CacheFacade.Json.Writer
import CacheFacade.Key
import CacheFacade.Local.Cache
import CacheFacade.Local.Service
import CacheFacade.Local.Store
import CacheFacade.Lock.Table
import CacheFacade.Log
import CacheFacade.Message.Reader
import CacheFacade.Message.Schema
import CacheFacade.Message.Writer
import CacheFacade.Numeral.Binary
import CacheFacade.Numeral.Decimal
import CacheFacade.Numeral.FloatText
import CacheFacade.Numeral.Integer
import CacheFacade.Numeral.Shortest
import CacheFacade.Plain.Reader
import CacheFacade.Plain.Writer
import CacheFacade.Proofs.Remote.Contest
import CacheFacade.Remote.Address
import CacheFacade.Remote.Answer
import CacheFacade.Remote.Cache
import CacheFacade.Remote.Command
import CacheFacade.Remote.Lease
import CacheFacade.Remote.Plan
import CacheFacade.Remote.Pool
import CacheFacade.Remote.Quorum
import CacheFacade.Remote.Round
import CacheFacade.Remote.Service
import CacheFacade.Remote.Session
import CacheFacade.Remote.Trouble
import CacheFacade.Remote.Url
import CacheFacade.Schema.Acceptance
import CacheFacade.Schema.Announce
import CacheFacade.Schema.Catalogue
import CacheFacade.Schema.Cause
import CacheFacade.Schema.Document
import CacheFacade.Schema.Type
import CacheFacade.Schema.Value
import CacheFacade.Span
import CacheFacade.Text.Blank
import CacheFacade.Text.Invisible
import CacheFacade.Text.Quoted
import CacheFacade.Text.Split
import CacheFacade.Version
import CacheFacade.Proofs.Remote.Counting
import CacheFacade.Proofs.Remote.Exclusion
import CacheFacade.Proofs.Remote.Renewal
import CacheFacade.Proofs.Remote.Safety
import CacheFacade.Proofs.Local.Guards
import CacheFacade.Proofs.Local.Entries
import CacheFacade.Proofs.Local.History
import CacheFacade.Proofs.Local.Hits
import CacheFacade.Proofs.Local.Deadlines
import CacheFacade.Proofs.Local.Lasting
import CacheFacade.Proofs.Local.Touch
import CacheFacade.Proofs.Numeral.Integer
import CacheFacade.Proofs.Plain.Scalars
import CacheFacade.Proofs.Json.Scan
import CacheFacade.Proofs.Json.Text
import CacheFacade.Proofs.Json.Number
import CacheFacade.Proofs.Json.Bracket
import CacheFacade.Proofs.Json.Document
import CacheFacade.Proofs.Json.Announced
import CacheFacade.Proofs.Json.Buffered
import CacheFacade.Proofs.Plain.Untyped
import CacheFacade.Proofs.Keys
import CacheFacade.Proofs.Schema.Composite
import CacheFacade.Proofs.Json.Parts
import CacheFacade.Proofs.Json.Composite
import CacheFacade.Proofs.Plain.Composite
import CacheFacade.Proofs.Remote.Addressing
import CacheFacade.Proofs.Remote.ServerLog
import CacheFacade.Proofs.Remote.Residue
import CacheFacade.Proofs.Remote.Trace
import CacheFacade.Proofs.Remote.Requests
import CacheFacade.Proofs.Remote.Course
import CacheFacade.Proofs.Local.Budget
import CacheFacade.Proofs.Local.Turns
import CacheFacade.Proofs.Local.Replay
import CacheFacade.Proofs.Local.Contents
import CacheFacade.Proofs.Local.Answers
import CacheFacade.Proofs.Local.Lossless
import CacheFacade.Proofs.Compact.Packed
import CacheFacade.Proofs.Message.Messages
import CacheFacade.Proofs.Local.Standing
import CacheFacade.Proofs.Remote.Verdict
import CacheFacade.Proofs.Remote.Waiting
import CacheFacade.Proofs.Remote.Candor
import CacheFacade.Proofs.Local.Tally
import CacheFacade.Proofs.Local.Coerced
import CacheFacade.Proofs.Local.Refusals
import CacheFacade.Proofs.Local.Hashes
import CacheFacade.Proofs.Local.Removal
import CacheFacade.Proofs.Local.Released
import CacheFacade.Proofs.Plain.Optional
import CacheFacade.Proofs.Compact.Truncated
import CacheFacade.Proofs.Remote.Parameters
import CacheFacade.Proofs.FieldTtl
import CacheFacade.Proofs.Remote.Scheme
import CacheFacade.Proofs.Instants
