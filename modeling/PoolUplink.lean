import PoolUplink.Agent
import PoolUplink.Binary64.Basic
import PoolUplink.Binary64.Shortest
import PoolUplink.Fault
import PoolUplink.Features
import PoolUplink.Fleet
import PoolUplink.Json.Ascii
import PoolUplink.Json.Inspect
import PoolUplink.Json.Literal
import PoolUplink.Json.Numeral
import PoolUplink.Json.Printer
import PoolUplink.Json.Reader
import PoolUplink.Json.Shape
import PoolUplink.Json.Skim
import PoolUplink.Json.Step
import PoolUplink.Json.Value
import PoolUplink.Log.Event
import PoolUplink.Log.Journal
import PoolUplink.Log.Line
import PoolUplink.Log.Record
import PoolUplink.Main
import PoolUplink.Peer
import PoolUplink.Peer.Groups
import PoolUplink.Peer.Octets
import PoolUplink.Proofs.Binary64.Whole
import PoolUplink.Proofs.Json.Accepting
import PoolUplink.Proofs.Json.Characters
import PoolUplink.Proofs.Json.Escapes
import PoolUplink.Proofs.Json.Grammar
import PoolUplink.Proofs.Json.Literal
import PoolUplink.Proofs.Json.Loops
import PoolUplink.Proofs.Json.Numeral
import PoolUplink.Proofs.Json.Records
import PoolUplink.Proofs.Json.Repetition
import PoolUplink.Proofs.Json.RoundTrip
import PoolUplink.Proofs.Json.Settle
import PoolUplink.Proofs.Json.Shape
import PoolUplink.Proofs.Json.Skipping
import PoolUplink.Proofs.Json.Takes
import PoolUplink.Proofs.Json.Text
import PoolUplink.Proofs.Json.Yields
import PoolUplink.Proofs.Log.Layout
import PoolUplink.Proofs.Log.StreamGrammar
import PoolUplink.Proofs.Rpc.Kinds
import PoolUplink.Proofs.Rpc.Normal
import PoolUplink.Proofs.Rpc.Stable
import PoolUplink.Proofs.Settings.Address
import PoolUplink.Proofs.Settings.AddressGrammar
import PoolUplink.Proofs.Settings.Agreement
import PoolUplink.Proofs.Settings.Document
import PoolUplink.Proofs.Settings.DocumentForms
import PoolUplink.Proofs.Settings.Precedence
import PoolUplink.Proofs.Settings.Reprinting
import PoolUplink.Proofs.Settings.Variables
import PoolUplink.Proofs.Text.Blank
import PoolUplink.Proofs.Text.Lossy
import PoolUplink.Proofs.Text.Numeral
import PoolUplink.Proofs.Text.Spelling
import PoolUplink.Proofs.Uplink.Calls
import PoolUplink.Proofs.Uplink.Chronicle
import PoolUplink.Proofs.Uplink.Completion
import PoolUplink.Proofs.Uplink.Conservation
import PoolUplink.Proofs.Uplink.Delivery
import PoolUplink.Proofs.Uplink.Effect
import PoolUplink.Proofs.Uplink.Fatal
import PoolUplink.Proofs.Uplink.FeatureList
import PoolUplink.Proofs.Uplink.FirstFault
import PoolUplink.Proofs.Uplink.Follow
import PoolUplink.Proofs.Uplink.Grant
import PoolUplink.Proofs.Uplink.History
import PoolUplink.Proofs.Uplink.Invariant
import PoolUplink.Proofs.Uplink.Knowledge
import PoolUplink.Proofs.Uplink.LastWord
import PoolUplink.Proofs.Uplink.Masking
import PoolUplink.Proofs.Uplink.Notice
import PoolUplink.Proofs.Uplink.Order
import PoolUplink.Proofs.Uplink.Outcome
import PoolUplink.Proofs.Uplink.Progress
import PoolUplink.Proofs.Uplink.Queue
import PoolUplink.Proofs.Uplink.Received
import PoolUplink.Proofs.Uplink.Requests
import PoolUplink.Proofs.Uplink.Reuse
import PoolUplink.Proofs.Uplink.Sent
import PoolUplink.Proofs.Uplink.Settlement
import PoolUplink.Proofs.Uplink.Subscribing
import PoolUplink.Proofs.Uplink.Verdict
import PoolUplink.Proofs.Wire.Flat
import PoolUplink.Proofs.Wire.Remainder
import PoolUplink.Proofs.Wire.Script
import PoolUplink.Proofs.Wire.Units
import PoolUplink.Rpc.Message
import PoolUplink.Rpc.Setup
import PoolUplink.Settings.Basic
import PoolUplink.Settings.Document
import PoolUplink.Settings.Endpoint
import PoolUplink.Settings.Variables
import PoolUplink.Span
import PoolUplink.Text.Blank
import PoolUplink.Text.Hidden
import PoolUplink.Text.Lossy
import PoolUplink.Text.Numeral
import PoolUplink.Text.Quoted
import PoolUplink.Uplink.Attachment
import PoolUplink.Uplink.Handshake
import PoolUplink.Uplink.Link
import PoolUplink.Uplink.Response
import PoolUplink.Uplink.State
import PoolUplink.Wire.Cursor
import PoolUplink.Wire.Frame
import PoolUplink.Wire.Inbound
import PoolUplink.Wire.Inbound.Lemmas
import PoolUplink.Wire.Item
import PoolUplink.Wire.Outbound
import PoolUplink.Wire.Packet
