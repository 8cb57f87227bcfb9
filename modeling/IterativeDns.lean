import IterativeDns.Address
import IterativeDns.Address.Text
import IterativeDns.Alias
import IterativeDns.Cache
import IterativeDns.Cache.Nameservers
import IterativeDns.Cache.RootHints
import IterativeDns.Client
import IterativeDns.CommandLine
import IterativeDns.Document
import IterativeDns.Exchange
import IterativeDns.Failure
import IterativeDns.Lookup
import IterativeDns.Main
import IterativeDns.Message
import IterativeDns.Name
import IterativeDns.Network
import IterativeDns.Network.Replay
import IterativeDns.Program
import IterativeDns.Proofs.Alias.Agenda
import IterativeDns.Proofs.Alias.Closure
import IterativeDns.Proofs.Alias.Payloads
import IterativeDns.Proofs.Alias.Work
import IterativeDns.Proofs.Cache.Accounting
import IterativeDns.Proofs.Cache.Delegations
import IterativeDns.Proofs.Cache.History
import IterativeDns.Proofs.Cache.Log
import IterativeDns.Proofs.Cache.Readings
import IterativeDns.Proofs.Cache.RootHints
import IterativeDns.Proofs.Cache.Selection
import IterativeDns.Proofs.Cache.Views
import IterativeDns.Proofs.Exchange.Accounts
import IterativeDns.Proofs.Exchange.Attempts
import IterativeDns.Proofs.Exchange.Contacts
import IterativeDns.Proofs.Exchange.Replies
import IterativeDns.Proofs.Exchange.Strays
import IterativeDns.Proofs.Lookup.Answers
import IterativeDns.Proofs.Lookup.Bounds
import IterativeDns.Proofs.Lookup.Budget
import IterativeDns.Proofs.Lookup.Course
import IterativeDns.Proofs.Lookup.Failures
import IterativeDns.Proofs.Lookup.Frames
import IterativeDns.Proofs.Lookup.Ledger
import IterativeDns.Proofs.Lookup.LetterCase
import IterativeDns.Proofs.Lookup.Likeness
import IterativeDns.Proofs.Lookup.OpenFrames
import IterativeDns.Proofs.Lookup.Positions
import IterativeDns.Proofs.Lookup.RecordOrder
import IterativeDns.Proofs.Lookup.Records
import IterativeDns.Proofs.Lookup.Selections
import IterativeDns.Proofs.Lookup.Servers
import IterativeDns.Proofs.Lookup.Simulation
import IterativeDns.Proofs.Lookup.Trace
import IterativeDns.Proofs.Name.Enclosure
import IterativeDns.Proofs.Name.Labels
import IterativeDns.Proofs.Name.LetterCase
import IterativeDns.Proofs.Name.Zones
import IterativeDns.Proofs.Settings.Start
import IterativeDns.Proofs.Wire.Decoded
import IterativeDns.Proofs.Wire.Fields
import IterativeDns.Proofs.Wire.Grammar
import IterativeDns.Proofs.Wire.Header
import IterativeDns.Proofs.Wire.Messages
import IterativeDns.Proofs.Wire.Names
import IterativeDns.Proofs.Wire.OpaqueText
import IterativeDns.Proofs.Wire.Payload
import IterativeDns.Proofs.Wire.Prefixes
import IterativeDns.Proofs.Wire.Rereading
import IterativeDns.Proofs.Wire.Runs
import IterativeDns.Proofs.Wire.Spelling
import IterativeDns.Proofs.Wire.Writing
import IterativeDns.Question
import IterativeDns.Record
import IterativeDns.Record.Set
import IterativeDns.RecordType
import IterativeDns.ResponseCode
import IterativeDns.RootHint
import IterativeDns.Settings
import IterativeDns.Settings.Printer
import IterativeDns.Settings.Reading
import IterativeDns.Settings.Resolver
import IterativeDns.Settings.Source
import IterativeDns.Sockets
import IterativeDns.Text.Blank
import IterativeDns.Text.Casing
import IterativeDns.Text.Digits
import IterativeDns.Text.FixedPoint
import IterativeDns.Text.Hex
import IterativeDns.Text.Precision
import IterativeDns.Text.Truth
import IterativeDns.Toml.Parser
import IterativeDns.Toml.Quoted
import IterativeDns.Toml.Scalar
import IterativeDns.Toml.Table
import IterativeDns.Trace
import IterativeDns.Wire.Decoding
import IterativeDns.Wire.Encoding
import IterativeDns.Wire.Fault
import IterativeDns.Wire.Frame
import IterativeDns.Wire.Name
import IterativeDns.Wire.Word
