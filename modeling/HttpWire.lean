import HttpWire.Address
import HttpWire.Body.Basic
import HttpWire.Body.Chunked
import HttpWire.Body.Multipart
import HttpWire.Connection.Basic
import HttpWire.Connection.Exchange
import HttpWire.Connection.Outbox
import HttpWire.Connection.Settings
import HttpWire.Cookies
import HttpWire.Fault.Error
import HttpWire.Field.Block
import HttpWire.Field.Name
import HttpWire.Field.Parameterized
import HttpWire.Field.QuotedString
import HttpWire.Field.Value
import HttpWire.FormPairs
import HttpWire.Headers
import HttpWire.MediaType
import HttpWire.Pipeline.Basic
import HttpWire.Pipeline.Context
import HttpWire.Pipeline.Probe
import HttpWire.Pipeline.Stock
import HttpWire.Reading.Buffered
import HttpWire.Reading.Flat
import HttpWire.Reading.Pieces
import HttpWire.Reading.Reader
import HttpWire.Reading.Source
import HttpWire.Request.Basic
import HttpWire.Request.Receive
import HttpWire.Response.Basic
import HttpWire.Response.Reply
import HttpWire.Response.Status
import HttpWire.Server.Lifecycle
import HttpWire.Server.Listener
import HttpWire.Server.Run
import HttpWire.Text.Basic
import HttpWire.Text.Blank
import HttpWire.Text.Extending
import HttpWire.Text.Printable
import HttpWire.Text.Quoted
import HttpWire.Text.Split
import HttpWire.Text.Utf8
import HttpWire.Version.Basic
import HttpWire.Version.Resolver
import HttpWire.Version.Shared
import HttpWire.Wire.Client
import HttpWire.Wire.Event
import HttpWire.Wire.Peer
import HttpWire.Wire.Secured
import HttpWire.Wire.Timeline
import HttpWire.Proofs.Lists
import HttpWire.Proofs.Steps
import HttpWire.Proofs.Text.Split
import HttpWire.Proofs.Text.Case
import HttpWire.Proofs.Text.Utf8
import HttpWire.Proofs.Text.Hexadecimal
import HttpWire.Proofs.Text.Ascii
import HttpWire.Proofs.Field.Value
import HttpWire.Proofs.Reading.Lockstep
import HttpWire.Proofs.Reading.Stream
import HttpWire.Proofs.Reading.Flatten
import HttpWire.Proofs.Reading.Emptied
import HttpWire.Proofs.Reading.Operations
import HttpWire.Proofs.Reading.Account
import HttpWire.Proofs.Reading.Need
import HttpWire.Proofs.Reading.CutLines
import HttpWire.Proofs.Reading.Position
import HttpWire.Proofs.Reading.Settled
import HttpWire.Proofs.Reading.Stopping
import HttpWire.Proofs.Reading.UpTo
import HttpWire.Proofs.Reading.Yielding
import HttpWire.Proofs.Reading.Ascii
import HttpWire.Proofs.Headers
import HttpWire.Proofs.FormPairs
import HttpWire.Proofs.Field.Head
import HttpWire.Proofs.Field.Line
import HttpWire.Proofs.Field.Block
import HttpWire.Proofs.Field.QuotedString
import HttpWire.Proofs.Field.Parameterized
import HttpWire.Proofs.Field.Flawed
import HttpWire.Proofs.Field.Outcome
import HttpWire.Proofs.Body.Delimiter
import HttpWire.Proofs.Body.Sections
import HttpWire.Proofs.Body.Parts
import HttpWire.Proofs.Body.Partition
import HttpWire.Proofs.Body.SizeLine
import HttpWire.Proofs.Body.SizeArithmetic
import HttpWire.Proofs.Body.Account
import HttpWire.Proofs.Body.Chunked
import HttpWire.Proofs.Body.Payload
import HttpWire.Proofs.Cookies.Received
import HttpWire.Proofs.Cookies.Lookup
import HttpWire.Proofs.Cookies.Changes
import HttpWire.Proofs.Version.Token
import HttpWire.Proofs.Version.Faithful
import HttpWire.Proofs.Version.Shared
import HttpWire.Proofs.Version.Transparent
import HttpWire.Proofs.Message.Refused
import HttpWire.Proofs.Message.Token
import HttpWire.Proofs.MediaType
import HttpWire.Proofs.Message.Line
import HttpWire.Proofs.Message.Header
import HttpWire.Proofs.Message.Chunked
import HttpWire.Proofs.Message.Basic
import HttpWire.Proofs.Request.Target
import HttpWire.Proofs.Message.Meaning
import HttpWire.Proofs.Message.Framing
import HttpWire.Proofs.Request.Decided
import HttpWire.Proofs.Message.Trailers
import HttpWire.Proofs.Request.Refused
import HttpWire.Proofs.Request.Line
import HttpWire.Proofs.Request.Absence
import HttpWire.Proofs.Response.Lines
import HttpWire.Proofs.Response.Head
import HttpWire.Proofs.Pipeline.SinglePass
import HttpWire.Proofs.Pipeline.Onion
import HttpWire.Proofs.Wire.Unsecured
import HttpWire.Proofs.Wire.Views
import HttpWire.Proofs.Wire.Steady
import HttpWire.Proofs.Wire.Frame
import HttpWire.Proofs.Wire.Later
import HttpWire.Proofs.Wire.Waiting
import HttpWire.Proofs.Wire.Responsive
import HttpWire.Proofs.Wire.Schedule
import HttpWire.Proofs.Connection.Sending
import HttpWire.Proofs.Connection.Answering
import HttpWire.Proofs.Connection.Pipelining
import HttpWire.Proofs.Connection.Turns
import HttpWire.Proofs.Connection.Refusal
import HttpWire.Proofs.Connection.Log
import HttpWire.Proofs.Connection.Outbox
import HttpWire.Proofs.Connection.Course
import HttpWire.Proofs.Connection.Closing
import HttpWire.Proofs.Connection.Shutdown
import HttpWire.Proofs.Connection.Progress
import HttpWire.Proofs.Connection.Unsecured
import HttpWire.Proofs.Connection.Retries
import HttpWire.Proofs.Connection.Idle
import HttpWire.Proofs.Server.Lifecycle
