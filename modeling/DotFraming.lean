import DotFraming.Text.Blank
import DotFraming.Text.Quoted
import DotFraming.Encoding.Decoder
import DotFraming.Decimal.Shortest
import DotFraming.Fault
import DotFraming.Log
import DotFraming.Log.Statement
import DotFraming.Source.Pushback
import DotFraming.Source.Script
import DotFraming.Source.Traced
import DotFraming.Reader.Progress
import DotFraming.Reader.Operations
import DotFraming.Messages
import DotFraming.Stream.InMemory
import DotFraming.Bytes
import DotFraming.Bytes.Chunks
import DotFraming.Bytes.InMemory
import DotFraming.Bytes.Socket
import DotFraming.LineEnding
import DotFraming.Settings
import DotFraming.Stream.Decoding
import DotFraming.Stream.Scripted
import DotFraming.Reader.Operation
import DotFraming.CommandLine.Options
import DotFraming.Stream.Portioned
import DotFraming.CommandLine.Run
import DotFraming.FileTree
import DotFraming.CommandLine.Usage
import DotFraming.Main
import DotFraming.Wire
import DotFraming.Proofs.Source.Delivery
import DotFraming.Proofs.Wire.Call
import DotFraming.Proofs.Reader.Call
import DotFraming.Proofs.Reader.Run
import DotFraming.Proofs.Messages
import DotFraming.Proofs.Reader.Stalls
import DotFraming.Proofs.Wire.Encode
import DotFraming.Proofs.Reader.Closing
import DotFraming.Proofs.Session.Discipline
import DotFraming.Proofs.Stream.Chunking
import DotFraming.Proofs.Session.Levels
import DotFraming.Proofs.CommandLine.Run
import DotFraming.Proofs.Reader.Failure
import DotFraming.Proofs.Reader.Truncation
import DotFraming.Proofs.Reader.Buffer
import DotFraming.Proofs.Reader.Remainder
import DotFraming.Proofs.Source.Events
import DotFraming.Proofs.Wire.Transcript
import DotFraming.Proofs.Messages.Failure
import DotFraming.Proofs.Reader.Lines
import DotFraming.Proofs.Stream.Faults
import DotFraming.Proofs.Session.Readiness
import DotFraming.Proofs.Log.Printable
import DotFraming.Proofs.CommandLine.Entries
import DotFraming.Proofs.Reader.Cost
import DotFraming.Proofs.Source.Remains
import DotFraming.Proofs.Reader.Termination
import DotFraming.Proofs.Messages.Undecodable
