import DotFraming.CommandLine.Options
import DotFraming.Encoding.Lookup
import DotFraming.Messages
import DotFraming.Settings
import DotFraming.Stream.Portioned

/-!
# What the command line does

* `Destination` : where the text of the messages goes.
* `Report` : what a run leaves: the text, the log, and how it ended.
* `run` : a run with given options on given content.
-/

namespace DotFraming

namespace CommandLine

/-- Where the text of the messages goes. -/
inductive Destination where
  /-- To a stream that takes text. -/
  | text
  /-- To the standard output, as bytes in the encoding of the input. -/
  | standard
  deriving DecidableEq, Repr

/-- What a run leaves. -/
structure Report where
  /-- The text of the messages. -/
  text : Text := []
  /-- The encoding in which the standard output gets it. -/
  encoding : Option Encoding := none
  /-- The log. -/
  log : Log
  /-- The exit status, or a fault that was passed on. -/
  outcome : Except Fault Nat

/-- What the standard output gets. -/
def Report.bytes (r : Report) : List UInt8 :=
  match r.encoding with
  | some e => e.encode r.text
  | none => []

/-- The path of the input; without one, or with an empty one, it is the standard input. -/
def Options.input (o : Options) : Option Text := o.path.filter fun p => !p.isEmpty

/-- The path of the input as it stands in the log. -/
def Options.inputName (o : Options) : String := (o.input.map String.ofList).getD "-"

/-- The log entry about a fault that is reported under a name. -/
def faultEntry (o : Options) (log : Log) (name : String) (fault : Fault) : Entry :=
  { origin := log.origin
    level := .error
    message := some ("Could not decode message: " ++ fault.message)
    value := .text name
    context := some [("path", .text o.inputName)] }

/-- The end of a run that failed after `text` was written. Faults that have a name for reports are
logged, others are passed on. -/
def failed (o : Options) (e : Option Encoding) (text : Text) (log : Log) (fault : Fault) :
    Report :=
  match fault.reportName? with
  | some name => ⟨text, e, log.send (faultEntry o log name fault), .ok 1⟩
  | none => ⟨text, e, log, .error fault⟩

/-- The content as a source. -/
def source (e : Encoding) (content : List UInt8) : Pushback PortionedText :=
  { stream := { bytes := content, decoder := ⟨e, []⟩ } }

/-- Decodes the content. -/
def decode (o : Options) (e : Encoding) (content : List UInt8) (log : Log) : Report :=
  match Decoding.messages o.eol.text o.all ⟨source e content, log, []⟩ with
  | .ok count d =>
    ⟨d.output, e, d.log.note .info "Decoded messages" [("count", .number (.int count))], .ok 0⟩
  | .error fault d => failed o e d.output d.log fault

/-- What opens the stream that needs the encoding first: the standard output if it is written to,
else the input. -/
def opener (target : Destination) (o : Options) : String :=
  match target, o.input with
  | .text, some _ => "open"
  | _, _ => "TextIOWrapper"

/-- The encoding that the options ask for. One goes by the name of `locale`: the system's own, which
is UTF-8. -/
def encodingOf (target : Destination) (o : Options) : Except Fault Encoding :=
  match o.encoding with
  | none => .error (.encodingNotNamed (opener target o))
  | some name => if name = "locale" then .ok .utf8 else Encoding.ofName name

/-- A run with options `o` on some content, or on input that could not be opened. What cannot be the
name of an encoding counts before the input does; a name that no encoding has counts first only
where the output is in this encoding too. -/
def run (target : Destination) (o : Options) (content : Except Fault (List UInt8)) (log : Log) :
    Report :=
  match encodingOf target o, content, target with
  | .ok e, .ok bytes, _ => decode o e bytes log
  | .ok e, .error fault, _ => failed o e [] log fault
  | .error (.unknownEncoding _), .error fault, .text => failed o none [] log fault
  | .error fault, _, _ => failed o none [] log fault

end CommandLine

end DotFraming
