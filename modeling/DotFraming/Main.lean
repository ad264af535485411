import DotFraming.CommandLine.Run
import DotFraming.CommandLine.Usage

/-!
# The program

Reads the environment, the command line and the input, and writes what `CommandLine.run` reports.
-/

namespace DotFraming

/-- The environment variables that matter. -/
def readEnvironment : IO Environment := do
  let eol ← IO.getEnv "DOTSTREAM_EOL"
  let encoding ← IO.getEnv "DOTSTREAM_ENCODING"
  let logLevel ← IO.getEnv "DOTSTREAM_LOG_LEVEL"
  let noColor ← IO.getEnv "NO_COLOR"
  let forceColor ← IO.getEnv "FORCE_COLOR"
  return { eol, encoding, logLevel, noColor := noColor.isSome, forceColor := forceColor.isSome }

/-- The fault with a number of the operating system, which may come with a minus sign. -/
def faultWith (number : UInt32) (text : String) : FileFault :=
  FileFault.ofNumber number.toInt32.toInt.natAbs text

/-- What the operating system says about a file. -/
def faultOf : IO.Error → FileFault
  | .noFileOrDirectory _ number text | .permissionDenied _ number text
  | .inappropriateType _ number text | .invalidArgument _ number text
  | .noSuchThing _ number text | .alreadyExists _ number text
  | .resourceExhausted _ number text | .otherError number text | .hardwareFault number text
  | .illegalOperation number text | .resourceBusy number text
  | .unsupportedOperation number text => faultWith number text
  | e => .other 5 (toString e)

/-- The content of a file. -/
def readFile (path : Text) : IO (Except Fault (List UInt8)) := do
  if path.contains '\x00' then return .error .nullInPath
  let name := String.ofList path
  try
    return .ok (← IO.FS.readBinFile name).toList
  catch e => return .error (.file (faultOf e) name)

/-- Everything that comes from a stream. -/
partial def readToEnd (stream : IO.FS.Stream) (got : ByteArray) : IO ByteArray := do
  let portion ← stream.read 65536
  if portion.isEmpty then return got else readToEnd stream (got ++ portion)

/-- Carries out a command line in given settings, and gives the exit status. -/
def execute (settings : Settings) (args : List String) : IO UInt32 := do
  let stdout ← IO.getStdout
  let stderr ← IO.getStderr
  match CommandLine.parse settings.encoding args with
  | .error e =>
    match e with
    | .help => stdout.putStr (CommandLine.help settings.encoding)
    | .refused r => stderr.putStr (CommandLine.usage ++ CommandLine.refusalLine r ++ "\n")
    return UInt32.ofNat e.status
  | .ok o =>
    let content ← match o.input with
      | some path => readFile path
      | none => pure (.ok (← readToEnd (← IO.getStdin) ByteArray.empty).toList)
    let report := CommandLine.run .standard o content { level := settings.level }
    stdout.write ⟨report.bytes.toArray⟩
    stdout.flush
    stderr.putStr (report.log.text settings.palette)
    match report.outcome with
    | .ok status => return UInt32.ofNat status
    | .error fault =>
      stderr.putStr (fault.message ++ "\n")
      return 1

end DotFraming

/-- The program. -/
def main (args : List String) : IO UInt32 := do
  match DotFraming.Settings.ofEnvironment (← DotFraming.readEnvironment) with
  | .ok settings => DotFraming.execute settings args
  | .error fault =>
    (← IO.getStderr).putStr (fault.message ++ "\n")
    return 1
