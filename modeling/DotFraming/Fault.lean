import DotFraming.Encoding.Decoder
import DotFraming.Text.Quoted

/-!
# What can go wrong

* `FileFault` : why a file could not be opened.
* `Fault` : every cause for which an operation of the library fails.
* `Fault.message` : the wording.
* `Fault.reportName?` : the faults that the command line reports instead of passing them on, and
  the name it gives them.
-/

namespace DotFraming

/-- Why a file could not be opened. -/
inductive FileFault where
  /-- Nothing has that name. -/
  | notFound
  /-- Reading it is not permitted. -/
  | notPermitted
  /-- A part of the path that is not the last is no directory. -/
  | notDirectory
  /-- The path leads to a directory. -/
  | isDirectory
  /-- A name in the path, or the path, is too long. -/
  | nameTooLong
  /-- Any other refusal of the operating system. -/
  | other (number : Nat) (text : String)
  deriving DecidableEq, Repr

namespace FileFault

/-- The number under which the operating system knows the fault. -/
def number : FileFault → Nat
  | notFound => 2
  | notPermitted => 13
  | notDirectory => 20
  | isDirectory => 21
  | nameTooLong => 36
  | other n _ => n

/-- The wording of the fault. -/
def text : FileFault → String
  | notFound => "No such file or directory"
  | notPermitted => "Permission denied"
  | notDirectory => "Not a directory"
  | isDirectory => "Is a directory"
  | nameTooLong => "File name too long"
  | other _ t => t

/-- The fault that the operating system knows under a number. -/
def ofNumber (number : Nat) (text : String) : FileFault :=
  let known := [notFound, notPermitted, notDirectory, isDirectory, nameTooLong]
  (known.find? fun f => f.number == number).getD (.other number text)

/-- The name under which the fault is reported. -/
def reportName : FileFault → String
  | notFound => "FileNotFoundError"
  | notPermitted => "PermissionError"
  | notDirectory => "NotADirectoryError"
  | isDirectory => "IsADirectoryError"
  | nameTooLong => "OSError"
  | other _ _ => "OSError"

end FileFault

/-- Why an operation failed. -/
inductive Fault where
  /-- A reader was asked for with an empty line ending. -/
  | emptyLineEnding
  /-- A line ending was asked for by a name that none has. -/
  | unknownLineEnding (name : String)
  /-- An encoding was asked for by a name that none has. -/
  | unknownEncoding (name : String)
  /-- A name with a null character, which is that of no encoding. -/
  | nullInEncoding
  /-- An encoding was asked for without a name where `opener` needs one. -/
  | encodingNotNamed (opener : String)
  /-- What `receiver` is told in a place of its own was given once more by name. -/
  | givenTwice (receiver name : String)
  /-- A size that no stream in memory can have. -/
  | sizeOutOfRange
  /-- A place in a buffer that the buffer does not have. -/
  | offsetOutside (offset : Int) (size : Nat)
  /-- More characters than the buffer has room for. -/
  | rangeOutside (count offset : Int) (size : Nat)
  /-- A piece that is not a single character was pushed back. -/
  | notOneCharacter (piece : Piece)
  /-- A piece was pushed back while another one was waiting. -/
  | pushbackOccupied
  /-- A stream that does not wait has nothing at the moment. -/
  | noDataYet
  /-- Bytes that the encoding does not allow. -/
  | undecodable (error : DecodingError)
  /-- A path with a null character, which names no file. -/
  | nullInPath
  /-- A file could not be opened. -/
  | file (fault : FileFault) (path : String)
  /-- A failure of the transport, known by its kind and its wording. -/
  | transport (kind text : String)
  deriving DecidableEq, Repr

/-- The wording of a decoding error: one offending byte is shown, of several the positions. -/
def DecodingError.message (e : DecodingError) : String :=
  let place :=
    match e.bytes with
    | [b] => "byte 0x" ++ String.ofList (Text.hex 2 b.toNat) ++ " in position " ++ toString e.start
    | _ => "bytes in position " ++ toString e.start ++ "-" ++
        toString (e.start + e.bytes.length - 1)
  "'" ++ e.encoding.messageName ++ "' codec can't decode " ++ place ++ ": " ++ e.reason.text

namespace Fault

/-- The text of a name between quotes. -/
def quoted (name : String) : String := String.ofList (Text.quote name.toList)

/-- The wording of a fault. -/
def message : Fault → String
  | emptyLineEnding => "Line terminator must not be empty"
  | unknownLineEnding name =>
    "Unknown line terminator '" ++ name ++ "', expected one of: native, lf, crlf, cr"
  | unknownEncoding name => "unknown encoding: " ++ name
  | nullInEncoding => "embedded null character"
  | encodingNotNamed opener => opener ++ "() argument 'encoding' must be str or None, not list"
  | givenTwice receiver name =>
    receiver ++ "() got multiple values for argument '" ++ name ++ "'"
  | sizeOutOfRange => "cannot fit 'int' into an index-sized integer"
  | offsetOutside offset size =>
    "Offset " ++ toString offset ++ " is outside of a buffer of " ++ toString size
  | rangeOutside count offset size =>
    "Cannot read " ++ toString count ++ " characters at offset " ++ toString offset ++
      " into a buffer of " ++ toString size
  | notOneCharacter piece =>
    "Can only push back a single character, got: " ++ String.ofList (Text.quote piece)
  | pushbackOccupied => "Pushback buffer overflow"
  | noDataYet => "No data available on non-blocking stream"
  | undecodable error => error.message
  | nullInPath => "embedded null byte"
  | file fault path =>
    "[Errno " ++ toString fault.number ++ "] " ++ fault.text ++ ": " ++ quoted path
  | transport _ text => text

/-- The name under which the command line reports a fault; `none` for faults that are mistakes of
its caller, which it passes on. -/
def reportName? : Fault → Option String
  | pushbackOccupied => some "PushbackError"
  | noDataYet => some "BlockingIOError"
  | undecodable _ => some "UnicodeDecodeError"
  | file fault _ => some fault.reportName
  | transport kind _ => some kind
  | emptyLineEnding | unknownLineEnding _ | unknownEncoding _ | nullInEncoding
  | encodingNotNamed _ | givenTwice _ _ | sizeOutOfRange | offsetOutside _ _ | rangeOutside _ _ _
  | notOneCharacter _ | nullInPath => none

end Fault

end DotFraming
