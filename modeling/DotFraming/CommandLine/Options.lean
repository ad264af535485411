import DotFraming.LineEnding
import DotFraming.Text.Digit
import DotFraming.Text.Quoted

/-!
# Options of the command line

Long options may be abbreviated and may carry their value after an equals sign; single letters may
be run together, and what follows a letter that takes a value is that value. A `--` in the place of
such a value stands for no value. Options and operands come in any order, until `--` ends the
options.

* `Switch`, `Options` : what can be asked for, and what has been.
* `Refusal`, `Ending` : why the program ends before it has begun.
* `Cluster` : the switches that one word holds.
* `Word`, `words` : what each word is. This is settled for all words before any takes effect.
* `parse` : the options that words ask for.
-/

namespace DotFraming

namespace CommandLine

/-- What a word can switch on or set. -/
inductive Switch where
  /-- Show how the program is used. -/
  | help
  /-- The line ending to write. -/
  | eol
  /-- The encoding of input and output. -/
  | encoding
  /-- Decode all messages. -/
  | all
  deriving DecidableEq, Repr

namespace Switch

/-- All switches. -/
def every : List Switch := [help, eol, encoding, all]

/-- The letter that stands for a switch. -/
def letter : Switch → Char
  | help => 'h'
  | eol => 'e'
  | encoding => 'E'
  | all => 'a'

/-- The name of a switch. -/
def name : Switch → String
  | help => "help"
  | eol => "eol"
  | encoding => "encoding"
  | all => "all"

/-- Both spellings of a switch. -/
def label (s : Switch) : String := "-" ++ String.singleton s.letter ++ "/--" ++ s.name

/-- Whether a value belongs to a switch. -/
def takesValue : Switch → Bool
  | eol | encoding => true
  | help | all => false

/-- The switch with a given letter. -/
def ofLetter? (c : Char) : Option Switch := every.find? fun s => s.letter == c

/-- The switches whose names begin as written. -/
def beginningWith (written : Text) : List Switch :=
  every.filter fun s => written.isPrefixOf s.name.toList

end Switch

/-- What the command line asks for. -/
structure Options where
  /-- The line ending to write. -/
  eol : LineEnding := .native
  /-- The name of the encoding of input and output, if it has been given one. -/
  encoding : Option String
  /-- Decode all messages instead of one. -/
  all : Bool := false
  /-- The path of the input. -/
  path : Option Text := none
  deriving DecidableEq, Repr

/-- Why a command line is refused. -/
inductive Refusal where
  /-- Words that mean nothing. -/
  | unrecognized (words : List Text)
  /-- An abbreviation of several names. -/
  | ambiguous (word : Text) (candidates : List Switch)
  /-- A switch lacks its value. -/
  | valueMissing (s : Switch)
  /-- A value is given to a switch that takes none. -/
  | valueIgnored (s : Switch) (value : Text)
  /-- There is no such line ending. -/
  | noSuchEnding (value : Text)
  deriving DecidableEq, Repr

/-- A text between quotes. -/
def quoted (t : Text) : String := String.ofList (Text.quote t)

/-- The wording of a refusal. -/
def Refusal.message : Refusal → String
  | unrecognized words => "unrecognized arguments: " ++ " ".intercalate (words.map String.ofList)
  | ambiguous word candidates =>
    "ambiguous option: " ++ String.ofList word ++ " could match " ++
      ", ".intercalate (candidates.map fun s => "--" ++ s.name)
  | valueMissing s => "argument " ++ s.label ++ ": expected one argument"
  | valueIgnored s value =>
    "argument " ++ s.label ++ ": ignored explicit argument " ++ quoted value
  | noSuchEnding value =>
    "argument " ++ Switch.eol.label ++ ": invalid choice: " ++ quoted value ++ " (choose from " ++
      ", ".intercalate (LineEnding.all.map fun l => quoted l.name.toList) ++ ")"

/-- Why the program ends before it has begun. -/
inductive Ending where
  /-- Its usage was asked for. -/
  | help
  /-- The command line was refused. -/
  | refused (r : Refusal)
  deriving DecidableEq, Repr

/-- The exit status of such an end. -/
def Ending.status : Ending → Nat
  | help => 0
  | refused _ => 2

/-! ### Words -/

/-- What stands last in a word of switches. -/
inductive Last where
  /-- Nothing more. -/
  | nothing
  /-- A switch whose value is the next word. -/
  | wants (s : Switch)
  /-- A switch and its value. -/
  | has (s : Switch) (value : Text)
  deriving DecidableEq, Repr

/-- The switches that one word holds. -/
structure Cluster where
  /-- Those without a value. -/
  flags : List Switch
  /-- What comes after them. -/
  last : Last
  deriving DecidableEq, Repr

namespace Cluster

/-- A switch without anything after it. -/
def ofSwitch (s : Switch) : Cluster :=
  if s.takesValue then ⟨[], .wants s⟩ else ⟨[s], .nothing⟩

/-- A switch and the value in the same word. -/
def withValue (s : Switch) (value : Text) : Except Refusal Cluster :=
  if s.takesValue then .ok ⟨[], .has s value⟩ else .error (.valueIgnored s value)

/-- The switches of a word of letters: `s`, and those in the text after its letter. A switch that
takes no value can only have other letters after it. -/
def ofLetters (s : Switch) : Text → Except Refusal Cluster
  | [] => .ok (ofSwitch s)
  | c :: t =>
    if s.takesValue then withValue s (c :: t)
    else
      match Switch.ofLetter? c with
      | none => .error (.valueIgnored s (c :: t))
      | some s' =>
        match ofLetters s' t with
        | .ok rest => .ok { rest with flags := s :: rest.flags }
        | .error r => .error r

/-- The switches of a word of letters that begins with `s`. An equals sign right after the first
letter only sets apart what comes after it. -/
def ofWord (s : Switch) : Text → Except Refusal Cluster
  | '=' :: value => if value = [] then withValue s [] else ofLetters s value
  | t => ofLetters s t

/-- The switch of a word with a name, and the value in the same word if there is one. -/
def ofName (s : Switch) : Option Text → Except Refusal Cluster
  | none => .ok (ofSwitch s)
  | some value => withValue s value

end Cluster

/-- What a word is. -/
inductive Word where
  /-- No option: the path, or the value of the option before it. -/
  | operand (w : Text)
  /-- An option that does not exist. -/
  | unknown (w : Text)
  /-- Switches, or what is wrong with them, which is said when their turn comes. -/
  | switches (c : Except Refusal Cluster)
  /-- The end of the options. -/
  | divider

/-- A word that begins like an option but is none of them: still an operand if it looks like a
number or has a space in it. -/
def Word.ofStray (w : Text) : Word :=
  if Text.looksNegative w || w.contains ' ' then .operand w else .unknown w

/-- What follows the first equals sign, if there is one, and what comes before it. -/
def splitValue (t : Text) : Text × Option Text :=
  match t.dropWhile (· != '=') with
  | [] => (t, none)
  | _ :: value => (t.takeWhile (· != '='), some value)

/-- What a word is that stands before the end of the options. -/
def Word.classify (w : Text) : Except Refusal Word :=
  match w with
  | '-' :: '-' :: rest =>
    let (written, value) := splitValue rest
    match Switch.beginningWith written with
    | [] => .ok (.ofStray w)
    | [s] => .ok (.switches (Cluster.ofName s value))
    | candidates => .error (.ambiguous w candidates)
  | '-' :: c :: t =>
    match Switch.ofLetter? c with
    | none => .ok (.ofStray w)
    | some s => .ok (.switches (Cluster.ofWord s t))
  | _ => .ok (.operand w)

/-- What each word is. -/
def words : List Text → Except Refusal (List Word)
  | [] => .ok []
  | w :: ws =>
    if w = ['-', '-'] then .ok (.divider :: ws.map .operand)
    else
      match Word.classify w with
      | .error r => .error r
      | .ok word =>
        match words ws with
        | .error r => .error r
        | .ok rest => .ok (word :: rest)

/-! ### Taking effect -/

/-- What the words so far ask for. -/
structure Draft where
  /-- The options. -/
  options : Options
  /-- Words that mean nothing, the latest first. -/
  strays : List Text := []

namespace Draft

/-- One more word that means nothing. -/
def stray (d : Draft) (w : Text) : Draft := { d with strays := w :: d.strays }

/-- Switches on what takes no value. Help ends the program at once. -/
def flag (d : Draft) : Switch → Except Ending Draft
  | .help => .error .help
  | .all => .ok { d with options := { d.options with all := true } }
  | .eol | .encoding => .ok d

/-- Switches on several. -/
def flags (d : Draft) : List Switch → Except Ending Draft
  | [] => .ok d
  | s :: rest =>
    match d.flag s with
    | .ok d' => flags d' rest
    | .error e => .error e

/-- Gives a switch its value. Without one the line ending is that of the system, and the encoding
has no name. -/
def set (d : Draft) (s : Switch) (value : Text) : Except Ending Draft :=
  let given := if value = ['-', '-'] then none else some value
  match s, given with
  | .encoding, _ =>
    .ok { d with options := { d.options with encoding := given.map String.ofList } }
  | .eol, none => .ok { d with options := { d.options with eol := .native } }
  | .eol, some name =>
    match LineEnding.all.find? fun l => l.name.toList == name with
    | some eol => .ok { d with options := { d.options with eol } }
    | none => .error (.refused (.noSuchEnding name))
  | .help, _ | .all, _ => .ok d

/-- Lets the switches of a word take effect, with the value that the last of them has by now. -/
def apply (d : Draft) (c : Cluster) (value : Option (Switch × Text)) : Except Ending Draft :=
  match d.flags c.flags, value with
  | .error e, _ => .error e
  | .ok d', none => .ok d'
  | .ok d', some (s, v) => d'.set s v

/-- Takes an operand: the first one is the path. -/
def operand (d : Draft) (w : Text) : Draft :=
  match d.options.path with
  | none => { d with options := { d.options with path := some w } }
  | some _ => d.stray w

/-- Takes the end of the options. It means nothing if the path has been given before. -/
def divider (d : Draft) : Draft :=
  match d.options.path with
  | none => d
  | some _ => d.stray ['-', '-']

/-- Lets all words take effect. A `--` right after the path belongs to it. -/
def take (d : Draft) : List Word → Except Ending Draft
  | [] => .ok d
  | .operand w :: .divider :: rest =>
    match d.options.path with
    | none => take (d.operand w) rest
    | some _ => take (d.operand w).divider rest
  | .operand w :: rest => take (d.operand w) rest
  | .divider :: rest => take d.divider rest
  | .unknown w :: rest => take (d.stray w) rest
  | .switches (.error r) :: _ => .error (.refused r)
  | .switches (.ok c) :: rest =>
    match c.last with
    | .nothing =>
      match d.apply c none with
      | .ok d' => take d' rest
      | .error e => .error e
    | .has s value =>
      match d.apply c (some (s, value)) with
      | .ok d' => take d' rest
      | .error e => .error e
    | .wants s =>
      match rest with
      | .operand value :: rest' =>
        match d.apply c (some (s, value)) with
        | .ok d' => take d' rest'
        | .error e => .error e
      | _ => .error (.refused (.valueMissing s))

end Draft

/-- The options that the words of a command line ask for. Unless they name an encoding it is the one
given. -/
def parse (encoding : String) (args : List String) : Except Ending Options :=
  match words (args.map String.toList) with
  | .error r => .error (.refused r)
  | .ok ws =>
    match Draft.take { options := { encoding := some encoding } } ws with
    | .error e => .error e
    | .ok d =>
      if d.strays = [] then .ok d.options
      else .error (.refused (.unrecognized d.strays.reverse))

end CommandLine

end DotFraming
