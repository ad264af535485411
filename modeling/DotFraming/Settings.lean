import DotFraming.LineEnding
import DotFraming.Log.Level
import DotFraming.Terminal

/-!
# Settings from the environment

* `Environment` : the variables that matter.
* `Settings`, `Settings.ofEnvironment` : what they ask for. The name of a line ending must be valid;
  the names of an encoding and of a level are taken as they are.
-/

namespace DotFraming

/-- The environment variables that matter. -/
structure Environment where
  /-- The name of the line ending. -/
  eol : Option String := none
  /-- The name of the encoding. -/
  encoding : Option String := none
  /-- The name of the least level that is logged. -/
  logLevel : Option String := none
  /-- Colours are refused. -/
  noColor : Bool := false
  /-- Colours are asked for. -/
  forceColor : Bool := false

/-- The version of the program. -/
def version : String := "1.0.0"

/-- What the environment asks for. -/
structure Settings where
  /-- The line ending that readers hand out if none is given. -/
  eol : Text
  /-- The name of the encoding of streams if none is given. -/
  encoding : String
  /-- The name of the least level that is logged. -/
  logLevel : String
  /-- Colours are refused. -/
  noColor : Bool
  /-- Colours are asked for. -/
  forceColor : Bool

namespace Settings

/-- What an environment asks for. By default the encoding is Latin-1, which gives every byte a
character of its own. -/
def ofEnvironment (env : Environment) : Except Fault Settings :=
  match LineEnding.named (some (env.eol.getD "native")) with
  | .error e => .error e
  | .ok eol =>
    .ok
      { eol
        encoding := env.encoding.getD "latin-1"
        logLevel := env.logLevel.getD "Warning"
        noColor := env.noColor
        forceColor := env.forceColor }

/-- The least level that is logged. -/
def level (s : Settings) : Level := Level.ofName (some s.logLevel) .warning

/-- The colours of the terminal. -/
def palette (s : Settings) : Palette := Palette.ofWishes s.noColor s.forceColor

end Settings

end DotFraming
