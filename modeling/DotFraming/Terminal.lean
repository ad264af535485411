/-!
# Terminal colours

* `Palette` : whether output is coloured, and the escape sequences that follow from it.
-/

namespace DotFraming

/-- The escape sequences of a terminal, all empty when colours are off. -/
structure Palette where
  /-- Colours are on. -/
  colored : Bool
  deriving DecidableEq, Repr

namespace Palette

/-- Colours are on unless they are refused; asking for them overrides the refusal. -/
def ofWishes (refused forced : Bool) : Palette := ⟨forced || !refused⟩

/-- A sequence, if colours are on. -/
def sequence (p : Palette) (code : String) : String :=
  if p.colored then "\x1b[" ++ code ++ "m" else ""

/-- Starts bold letters. -/
def bold (p : Palette) : String := p.sequence "1"

/-- Ends all effects. -/
def reset (p : Palette) : String := p.sequence "0"

/-- Starts the colour with the given number in the palette of 256 colours. -/
def color (p : Palette) (number : Int) (isBold : Bool) : String :=
  p.sequence ((if isBold then "1" else "0") ++ ";38;5;" ++ toString number)

@[simp] theorem sequence_plain (code : String) : sequence ⟨false⟩ code = "" := rfl

end Palette

end DotFraming
