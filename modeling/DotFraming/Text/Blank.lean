import DotFraming.Text

/-!
# Blank characters and names

Names of settings are compared without the blanks around them and without regard to case.

* `blankRanges`, `isBlank` : the characters that Unicode counts as white space by their
  bidirectional class or category, so the four information separators are among them.
* `trimBlanks` : a text without the blanks at its two ends.
* `sameName` : whether a written name is the given lower-case one.
-/

namespace DotFraming

namespace Text

/-- The blank characters, as ranges of code points. -/
def blankRanges : List (Nat × Nat) :=
  [(0x9, 0xd), (0x1c, 0x20), (0x85, 0x85), (0xa0, 0xa0), (0x1680, 0x1680), (0x2000, 0x200a),
   (0x2028, 0x2029), (0x202f, 0x202f), (0x205f, 0x205f), (0x3000, 0x3000)]

/-- Whether a character is blank. -/
def isBlank (c : Char) : Bool :=
  blankRanges.any fun (lo, hi) => lo ≤ c.toNat && c.toNat ≤ hi

/-- A text without the blanks at its two ends. -/
def trimBlanks (t : Text) : Text :=
  ((t.dropWhile isBlank).reverse.dropWhile isBlank).reverse

/-- Whether `written` is the name `name`, up to blanks around it and the case of its letters.
`name` is in lower case and has ASCII letters only; no other character has a lower-case form
made of letters that occur in the names of this library. -/
def sameName (name written : String) : Bool :=
  (trimBlanks written.toList).map Char.toLower == name.toList

end Text

end DotFraming
