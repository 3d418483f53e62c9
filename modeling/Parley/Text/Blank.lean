import Parley.Text.Ranges
import Parley.Text.Strip

/-!
# Blank characters

White space around the pieces of a script carries no meaning.  This module fixes which
characters are white space and names the three ways in which a text is trimmed of it.
-/

namespace Parley.Text

/-- The white-space characters: the ASCII blanks and separators, the next-line control, the
no-break space, and the space, line and paragraph separators of Unicode. -/
def blankRanges : List (Nat × Nat) :=
  [(0x09, 0x0D), (0x1C, 0x20), (0x85, 0x85), (0xA0, 0xA0), (0x1680, 0x1680),
    (0x2000, 0x200A), (0x2028, 0x2029), (0x202F, 0x202F), (0x205F, 0x205F),
    (0x3000, 0x3000)]

def isBlank (c : Char) : Bool :=
  inRanges c.toNat blankRanges

def trimStart (cs : List Char) : List Char :=
  cs.dropWhile isBlank

def trimEnd (cs : List Char) : List Char :=
  dropEnd isBlank cs

/-- The text without leading and trailing white space. -/
def trim (cs : List Char) : List Char :=
  strip isBlank cs

@[simp] theorem trim_nil : trim [] = [] := rfl

end Parley.Text
