import Parley.Text.Blank
import Parley.Text.Word

/-!
# Separators between list items

Lists in a script are written with commas, and the items may hold commas of their own.  A
comma separates two items only where one bracket closes before it and another opens after
it, white space aside.  Whether a comma is such a separator depends on the whole text
before it and the whole text after it, not on the item being read.
-/

namespace Parley.Script

open Parley.Text

/-- Whether a text, given last character first, ends with `closing` up to white space. -/
def endsWith (closing seen : List Char) : Bool :=
  closing.reverse.isPrefixOf (seen.dropWhile isBlank)

/-- Put a character in front of the first of several parts. -/
def consFirst (c : Char) : List (List Char) → List (List Char)
  | [] => [[c]]
  | part :: rest => (c :: part) :: rest

/-- Split a text that continues `seen` (last character first) at the commas that come after
`closing` and before a text accepted by `opens`. -/
def splitAfter (closing : List Char) (opens : List Char → Bool) (seen : List Char) :
    List Char → List (List Char)
  | [] => [[]]
  | c :: rest =>
    if c = ',' && endsWith closing seen && opens (trimStart rest) then
      [] :: splitAfter closing opens (c :: seen) rest
    else
      consFirst c (splitAfter closing opens (c :: seen) rest)

def splitBetween (closing : List Char) (opens : List Char → Bool) (text : List Char) :
    List (List Char) :=
  splitAfter closing opens [] text

/-- Whether a text starts with `opening`. -/
def startsWith (opening text : List Char) : Bool :=
  opening.isPrefixOf text

/-- The items of a list of options, each in double brackets. -/
def splitOptions (text : List Char) : List (List Char) :=
  splitBetween [']', ']'] (startsWith ['[', '[']) text

/-- The items of a list of actions, each in single brackets. -/
def splitActions (text : List Char) : List (List Char) :=
  splitBetween [']'] (startsWith ['[']) text

/-- Whether a text starts with a tag key: word characters directly followed by a bracket. -/
def startsWithTagKey (text : List Char) : Bool :=
  match text with
  | [] => false
  | c :: rest => isWord c && startsWith ['['] (rest.dropWhile isWord)

def splitTags (text : List Char) : List (List Char) :=
  splitBetween [']'] startsWithTagKey text

/-! ## Parts -/

theorem consFirst_ne_nil (c : Char) (parts : List (List Char)) : consFirst c parts ≠ [] := by
  cases parts <;> simp [consFirst]

theorem splitAfter_ne_nil (closing : List Char) (opens : List Char → Bool)
    (seen text : List Char) : splitAfter closing opens seen text ≠ [] := by
  cases text with
  | nil => simp [splitAfter]
  | cons c rest =>
    rw [splitAfter]
    split
    · simp
    · exact consFirst_ne_nil _ _

end Parley.Script
