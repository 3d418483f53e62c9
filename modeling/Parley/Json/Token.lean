import Parley.Decimal.Binary64

/-!
# The tokens of JSON text

A JSON text is first cut into tokens: the six punctuation marks, strings, and atoms, which
are the unquoted words and numbers.  The scan goes once over the characters; what it is in
the middle of is its mode.
-/

namespace Parley.Json

/-- A token of JSON text. -/
inductive Token where
  | openBracket
  | closeBracket
  | openBrace
  | closeBrace
  | colon
  | comma
  | string (s : String)
  | atom (cs : List Char)
  deriving DecidableEq, Repr

/-- What the scan is in the middle of.  Characters read so far come last one first; those of
a string are kept as numbers, because an escape may stand for half of a surrogate pair. -/
inductive Mode where
  | between
  | atom (sofar : List Char)
  | string (sofar : List Nat)
  | escape (sofar : List Nat)
  | hex (sofar : List Nat) (missing value : Nat)

def isAtomChar (c : Char) : Bool :=
  c.isAlphanum || c == '+' || c == '-' || c == '.'

def punctuation? (c : Char) : Option Token :=
  if c = '[' then some .openBracket
  else if c = ']' then some .closeBracket
  else if c = '\x7b' then some .openBrace
  else if c = '\x7d' then some .closeBrace
  else if c = ':' then some .colon
  else if c = ',' then some .comma
  else none

def hexValue? (c : Char) : Option Nat :=
  if '0' ≤ c ∧ c ≤ '9' then some (c.toNat - 0x30)
  else if 'a' ≤ c ∧ c ≤ 'f' then some (c.toNat - 0x57)
  else if 'A' ≤ c ∧ c ≤ 'F' then some (c.toNat - 0x37)
  else none

/-- The character that a one-letter escape stands for. -/
def escaped? (c : Char) : Option Nat :=
  if c = '\x22' ∨ c = '\\' ∨ c = '/' then some c.toNat
  else if c = 'b' then some 8
  else if c = 'f' then some 12
  else if c = 'n' then some 10
  else if c = 'r' then some 13
  else if c = 't' then some 9
  else none

/-- Numbers to characters; two halves of a surrogate pair in a row become one character.  A text
cannot hold a lone half: the private characters from U+10F800 on stand for the halves, each for
one, so texts that differ in lone halves stay different.  This is a limit: such a text is not told
apart from one that has these private characters itself. -/
def joinPairs : List Nat → List Char
  | high :: low :: rest =>
    if 0xD800 ≤ high ∧ high < 0xDC00 ∧ 0xDC00 ≤ low ∧ low < 0xE000 then
      Char.ofNat (0x10000 + (high - 0xD800) * 0x400 + (low - 0xDC00)) :: joinPairs rest
    else single high :: joinPairs (low :: rest)
  | [n] => [single n]
  | [] => []
where
  single (n : Nat) : Char :=
    if 0xD800 ≤ n ∧ n < 0xE000 then Char.ofNat (n - 0xD800 + 0x10F800) else Char.ofNat n

/-- Go on with the scan outside of tokens, at a given character.  The tokens found so far
come last one first. -/
def scanBetween (found : List Token) (c : Char) : Option (Mode × List Token) :=
  if c = ' ' ∨ c = '\t' ∨ c = '\n' ∨ c = '\r' then some (.between, found)
  else if c = '\x22' then some (.string [], found)
  else if isAtomChar c then some (.atom [c], found)
  else (punctuation? c).map fun token => (.between, token :: found)

/-- One character of the scan; `none` if no token can hold it. -/
def scanChar : Mode × List Token → Char → Option (Mode × List Token)
  | (.between, found), c => scanBetween found c
  | (.atom sofar, found), c =>
    if isAtomChar c then some (.atom (c :: sofar), found)
    else scanBetween (.atom sofar.reverse :: found) c
  | (.string sofar, found), c =>
    if c = '\x22' then
      some (.between, .string (String.ofList (joinPairs sofar.reverse)) :: found)
    else if c = '\\' then some (.escape sofar, found)
    else if c.toNat < 0x20 then none
    else some (.string (c.toNat :: sofar), found)
  | (.escape sofar, found), c =>
    if c = 'u' then some (.hex sofar 4 0, found)
    else (escaped? c).map fun n => (.string (n :: sofar), found)
  | (.hex sofar missing value, found), c =>
    (hexValue? c).map fun n =>
      if missing ≤ 1 then (.string ((16 * value + n) :: sofar), found)
      else (.hex sofar (missing - 1) (16 * value + n), found)

/-- The tokens found once the scan has ended. -/
def found : Mode × List Token → List Token
  | (.atom sofar, found) => (.atom sofar.reverse :: found).reverse
  | (_, found) => found.reverse

/-- Whether a text may end here. -/
def mayEnd : Mode → Bool
  | .between | .atom _ => true
  | _ => false

/-- Go on with the scan until no token can hold the next character. -/
def tokensFrom : Mode × List Token → List Char → List Token × Bool
  | state, [] => (found state, mayEnd state.1)
  | state, c :: rest =>
    match scanChar state c with
    | some next => tokensFrom next rest
    | none => (found state, false)

/-- The tokens of a text before the first character that no token can hold, and whether the text
is made of these tokens. -/
def tokens (text : List Char) : List Token × Bool :=
  tokensFrom (.between, []) text

end Parley.Json
