import Parley.Json.Token
import Parley.Json.Value
import Parley.Table
import Parley.Text.Digit

/-!
# Reading JSON text

The tokens of a text are read one after the other with a stack of the arrays and objects
that are still open.  The reader is strict, except that it knows the number words `NaN` and
`Infinity`; of several fields with one name the last counts.  What is wrong first counts: a whole
number that is too long is not read, whatever comes after it.
-/

namespace Parley.Json

open Parley.Decimal (Binary64)

/-- Why a text is not read. -/
inductive ReadError where
  | malformed
  /-- A whole number has too many digits. -/
  | tooManyDigits (count : Nat)
  deriving DecidableEq, Repr

/-! ## Atoms -/

/-- Decimal digits at the start of a text and what follows them. -/
def spanDigits (cs : List Char) : List Char × List Char :=
  (cs.takeWhile Char.isDigit, cs.dropWhile Char.isDigit)

def digitsToNat (cs : List Char) : Nat :=
  cs.foldl (fun n c => 10 * n + (c.toNat - 0x30)) 0

/-- The exponent part of a number: empty, or a letter, an optional sign and digits. -/
def exponent? : List Char → Option (Option Int)
  | [] => some none
  | c :: rest =>
    if c = 'e' ∨ c = 'E' then
      let (negative, digits) := match rest with
        | '-' :: digits => (true, digits)
        | '+' :: digits => (false, digits)
        | digits => (false, digits)
      if digits.isEmpty || !digits.all Char.isDigit then none
      else
        let n : Int := digitsToNat digits
        some (some (if negative then -n else n))
    else none

/-- Whether a fraction starts here. -/
def startsFraction : List Char → Bool
  | '.' :: c :: _ => c.isDigit
  | _ => false

/-- Whether an exponent starts here. -/
def startsExponent : List Char → Bool
  | c :: sign :: rest =>
    (c == 'e' || c == 'E') &&
      (sign.isDigit || (sign == '+' || sign == '-') && (rest.head?.any Char.isDigit))
  | _ => false

/-- The value of a number without its sign.  A number with a fraction or an exponent is a
binary64, any other is whole and must not be too long. -/
def unsigned (negative : Bool) (cs : List Char) : Except ReadError Value :=
  let (whole, rest) := spanDigits cs
  if whole.isEmpty || (whole.length > 1 && whole.head? = some '0') then .error .malformed
  else if Text.maxDigits < whole.length && !startsFraction rest && !startsExponent rest then
    .error (.tooManyDigits whole.length)
  else
    let fraction? : Option (Option (List Char) × List Char) := match rest with
      | '.' :: tail =>
        let (digits, tail) := spanDigits tail
        if digits.isEmpty then none else some (some digits, tail)
      | tail => some (none, tail)
    match fraction? with
    | none => .error .malformed
    | some (fraction, tail) =>
      match fraction, exponent? tail with
      | _, none => .error .malformed
      | none, some none =>
        let n : Int := digitsToNat whole
        .ok (.int (if negative then -n else n))
      | fraction, some exponent =>
        let places := fraction.getD []
        .ok (.real (.ofDecimal negative (digitsToNat (whole ++ places))
          (exponent.getD 0 - places.length)))

def atom (cs : List Char) : Except ReadError Value :=
  if cs = "null".toList then .ok .null
  else if cs = "true".toList then .ok (.bool true)
  else if cs = "false".toList then .ok (.bool false)
  else if cs = "NaN".toList then .ok (.real .nan)
  else if cs = "Infinity".toList then .ok (.real (.infinite false))
  else if cs = "-Infinity".toList then .ok (.real (.infinite true))
  else match cs with
    | '-' :: rest => unsigned true rest
    | _ => unsigned false cs

/-! ## Arrays and objects -/

/-- An array or object that is still open. -/
inductive Frame where
  /-- An array with its items so far, last one first. -/
  | array (items : List Value)
  /-- An object with its fields so far and the name of the field being read. -/
  | object (fields : Table String Value) (name : String)

/-- What the reader may meet next. -/
inductive Expect where
  /-- A value. -/
  | value
  /-- A value, or the end of an array that is still empty. -/
  | valueOrClose
  /-- A field name. -/
  | name (fields : Table String Value)
  /-- A field name, or the end of an object that is still empty. -/
  | nameOrClose
  /-- The colon after a field name. -/
  | colon (fields : Table String Value) (name : String)
  /-- A comma or the end of the innermost array or object, after this value. -/
  | separator (last : Value)

/-- Where the reader is. -/
structure ReadState where
  expect : Expect
  stack : List Frame

/-- The reader after a token at which a value may start. -/
def readValue (stack : List Frame) : Token → Except ReadError ReadState
  | .openBracket => .ok ⟨.valueOrClose, .array [] :: stack⟩
  | .openBrace => .ok ⟨.nameOrClose, stack⟩
  | .string s => .ok ⟨.separator (.string s), stack⟩
  | .atom cs => (atom cs).map fun v => ⟨.separator v, stack⟩
  | _ => .error .malformed

def readToken (state : ReadState) (token : Token) : Except ReadError ReadState :=
  match state.expect, token, state.stack with
  | .value, token, stack => readValue stack token
  | .valueOrClose, .closeBracket, .array _ :: stack => .ok ⟨.separator (.array []), stack⟩
  | .valueOrClose, token, stack => readValue stack token
  | .name fields, .string s, stack => .ok ⟨.colon fields s, stack⟩
  | .nameOrClose, .string s, stack => .ok ⟨.colon .empty s, stack⟩
  | .nameOrClose, .closeBrace, stack => .ok ⟨.separator (.object []), stack⟩
  | .colon fields name, .colon, stack => .ok ⟨.value, .object fields name :: stack⟩
  | .separator last, .comma, .array items :: stack =>
    .ok ⟨.value, .array (last :: items) :: stack⟩
  | .separator last, .closeBracket, .array items :: stack =>
    .ok ⟨.separator (.array (last :: items).reverse), stack⟩
  | .separator last, .comma, .object fields name :: stack =>
    .ok ⟨.name (fields.insert name last), stack⟩
  | .separator last, .closeBrace, .object fields name :: stack =>
    .ok ⟨.separator (.object (fields.insert name last).entries), stack⟩
  | _, _, _ => .error .malformed

/-- Read a JSON text.  The tokens in front of a character that no token can hold are read first. -/
def read (text : List Char) : Except ReadError Value :=
  let (tokens, whole) := tokens text
  (tokens.foldlM readToken ⟨.value, []⟩).bind fun state =>
    match state, whole with
    | ⟨.separator value, []⟩, true => .ok value
    | _, _ => .error .malformed

/-- Read a JSON text, if it can be read. -/
def read? (text : List Char) : Option Value :=
  (read text).toOption

end Parley.Json
