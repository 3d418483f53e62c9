import Parley.Decimal.Binary64

/-!
# The shortest decimal of a number

A binary64 number is written with the fewest significant digits that read back as the same
number, and among those with the digits nearest to it.  Numbers of moderate size are written
positionally, the others with an exponent.
-/

namespace Parley.Decimal

/-- The greatest power of ten not above a positive fraction below one, as the least `k` with
`num * 10 ^ k` at least `den`; `fuel` bounds the search. -/
def leadingZeros (num den : Nat) : (fuel : Nat) → Nat
  | 0 => 0
  | fuel + 1 => if den ≤ num then 0 else leadingZeros (10 * num) den fuel + 1

/-- The exponent of the greatest power of ten not above a positive fraction. -/
def floorLog10 (num den : Nat) : Int :=
  if den ≤ num then (digitCount (num / den) : Int) - 1 else -(leadingZeros num den 400 : Int)

/-- The points of the decimal grid `10 ^ power` next to a fraction that read back as `x`, the
nearer one first.  On an exact tie the even one comes first. -/
def hits (x : Binary64) (negative : Bool) (num den : Nat) (power : Int) : List Nat :=
  let (n, d) := scale 10 num den (-power)
  let nearest := roundDiv n d
  let other := if nearest = n / d then n / d + 1 else n / d
  [nearest, other].filter fun digits => Binary64.ofDecimal negative digits power = x

/-- The digits and the power of ten of the shortest decimal, sought from `size` digits
upwards; `fuel` bounds the number of sizes tried. -/
def shortestFrom (x : Binary64) (negative : Bool) (num den : Nat) (top : Int) :
    (size fuel : Nat) → Nat × Int
  | _, 0 => (0, 0)
  | size, fuel + 1 =>
    let power := top - (size : Int) + 1
    match hits x negative num den power with
    | digits :: _ => (digits, power)
    | [] => shortestFrom x negative num den top (size + 1) fuel

/-- The significant digits of a positive number without trailing zeros, and the exponent of
the first of them. -/
def significant (digits : Nat) (power : Int) : List Char × Int :=
  let all := Nat.toDigits 10 digits
  let kept := (all.reverse.dropWhile (· == '0')).reverse
  (kept, power + (all.length : Int) - 1)

/-- Digits in positional notation; a whole number keeps one zero after the point. -/
def positional (digits : List Char) (top : Int) : List Char :=
  match top with
  | .ofNat k =>
    let whole := digits.take (k + 1) ++ List.replicate (k + 1 - digits.length) '0'
    let fraction := digits.drop (k + 1)
    whole ++ ['.'] ++ (if fraction.isEmpty then ['0'] else fraction)
  | .negSucc k => ['0', '.'] ++ List.replicate k '0' ++ digits

/-- Digits in exponent notation; the exponent has a sign and at least two digits. -/
def scientific (digits : List Char) (top : Int) : List Char :=
  let mantissa := match digits with
    | first :: [] => [first]
    | first :: rest => first :: '.' :: rest
    | [] => ['0']
  let size := Nat.toDigits 10 top.natAbs
  let padded := if size.length < 2 then '0' :: size else size
  mantissa ++ ['e', if top < 0 then '-' else '+'] ++ padded

/-- The text of a number.  Exponents from minus four to fifteen are written positionally. -/
def Binary64.text : Binary64 → String
  | .nan => "nan"
  | .infinite negative => if negative then "-inf" else "inf"
  | .finite negative mantissa exponent =>
    let body :=
      if mantissa = 0 then ['0', '.', '0']
      else
        let (num, den) := scale 2 mantissa 1 exponent
        let x := Binary64.finite negative mantissa exponent
        let (digits, power) :=
          shortestFrom x negative num den (floorLog10 num den) 1 17
        let (digits, top) := significant digits power
        if -4 ≤ top ∧ top < 16 then positional digits top else scientific digits top
    String.ofList (if negative then '-' :: body else body)

end Parley.Decimal
