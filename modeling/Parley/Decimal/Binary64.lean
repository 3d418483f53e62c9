/-!
# Binary floating-point numbers

Numbers with a fraction or an exponent are held in the binary64 format, each as an exact
integer times a power of two.  A decimal is rounded to the nearest such number, a tie to the
even integer.  All arithmetic is on integers.
-/

namespace Parley.Decimal

/-- A binary64 number.  A finite one stands for `mantissa * 2 ^ exponent`, with its sign kept
apart so that the two zeros differ.  The mantissa is below `2 ^ 53`, the exponent at least
`-1074`, and the mantissa is at least `2 ^ 52` unless the exponent is the least. -/
inductive Binary64 where
  | nan
  | infinite (negative : Bool)
  | finite (negative : Bool) (mantissa : Nat) (exponent : Int)
  deriving DecidableEq, Repr

/-- The quotient rounded to the nearest integer, a tie to the even one. -/
def roundDiv (num den : Nat) : Nat :=
  let low := num / den
  let rest := 2 * (num % den)
  if rest < den then low
  else if den < rest then low + 1
  else if low % 2 = 0 then low else low + 1

/-- The fraction `num / den` times a power of `base`, as numerator and denominator. -/
def scale (base num den : Nat) (power : Int) : Nat × Nat :=
  match power with
  | .ofNat k => (num * base.pow k, den)
  | .negSucc k => (num, den * base.pow (k + 1))

/-- The least mantissa that is too large. -/
def mantissaLimit : Nat := Nat.pow 2 53

/-- The greatest power of two not above a positive fraction, as its exponent. -/
def floorLog2 (num den : Nat) : Int :=
  let guess : Int := (num.log2 : Int) - (den.log2 : Int)
  let (n, d) := scale 2 num den (-guess)
  if d ≤ n then guess else guess - 1

/-- The binary64 number nearest to a positive fraction. -/
def Binary64.ofFraction (negative : Bool) (num den : Nat) : Binary64 :=
  let exponent := max (floorLog2 num den - 52) (-1074)
  let (n, d) := scale 2 num den (-exponent)
  let mantissa := roundDiv n d
  let (mantissa, exponent) :=
    if mantissa = mantissaLimit then (mantissaLimit / 2, exponent + 1) else (mantissa, exponent)
  if exponent > 971 then .infinite negative else .finite negative mantissa exponent

/-- The number of decimal digits of a positive number. -/
def digitCount (n : Nat) : Nat :=
  (Nat.toDigits 10 n).length

/-- The binary64 number nearest to `digits * 10 ^ power`.  Decimals far beyond the range of
the format are recognised by their number of digits. -/
def Binary64.ofDecimal (negative : Bool) (digits : Nat) (power : Int) : Binary64 :=
  if digits = 0 then .finite negative 0 (-1074)
  else
    let magnitude := (digitCount digits : Int) + power
    if magnitude > 400 then .infinite negative
    else if magnitude < -400 then .finite negative 0 (-1074)
    else
      let (n, d) := scale 10 digits 1 power
      .ofFraction negative n d

/-- Whether a number is finite and has no fractional part. -/
def Binary64.isIntegral : Binary64 → Bool
  | .finite _ mantissa exponent =>
    let (n, d) := scale 2 mantissa 1 exponent
    n % d = 0
  | _ => false

/-- Whether a number equals the given natural number. -/
def Binary64.equalsNat (n : Nat) : Binary64 → Bool
  | .finite negative mantissa exponent =>
    let (a, b) := scale 2 mantissa 1 exponent
    a = n * b && (!negative || n = 0)
  | _ => false

end Parley.Decimal
