/-!
# Numbers of double precision

A `Binary64` is a number with a significand of at most 53 bits and a bounded exponent, or an
infinity. A decimal is read as the nearest such number; a decimal half-way between two of them goes
to the one with the even significand.

## Contents
- `twoTo`, `tenTo`, powers of the two bases.
- `roundDiv`, a quotient rounded to nearest with ties to even.
- `Binary64`, `Binary64.neg`.
- `Binary64.ofDecimal`, the nearest number to `digits * 10 ^ exponent`.
- `Binary64.ofLiteral`, the value of a float literal.
-/

namespace ShellFront

/-- A power of two. -/
def twoTo (n : Nat) : Nat := Nat.pow 2 n

/-- A power of ten. -/
def tenTo (n : Nat) : Nat := Nat.pow 10 n

/-- A quotient rounded to the nearest natural number, a half to the even one. -/
def roundDiv (n d : Nat) : Nat :=
  let q := n / d
  let r := n % d
  if 2 * r < d then q
  else if d < 2 * r then q + 1
  else if q % 2 = 0 then q else q + 1

/-- A number of double precision: `significand * 2 ^ exponent` with a sign, or an infinity. -/
inductive Binary64 where
  | finite (negative : Bool) (significand : Nat) (exponent : Int)
  | infinite (negative : Bool)
deriving DecidableEq

namespace Binary64

/-- The bits of a significand. -/
def precision : Nat := 53

/-- The least exponent; numbers that small have fewer bits. -/
def minExponent : Int := -1074

/-- The greatest exponent. -/
def maxExponent : Int := 971

/-- The number with the other sign. -/
def neg : Binary64 → Binary64
  | finite negative significand exponent => finite (!negative) significand exponent
  | infinite negative => infinite (!negative)

/-- Rounds the positive quotient `n / d` at the exponent `e`: what is left of it after dividing by
    `2 ^ e`. -/
def significandAt (n d : Nat) (e : Int) : Nat :=
  roundDiv (n * twoTo (-e).toNat) (d * twoTo e.toNat)

/-- The exponent at which a positive quotient has `precision` bits before the point, or the least
    one. -/
def exponentOf (n d : Nat) : Int :=
  let guess : Int := (Nat.log2 n : Int) - (Nat.log2 d : Int) - precision
  let whole := (n * twoTo (-guess).toNat) / (d * twoTo guess.toNat)
  max minExponent (if twoTo precision ≤ whole then guess + 1 else guess)

/-- The nearest number to the positive quotient `n / d`. -/
def ofQuotient (n d : Nat) : Binary64 :=
  let e := exponentOf n d
  let s := significandAt n d e
  let (s, e) := if s = twoTo precision then (twoTo (precision - 1), e + 1) else (s, e)
  if maxExponent < e then .infinite false else .finite false s e

/-- The nearest number to `digits * 10 ^ exponent`. -/
def ofDecimal (digits : Nat) (exponent : Int) : Binary64 :=
  let leading := ((Nat.toDigits 10 digits).length : Int) + exponent
  if digits = 0 ∨ leading < -330 then .finite false 0 minExponent
  else if 310 < leading then .infinite false
  else ofQuotient (digits * tenTo exponent.toNat) (tenTo (-exponent).toNat)

/-- The number that a run of decimal digits stands for. -/
def decimalValue (digits : List Char) : Nat :=
  digits.foldl (fun n c => n * 10 + (c.toNat - '0'.toNat)) 0

/-- The value of an exponent with its sign. -/
def signedValue : List Char → Int
  | '-' :: ds => -(decimalValue ds : Int)
  | '+' :: ds => decimalValue ds
  | ds => decimalValue ds

/-- The value of a float literal: digits, perhaps a fraction, perhaps an exponent. -/
def ofLiteral (text : List Char) : Binary64 :=
  let whole := text.takeWhile Char.isDigit
  let rest := text.drop whole.length
  let fraction := match rest with
    | '.' :: ds => ds.takeWhile Char.isDigit
    | _ => []
  let power := match rest.dropWhile (fun c => c == '.' || c.isDigit) with
    | _ :: ds => signedValue ds
    | [] => 0
  ofDecimal (decimalValue (whole ++ fraction)) (power - fraction.length)

end Binary64

end ShellFront
