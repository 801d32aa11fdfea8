import ShellFront.Number.Binary64

/-!
# The shortest decimal of a number

A number of double precision is written with the fewest decimal digits that read back to it, and
among those with the nearest to it. Numbers whose leading digit stands between the fourth place after
the point and the sixteenth before it are written positionally, always with a fraction; the others
with an exponent of at least two digits.

## Contents
- `Decimal`, `Binary64.readsBack`, `Binary64.shortest`.
- `Decimal.render`, `Binary64.render`.
-/

namespace ShellFront

/-- The decimal `digits * 10 ^ exponent`. -/
structure Decimal where
  digits : Nat
  exponent : Int
deriving DecidableEq

namespace Binary64

/-! ## Choosing the digits -/

/-- A positive number `significand * 2 ^ exponent`, scaled so that quarters of its last place are
    whole: the number is `4 * significand` quarters, and a quarter is `unit / scale`. -/
structure Quarters where
  significand : Nat
  exponent : Int

namespace Quarters

/-- The numerator of a quarter of the last place. -/
def unit (x : Quarters) : Nat := twoTo (x.exponent - 2).toNat

/-- The denominator of a quarter of the last place. -/
def scale (x : Quarters) : Nat := twoTo (2 - x.exponent).toNat

/-- The quarters between the number and the middle to its lower neighbour: the neighbour is only half
    as far away below a power of two. -/
def below (x : Quarters) : Nat :=
  if x.significand = twoTo (precision - 1) ∧ minExponent < x.exponent then 1 else 2

/-- Whether the decimal `c * 10 ^ e` lies where numbers round to `x`. The ends count if the
    significand is even. -/
def readsBack (x : Quarters) (c : Nat) (e : Int) : Bool :=
  let value := c * tenTo e.toNat * x.scale
  let grid := tenTo (-e).toNat * x.unit
  let low := (4 * x.significand - x.below) * grid
  let high := (4 * x.significand + 2) * grid
  if x.significand % 2 = 0 then low ≤ value && value ≤ high else low < value && value < high

/-- The number divided by `10 ^ e`, as numerator and denominator. -/
def quotient (x : Quarters) (e : Int) : Nat × Nat :=
  (4 * x.significand * x.unit * tenTo (-e).toNat, x.scale * tenTo e.toNat)

/-- How many decimal digits stand before the point; not positive if the number begins after it. -/
def leading (x : Quarters) : Int :=
  let (n, d) := x.quotient 0
  if d ≤ n then ((Nat.toDigits 10 (n / d)).length : Int)
  else 1 - ((Nat.toDigits 10 (d / n)).length : Int)

/-- The decimal with `count` digits that is nearest to the number, if it reads back. -/
def candidate? (x : Quarters) (count : Nat) : Option Decimal :=
  let e := x.leading - count
  let (n, d) := x.quotient e
  let c := n / d
  match x.readsBack c e, x.readsBack (c + 1) e with
  | true, true => some ⟨roundDiv n d, e⟩
  | true, false => some ⟨c, e⟩
  | false, true => some ⟨c + 1, e⟩
  | false, false => none

/-- The fewest digits that read back. Seventeen always do. -/
def shortest (x : Quarters) : Decimal :=
  ((List.range 17).findSome? (fun n => x.candidate? (n + 1))).getD ⟨0, 0⟩

end Quarters

/-- The shortest decimal of a positive number. -/
def shortest (significand : Nat) (exponent : Int) : Decimal :=
  Quarters.shortest ⟨significand, exponent⟩

end Binary64

/-! ## Layout -/

/-- Digits without the zeros at their end. -/
def trimZeros (digits : List Char) : List Char := (digits.reverse.dropWhile (· == '0')).reverse

/-- An exponent with its sign and at least two digits. -/
def renderExponent (e : Int) : List Char :=
  let digits := Nat.toDigits 10 e.natAbs
  (if e < 0 then '-' else '+') :: List.replicate (2 - digits.length) '0' ++ digits

/-- A positive decimal as text. -/
def Decimal.render (x : Decimal) : List Char :=
  let all := Nat.toDigits 10 x.digits
  let digits := trimZeros all
  let point : Int := all.length + x.exponent
  if -4 < point ∧ point ≤ 16 then
    if point ≤ 0 then '0' :: '.' :: List.replicate (-point).toNat '0' ++ digits
    else
      let whole := digits.take point.toNat
      let fraction := digits.drop point.toNat
      whole ++ List.replicate (point.toNat - whole.length) '0' ++
        '.' :: (if fraction.isEmpty then ['0'] else fraction)
  else
    let mantissa := match digits with
      | [] => ['0']
      | [d] => [d]
      | d :: ds => d :: '.' :: ds
    mantissa ++ 'e' :: renderExponent (point - 1)

/-- A number of double precision as text. -/
def Binary64.render : Binary64 → String
  | .finite negative significand exponent =>
      let body := if significand = 0 then ['0', '.', '0'] else (shortest significand exponent).render
      String.ofList (if negative then '-' :: body else body)
  | .infinite negative => if negative then "-inf" else "inf"

end ShellFront
