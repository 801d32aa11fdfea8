import ShellFront.Token

/-!
# Integer literals

The value of an integer literal, from its digits and its radix. Underscores only group digits and
count for nothing.

## Contents
- `Numeral.digitValue`, `Numeral.positional`.
- `Numeral.decimalLimit` and `Numeral.value?`, with `value?_eq_none_iff`.
-/

namespace ShellFront.Numeral

/-- The value of one digit, in any radix up to sixteen. -/
def digitValue (c : Char) : Nat :=
  if '0' ≤ c ∧ c ≤ '9' then c.toNat - '0'.toNat
  else if 'a' ≤ c ∧ c ≤ 'f' then c.toNat - 'a'.toNat + 10
  else if 'A' ≤ c ∧ c ≤ 'F' then c.toNat - 'A'.toNat + 10
  else 0

/-- The number that digits stand for, the first one being the most significant. -/
def positional (base : Nat) (digits : List Char) : Nat :=
  digits.foldl (fun n c => n * base + digitValue c) 0

/-- The greatest number of digits that a decimal literal may have. -/
def decimalLimit : Nat := 4300

/-- The value of a literal, given the digits after its radix mark. There is none without any digit,
    or with more decimal digits than the limit. -/
def value? (radix : Radix) (digits : List Char) : Option Nat :=
  let digits := digits.filter (· != '_')
  if digits = [] ∨ (radix = .decimal ∧ decimalLimit < digits.length) then none
  else some (positional radix.base digits)

theorem positional_append (base : Nat) (s t : List Char) :
    positional base (s ++ t) =
      t.foldl (fun n c => n * base + digitValue c) (positional base s) := List.foldl_append

/-- When a literal has no value. -/
theorem value?_eq_none_iff {radix : Radix} {digits : List Char} :
    value? radix digits = none ↔
      digits.filter (· != '_') = [] ∨
        (radix = .decimal ∧ decimalLimit < (digits.filter (· != '_')).length) := by
  unfold value?
  dsimp only
  split <;> simp_all

end ShellFront.Numeral
