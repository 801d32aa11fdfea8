import Mathlib.Data.List.Induction
import Mathlib.Algebra.Order.Ring.Nat
import ShellFront.Number.Numeral
import ShellFront.Token.Piece

/-!
# How integers are spelled

A natural number has a spelling in every radix: the mark of the radix, and its digits. It is read back, unless it has
more decimal digits than a literal may have. No decimal literal stands for a number that long.

## Contents
- `Radix.mark`, `Numeral.spelling`.
- `Numeral.positional_toDigits`, `Numeral.value_toDigits`, `Numeral.value_toDigits_long`.
- `Numeral.length_le_of_value`.
-/

namespace ShellFront

/-- What stands before the digits. -/
def Radix.mark : Radix → String
  | decimal => ""
  | hexadecimal => "0x"
  | binary => "0b"
  | octal => "0o"

theorem Radix.length_mark (radix : Radix) : radix.mark.toList.length = radix.markLength := by
  cases radix <;> rfl

theorem Radix.base_bounds (radix : Radix) : 1 < radix.base ∧ radix.base ≤ 16 := by
  cases radix <;> decide

namespace Numeral

/-- A number with its mark and its digits. -/
def spelling (radix : Radix) (n : Nat) : String := radix.mark ++ String.ofList (Nat.toDigits radix.base n)

variable {base n : Nat} {radix : Radix} {digits : List Char}

theorem drop_spelling (radix : Radix) (n : Nat) :
    (spelling radix n).toList.drop radix.markLength = Nat.toDigits radix.base n := by
  rw [spelling, String.toList_append, String.toList_ofList, ← radix.length_mark, List.drop_left]

/-! ## Digits -/

theorem digitValue_digitChar (h : n < 16) : digitValue n.digitChar = n := by
  have hall : ∀ m < 16, digitValue m.digitChar = m := by decide
  exact hall n h

/-- The digits of a number stand for it. -/
theorem positional_toDigits (hbase : 1 < base) (hle : base ≤ 16) (n : Nat) :
    positional base (Nat.toDigits base n) = n := by
  induction n using Nat.strong_induction_on with
  | _ n ih =>
      by_cases hn : n < base
      · rw [Nat.toDigits_of_lt_base hn, positional, List.foldl_cons, List.foldl_nil, Nat.zero_mul, Nat.zero_add,
          digitValue_digitChar (by omega)]
      · have hlt : n / base < n := Nat.div_lt_self (by omega) hbase
        have hmod : n % base < base := Nat.mod_lt n (by omega)
        rw [Nat.toDigits_of_base_le hbase (by omega), positional_append, ih _ hlt, List.foldl_cons, List.foldl_nil,
          digitValue_digitChar (by omega), Nat.mul_comm, Nat.div_add_mod]

/-- The digits of a number are digits of its base. -/
theorem exists_digitChar_of_mem (hbase : 1 < base) {c : Char} (h : c ∈ Nat.toDigits base n) :
    ∃ m < base, c = m.digitChar := by
  induction n using Nat.strong_induction_on with
  | _ n ih =>
      by_cases hn : n < base
      · rw [Nat.toDigits_of_lt_base hn, List.mem_singleton] at h
        exact ⟨n, hn, h⟩
      · rw [Nat.toDigits_of_base_le hbase (by omega), List.mem_append, List.mem_singleton] at h
        rcases h with h | h
        · exact ih (n / base) (Nat.div_lt_self (by omega) hbase) h
        · exact ⟨n % base, Nat.mod_lt n (by omega), h⟩

/-- No digit is an underscore. -/
theorem underscore_notMem_toDigits (hbase : 1 < base) (hle : base ≤ 16) (n : Nat) : '_' ∉ Nat.toDigits base n := by
  have hdigit : ∀ m < 16, m.digitChar ≠ '_' := by decide
  intro h
  obtain ⟨m, hm, heq⟩ := exists_digitChar_of_mem hbase h
  exact hdigit m (by omega) heq.symm

theorem filter_toDigits (radix : Radix) (n : Nat) :
    (Nat.toDigits radix.base n).filter (· != '_') = Nat.toDigits radix.base n :=
  List.filter_eq_self.mpr fun _ hd => bne_iff_ne.mpr fun heq =>
    underscore_notMem_toDigits radix.base_bounds.1 radix.base_bounds.2 n (heq ▸ hd)

/-! ## Reading back -/

/-- **A number is read back from its digits**, if it is not too long. -/
theorem value_toDigits (h : radix = .decimal → (Nat.toDigits 10 n).length ≤ decimalLimit) :
    value? radix (Nat.toDigits radix.base n) = some n := by
  have hfits : ¬ (Nat.toDigits radix.base n = [] ∨
      radix = .decimal ∧ decimalLimit < (Nat.toDigits radix.base n).length) := by
    rintro (hempty | ⟨rfl, hlong⟩)
    · exact Nat.toDigits_ne_nil hempty
    · exact absurd (h rfl) (Nat.not_le.mpr hlong)
  rw [value?, filter_toDigits, if_neg hfits, positional_toDigits radix.base_bounds.1 radix.base_bounds.2]

/-- A decimal number that is too long is not read back. -/
theorem value_toDigits_long (h : decimalLimit < (Nat.toDigits 10 n).length) :
    value? .decimal (Nat.toDigits 10 n) = none := by
  rw [value?_eq_none_iff, show Nat.toDigits 10 n = Nat.toDigits Radix.decimal.base n from rfl, filter_toDigits]
  exact .inr ⟨rfl, h⟩

/-! ## How long a decimal number is -/

theorem positional_lt (h : ∀ d ∈ digits, isDigit d = true) : positional 10 digits < 10 ^ digits.length := by
  induction digits using List.reverseRecOn with
  | nil => decide
  | append_singleton digits d ih =>
      have hfirst := ih fun e he => h e (List.mem_append_left _ he)
      have hlast : digitValue d < 10 := by
        have hd : '0' ≤ d ∧ d ≤ '9' := by
          simpa [isDigit] using h d (List.mem_append_right _ (List.mem_singleton_self d))
        rw [digitValue, if_pos hd]
        have hle : d.toNat ≤ '9'.toNat := hd.2
        have hnine : '9'.toNat - '0'.toNat = 9 := by decide
        omega
      rw [positional_append, List.foldl_cons, List.foldl_nil, List.length_append, List.length_singleton, pow_succ]
      omega

/-- **A decimal literal stands for a number that is not too long.** -/
theorem length_le_of_value (hdigits : ∀ d ∈ digits, isDigit d = true) (h : value? .decimal digits = some n) :
    (Nat.toDigits 10 n).length ≤ decimalLimit := by
  unfold value? at h
  dsimp only at h
  split at h
  · contradiction
  · next hfits =>
      rw [not_or] at hfits
      have hlength : (digits.filter (· != '_')).length ≤ decimalLimit :=
        Nat.not_lt.mp fun hlt => hfits.2 ⟨rfl, hlt⟩
      have hn : positional 10 (digits.filter (· != '_')) = n := Option.some.inj h
      have hlt : positional 10 (digits.filter (· != '_')) < 10 ^ (digits.filter (· != '_')).length :=
        positional_lt fun d hd => hdigits d (List.mem_filter.mp hd).1
      rw [Nat.length_toDigits_le_iff (by decide) (by decide), ← hn]
      exact lt_of_lt_of_le hlt (Nat.pow_le_pow_right (by decide) hlength)

end Numeral

end ShellFront
