import Mathlib.Algebra.Order.Field.Power
import Mathlib.Tactic.FieldSimp
import Mathlib.Tactic.Linarith
import Mathlib.Tactic.Positivity
import Mathlib.Tactic.Ring
import ShellFront.Number.Binary64

/-!
# Which numbers float literals stand for

A float literal stands for a **double**: a number whose significand has 53 bits, unless its exponent is the least one,
or an infinity. The other way round every double without a sign is what some literal stands for. Quotients are compared
with significands as fractions; the exponent that is chosen for a quotient is the only one that fits.

## Contents
- `Binary64.IsDouble`.
- `roundDiv_le`, `le_roundDiv`: rounding does not cross a natural number.
- `Binary64.exponentOf_spec` and `Binary64.exponentOf_eq`: which exponent is chosen.
- `Binary64.ofLiteral_isDouble`.
- `Binary64.spelling` and `Binary64.ofLiteral_spelling`: a literal for each double.
-/

namespace ShellFront

/-! ## Rounding -/

theorem roundDiv_le {n d k : Nat} (h : n ≤ k * d) : roundDiv n d ≤ k := by
  unfold roundDiv
  dsimp only
  rcases Nat.eq_zero_or_pos d with rfl | hd
  · obtain rfl : n = 0 := by simpa using h
    simp
  · have hle : n / d ≤ k := Nat.div_le_of_le_mul (by rwa [Nat.mul_comm])
    have hsplit := Nat.div_add_mod n d
    rcases Nat.eq_or_lt_of_le hle with heq | hlt
    · -- nothing is left over, so that it is not rounded up
      have hzero : n % d = 0 := by
        rw [heq, Nat.mul_comm] at hsplit
        omega
      rw [hzero, if_pos (by omega)]
      exact hle
    · split
      · exact hle
      · split
        · exact hlt
        · split
          · exact hle
          · exact hlt

theorem le_roundDiv {n d k : Nat} (hd : 0 < d) (h : k * d ≤ n) : k ≤ roundDiv n d := by
  have hle : k ≤ n / d := (Nat.le_div_iff_mul_le hd).mpr h
  unfold roundDiv
  dsimp only
  split
  · exact hle
  · split
    · exact Nat.le_succ_of_le hle
    · split
      · exact hle
      · exact Nat.le_succ_of_le hle

namespace Binary64

/-- A **double**: an infinity, or a number with 53 bits or the least exponent. -/
def IsDouble : Binary64 → Prop
  | infinite _ => True
  | finite _ significand exponent =>
      significand < 2 ^ 53 ∧ (2 ^ 52 ≤ significand ∨ exponent = minExponent) ∧ minExponent ≤ exponent ∧
        exponent ≤ maxExponent

/-- Whether a number has a minus sign. -/
def isNegative : Binary64 → Bool
  | infinite negative => negative
  | finite negative _ _ => negative

theorem IsDouble.neg {x : Binary64} (h : x.IsDouble) : x.neg.IsDouble := by
  cases x <;> exact h

/-! ## Quotients as fractions -/

section

variable {n d k : Nat} {e g : Int}

theorem twoTo_pos (k : Nat) : 0 < twoTo k := Nat.pow_pos Nat.two_pos

/-- A power of two is a fraction of two whole ones. -/
theorem twoTo_toNat (e : Int) : (twoTo e.toNat : ℚ) = 2 ^ e * (twoTo (-e).toNat : ℚ) := by
  have hcast (k : Nat) : (twoTo k : ℚ) = 2 ^ (k : Int) := by
    rw [twoTo, Nat.pow_eq, Nat.cast_pow, Nat.cast_ofNat, zpow_natCast]
  rw [hcast, hcast, ← zpow_add₀ two_ne_zero]
  congr 1
  omega

/-- Scaled to whole numbers, a quotient is compared with multiples of a power of two. -/
theorem scaled_le_iff (hd : 0 < d) :
    n * twoTo (-e).toNat ≤ k * (d * twoTo e.toNat) ↔ (n / d : ℚ) ≤ k * 2 ^ e := by
  have hd : (0 : ℚ) < d := Nat.cast_pos.mpr hd
  have hpow : (0 : ℚ) < twoTo (-e).toNat := Nat.cast_pos.mpr (twoTo_pos _)
  have hassoc : (k * (d * (2 ^ e * twoTo (-e).toNat)) : ℚ) = k * 2 ^ e * d * twoTo (-e).toNat := by ring
  rw [← Nat.cast_le (α := ℚ), Nat.cast_mul, Nat.cast_mul, Nat.cast_mul, twoTo_toNat e, hassoc,
    mul_le_mul_iff_left₀ hpow, div_le_iff₀ hd]

theorem le_scaled_iff (hd : 0 < d) :
    k * (d * twoTo e.toNat) ≤ n * twoTo (-e).toNat ↔ k * 2 ^ e ≤ (n / d : ℚ) := by
  have hd : (0 : ℚ) < d := Nat.cast_pos.mpr hd
  have hpow : (0 : ℚ) < twoTo (-e).toNat := Nat.cast_pos.mpr (twoTo_pos _)
  have hassoc : (k * (d * (2 ^ e * twoTo (-e).toNat)) : ℚ) = k * 2 ^ e * d * twoTo (-e).toNat := by ring
  rw [← Nat.cast_le (α := ℚ), Nat.cast_mul, Nat.cast_mul, Nat.cast_mul, twoTo_toNat e, hassoc,
    mul_le_mul_iff_left₀ hpow, le_div_iff₀ hd]

/-- A quotient of `n` and `d` lies between powers of two by how many bits they have. -/
theorem quotient_bounds (hn : 0 < n) (hd : 0 < d) :
    (2 : ℚ) ^ ((Nat.log2 n : Int) - Nat.log2 d - 1) < n / d ∧ (n / d : ℚ) < 2 ^ ((Nat.log2 n : Int) - Nat.log2 d + 1) := by
  have hd' : (0 : ℚ) < d := Nat.cast_pos.mpr hd
  have hlow (m : Nat) (hm : 0 < m) : (2 : ℚ) ^ (Nat.log2 m : Int) ≤ m := by
    exact_mod_cast Nat.log2_self_le (Nat.pos_iff_ne_zero.mp hm)
  have hhigh (m : Nat) : (m : ℚ) < 2 ^ ((Nat.log2 m : Int) + 1) := by
    exact_mod_cast Nat.lt_log2_self (n := m)
  constructor
  · rw [lt_div_iff₀ hd']
    calc (2 : ℚ) ^ ((Nat.log2 n : Int) - Nat.log2 d - 1) * d
        < 2 ^ ((Nat.log2 n : Int) - Nat.log2 d - 1) * 2 ^ ((Nat.log2 d : Int) + 1) := by
          gcongr
          exact hhigh d
      _ = 2 ^ (Nat.log2 n : Int) := by
          rw [← zpow_add₀ two_ne_zero]
          congr 1
          omega
      _ ≤ n := hlow n hn
  · rw [div_lt_iff₀ hd']
    calc (n : ℚ) < 2 ^ ((Nat.log2 n : Int) + 1) := hhigh n
      _ = 2 ^ ((Nat.log2 n : Int) - Nat.log2 d + 1) * 2 ^ (Nat.log2 d : Int) := by
          rw [← zpow_add₀ two_ne_zero]
          congr 1
          omega
      _ ≤ 2 ^ ((Nat.log2 n : Int) - Nat.log2 d + 1) * d := by
          gcongr
          exact hlow d hd

/-! ## The exponent of a quotient -/

/-- The quotient `q` has 53 bits before the point when it is divided by `2 ^ e`, or fewer if that is the least
    exponent. -/
structure Fits (q : ℚ) (e : Int) : Prop where
  high : q < 2 ^ 53 * 2 ^ e
  low : 2 ^ 52 * 2 ^ e ≤ q ∨ e = minExponent
  least : minExponent ≤ e

theorem two_pow_lt {g h : Int} (hlt : g < h) (k : Nat) : (2 : ℚ) ^ (k + 1) * 2 ^ g ≤ 2 ^ k * 2 ^ h := by
  have hle : (2 : ℚ) ^ (g + 1) ≤ 2 ^ h := zpow_le_zpow_right₀ one_le_two hlt
  calc (2 : ℚ) ^ (k + 1) * 2 ^ g = 2 ^ k * 2 ^ (g + 1) := by
        rw [zpow_add₀ two_ne_zero, zpow_one]
        ring
    _ ≤ 2 ^ k * 2 ^ h := by gcongr

/-- **No two exponents fit.** -/
theorem Fits.unique {q : ℚ} (h : Fits q e) (h' : Fits q g) : e = g := by
  have hle {e g : Int} (h : Fits q e) (h' : Fits q g) : e ≤ g := by
    by_contra hlt
    rcases h.low with hlow | hleast
    · exact absurd (lt_of_lt_of_le h'.high (two_pow_lt (not_le.mp hlt) 52)) (not_lt.mpr hlow)
    · have := h'.least
      omega
  exact le_antisymm (hle h h') (hle h' h)

/-- **The exponent that is chosen fits.** -/
theorem exponentOf_fits (hn : 0 < n) (hd : 0 < d) : Fits (n / d) (exponentOf n d) := by
  obtain ⟨hlow, hhigh⟩ := quotient_bounds hn hd
  obtain ⟨guess, hguess⟩ : ∃ guess : Int, guess = (Nat.log2 n : Int) - Nat.log2 d - precision := ⟨_, rfl⟩
  have hbelow : (Nat.log2 n : Int) - Nat.log2 d - 1 = guess + (52 : Nat) := by
    rw [hguess, precision]
    omega
  have habove : (Nat.log2 n : Int) - Nat.log2 d + 1 = guess + 1 + (53 : Nat) := by
    rw [hguess, precision]
    omega
  have hscale (k : Nat) (g : Int) : (2 : ℚ) ^ k * 2 ^ g = 2 ^ (g + k) := by
    rw [← zpow_natCast, ← zpow_add₀ two_ne_zero, add_comm]
  -- the guess leaves 53 bits or one more, and that one more calls for the next exponent
  obtain ⟨g, hg, hbits⟩ : ∃ g, exponentOf n d = max minExponent g ∧
      (2 : ℚ) ^ 52 * 2 ^ g ≤ n / d ∧ (n / d : ℚ) < 2 ^ 53 * 2 ^ g := by
    have hwhole : twoTo precision ≤ n * twoTo (-guess).toNat / (d * twoTo guess.toNat) ↔
        (2 : ℚ) ^ 53 * 2 ^ guess ≤ n / d := by
      rw [Nat.le_div_iff_mul_le (Nat.mul_pos hd (twoTo_pos _)), le_scaled_iff hd]
      norm_num [twoTo, precision]
    have hdef : exponentOf n d = max minExponent
        (if twoTo precision ≤ n * twoTo (-guess).toNat / (d * twoTo guess.toNat) then guess + 1 else guess) := by
      rw [hguess]
      rfl
    rw [hdef]
    split
    · next hmore =>
        refine ⟨guess + 1, rfl, ?_, ?_⟩
        · rw [hscale, show guess + 1 + (52 : Nat) = guess + (53 : Nat) by omega, ← hscale]
          exact hwhole.mp hmore
        · rw [hscale, ← habove]
          exact hhigh
    · next hless =>
        refine ⟨guess, rfl, ?_, not_le.mp (hwhole.not.mp hless)⟩
        rw [hscale, ← hbelow]
        exact hlow.le
  rw [hg]
  refine ⟨lt_of_lt_of_le hbits.2 ?_, ?_, le_max_left _ _⟩
  · gcongr
    · exact one_le_two
    · exact le_max_right _ _
  · rcases le_total minExponent g with hle | hle
    · exact .inl (by rw [max_eq_right hle]; exact hbits.1)
    · exact .inr (max_eq_left hle)

/-! ## Rounded quotients -/

theorem significandAt_le (hd : 0 < d) (h : (n / d : ℚ) ≤ k * 2 ^ e) : significandAt n d e ≤ k :=
  roundDiv_le ((scaled_le_iff hd).mpr h)

theorem le_significandAt (hd : 0 < d) (h : k * 2 ^ e ≤ (n / d : ℚ)) : k ≤ significandAt n d e :=
  le_roundDiv (Nat.mul_pos hd (twoTo_pos _)) ((le_scaled_iff hd).mpr h)

/-- **A quotient is rounded to a double.** -/
theorem ofQuotient_isDouble (hn : 0 < n) (hd : 0 < d) : (ofQuotient n d).IsDouble := by
  have hfits := exponentOf_fits hn hd
  unfold ofQuotient
  dsimp only
  generalize exponentOf n d = e at hfits
  have hle : significandAt n d e ≤ 2 ^ 53 := significandAt_le hd (by exact_mod_cast hfits.high.le)
  have hge : 2 ^ 52 ≤ significandAt n d e ∨ e = minExponent :=
    hfits.low.imp_left fun hlow => le_significandAt hd (by exact_mod_cast hlow)
  have hleast := hfits.least
  by_cases hfull : significandAt n d e = twoTo precision
  · rw [if_pos hfull]
    dsimp only
    split
    · trivial
    · next hmax => exact ⟨by decide, .inl (by decide), by omega, by omega⟩
  · rw [if_neg hfull]
    dsimp only
    split
    · trivial
    · next hmax => exact ⟨lt_of_le_of_ne hle hfull, hge, hleast, by omega⟩

/-- **A quotient that is a double is that double.** -/
theorem ofQuotient_eq {m : Nat} (hd : 0 < d) (hdouble : (finite false m e).IsDouble) (h : (n / d : ℚ) = m * 2 ^ e)
    (hn : 0 < n) : ofQuotient n d = finite false m e := by
  obtain ⟨hhigh, hlow, hleast, hmost⟩ := hdouble
  have hpow : (0 : ℚ) < 2 ^ e := by positivity
  have hfits : Fits (n / d) e := by
    refine ⟨?_, hlow.imp_left fun hlow => ?_, hleast⟩
    · rw [h]
      gcongr
      exact_mod_cast hhigh
    · rw [h]
      gcongr
      exact_mod_cast hlow
  have hexponent : exponentOf n d = e := (exponentOf_fits hn hd).unique hfits
  have hsignificand : significandAt n d e = m :=
    Nat.le_antisymm (significandAt_le hd h.le) (le_significandAt hd h.ge)
  have hfull : m ≠ twoTo precision := Nat.ne_of_lt hhigh
  unfold ofQuotient
  dsimp only
  rw [hexponent, hsignificand, if_neg hfull, if_neg (not_lt.mpr hmost)]

end

/-! ## Literals -/

theorem tenTo_pos (k : Nat) : 0 < tenTo k := Nat.pow_pos (by decide)

theorem ofDecimal_isDouble (digits : Nat) (exponent : Int) : (ofDecimal digits exponent).IsDouble := by
  unfold ofDecimal
  dsimp only
  split
  · exact ⟨by decide, .inr rfl, Int.le_refl _, by decide⟩
  · next h =>
      have hdigits : digits ≠ 0 := fun hzero => h (.inl hzero)
      split
      · trivial
      · exact ofQuotient_isDouble (Nat.mul_pos (Nat.pos_of_ne_zero hdigits) (tenTo_pos _)) (tenTo_pos _)

/-- **Float literals stand for doubles.** -/
theorem ofLiteral_isDouble (text : List Char) : (ofLiteral text).IsDouble := ofDecimal_isDouble _ _

/-! ## A literal for each double -/

/-- A double without its sign as a decimal: its digits, and the power of ten by which they are divided. -/
def decimal (significand : Nat) (exponent : Int) : Nat × Nat :=
  (significand * 2 ^ exponent.toNat * 5 ^ (-exponent).toNat, (-exponent).toNat)

/-- A literal that stands for a double, but for its sign. -/
def spelling : Binary64 → String
  | infinite _ => "1e400"
  | finite _ significand exponent =>
      let (digits, power) := decimal significand exponent
      String.ofList (Nat.toDigits 10 digits ++ 'e' :: '-' :: Nat.toDigits 10 power)

section

variable {m : Nat} {e : Int}

theorem decimal_value (m : Nat) (e : Int) :
    ((decimal m e).1 : ℚ) / (tenTo (decimal m e).2 : Nat) = m * 2 ^ e := by
  have hten (k : Nat) : (tenTo k : ℚ) = 2 ^ k * 5 ^ k := by
    rw [tenTo, Nat.pow_eq, Nat.cast_pow, ← mul_pow]
    norm_num
  have hsplit : (2 : ℚ) ^ e = 2 ^ e.toNat / 2 ^ (-e).toNat := by
    rw [← zpow_natCast, ← zpow_natCast, ← zpow_sub₀ two_ne_zero]
    congr 1
    omega
  simp only [decimal]
  rw [hten, hsplit]
  push_cast
  field_simp

/-- The smallest double has fewer than 331 zeros after the point. -/
theorem IsDouble.tenth_le (hm : 0 < m) (hdouble : (finite false m e).IsDouble) : (10 : ℚ) ^ (-331 : Int) ≤ m * 2 ^ e := by
  obtain ⟨-, -, hleast, -⟩ := hdouble
  have hle : 2 ^ 1074 ≤ 10 ^ 331 := by decide +kernel
  calc (10 : ℚ) ^ (-331 : Int) ≤ 2 ^ (-1074 : Int) := by
        rw [zpow_neg, zpow_neg]
        exact inv_anti₀ (by positivity) (by exact_mod_cast hle)
    _ ≤ 2 ^ e := zpow_le_zpow_right₀ one_le_two hleast
    _ ≤ m * 2 ^ e := le_mul_of_one_le_left (by positivity) (by exact_mod_cast hm)

/-- The greatest double has at most 310 digits before the point. -/
theorem IsDouble.lt_ten (hdouble : (finite false m e).IsDouble) : (m * 2 ^ e : ℚ) < 10 ^ 310 := by
  obtain ⟨hhigh, -, -, hmost⟩ := hdouble
  have hle : 2 ^ 53 * 2 ^ 971 ≤ 10 ^ 310 := by decide +kernel
  calc (m * 2 ^ e : ℚ) < 2 ^ 53 * 2 ^ e := by
        gcongr
        exact_mod_cast hhigh
    _ ≤ 2 ^ 53 * 2 ^ (971 : Int) := by
        gcongr
        · exact one_le_two
        · exact hmost
    _ ≤ 10 ^ 310 := by exact_mod_cast hle

/-- How many digits the decimal of a double has before the point. -/
theorem decimal_leading (hm : 0 < m) (hdouble : (finite false m e).IsDouble) :
    -330 ≤ ((Nat.toDigits 10 (decimal m e).1).length : Int) - (decimal m e).2 ∧
      ((Nat.toDigits 10 (decimal m e).1).length : Int) - (decimal m e).2 ≤ 310 := by
  have hleast := hdouble.tenth_le hm
  have hmost := hdouble.lt_ten
  rw [← decimal_value m e] at hleast hmost
  generalize (decimal m e).1 = digits, (decimal m e).2 = power at hleast hmost
  have hpow : (0 : ℚ) < (tenTo power : Nat) := Nat.cast_pos.mpr (tenTo_pos power)
  have hcast : ((tenTo power : Nat) : ℚ) = 10 ^ power := by rw [tenTo, Nat.pow_eq, Nat.cast_pow, Nat.cast_ofNat]
  constructor
  · -- with fewer digits it is less than any double
    by_contra hless
    have hdigits : digits < 10 ^ (Nat.toDigits 10 digits).length :=
      (Nat.length_toDigits_le_iff (by decide) Nat.length_toDigits_pos).mp (Nat.le_refl _)
    generalize (Nat.toDigits 10 digits).length = length at hless hdigits
    refine absurd hleast (not_le.mpr ?_)
    rw [div_lt_iff₀ hpow, hcast]
    calc (digits : ℚ) < 10 ^ length := by exact_mod_cast hdigits
      _ = 10 ^ (length : Int) := (zpow_natCast _ _).symm
      _ ≤ 10 ^ (-331 + (power : Int)) := zpow_le_zpow_right₀ (by norm_num) (by omega)
      _ = 10 ^ (-331 : Int) * 10 ^ power := by rw [zpow_add₀ (by norm_num), zpow_natCast]
  · -- with more digits it is greater than any double
    by_contra hmore
    have hdigits : ¬ digits < 10 ^ (power + 310) := fun hlt => by
      have := (Nat.length_toDigits_le_iff (b := 10) (by decide) (by omega)).mpr hlt
      omega
    refine absurd hmost (not_lt.mpr ?_)
    rw [le_div_iff₀ hpow, hcast, ← pow_add, add_comm]
    exact_mod_cast not_lt.mp hdigits

theorem ofDecimal_decimal (hdouble : (finite false m e).IsDouble) :
    ofDecimal (decimal m e).1 (-(decimal m e).2) = finite false m e := by
  have hdigits : 0 < m → 0 < (decimal m e).1 := fun hm => by
    simp only [decimal]
    positivity
  rcases Nat.eq_zero_or_pos m with rfl | hm
  · have hzero : (decimal 0 e).1 = 0 := by simp [decimal]
    obtain ⟨-, hlow | rfl, -⟩ := hdouble
    · contradiction
    · rw [ofDecimal, hzero]
      rfl
  · obtain ⟨hlow, hhigh⟩ := decimal_leading hm hdouble
    have hvalue := decimal_value m e
    have hdigits := hdigits hm
    rw [ofDecimal, if_neg (by omega), if_neg (by omega)]
    have hscale : (-(decimal m e).2 : Int).toNat = 0 := by omega
    rw [hscale, neg_neg, Int.toNat_natCast]
    refine ofQuotient_eq (tenTo_pos _) hdouble ?_ (Nat.mul_pos hdigits (tenTo_pos _))
    rw [← hvalue]
    simp [tenTo]

end

/-! ### Reading it back -/

theorem decimalValue_toDigits (n : Nat) : decimalValue (Nat.toDigits 10 n) = n := by
  calc decimalValue (Nat.toDigits 10 n) = Nat.ofDigitChars 10 (Nat.toDigits 10 n) 0 := by
        rw [Nat.ofDigitChars_eq_foldl, decimalValue]
        exact List.foldl_ext _ _ _ fun n c _ => by rw [Nat.mul_comm]
    _ = n := Nat.ofDigitChars_ten_toDigits

/-- The value of a literal that has an exponent with a minus sign and no fraction. -/
theorem ofLiteral_power {whole power : List Char} (hwhole : ∀ c ∈ whole, c.isDigit = true) :
    ofLiteral (whole ++ 'e' :: '-' :: power) = ofDecimal (decimalValue whole) (-(decimalValue power : Int)) := by
  have htake : (whole ++ 'e' :: '-' :: power).takeWhile Char.isDigit = whole := by
    rw [List.takeWhile_append_of_pos hwhole, List.takeWhile_cons_of_neg (by decide), List.append_nil]
  rw [ofLiteral, htake, List.drop_left]
  simp [signedValue, List.dropWhile]

/-- **Every double is what its spelling stands for**, but for its sign. -/
theorem ofLiteral_spelling {x : Binary64} (h : x.IsDouble) :
    ofLiteral x.spelling.toList = if x.isNegative then x.neg else x := by
  cases x with
  | infinite negative => cases negative <;> decide +kernel
  | finite negative m e =>
      have hdigits : ∀ c ∈ Nat.toDigits 10 (decimal m e).1, c.isDigit = true := fun c hc =>
        Nat.isDigit_of_mem_toDigits (by decide) (by decide) hc
      rw [spelling, String.toList_ofList, ofLiteral_power hdigits, decimalValue_toDigits, decimalValue_toDigits,
        ofDecimal_decimal h]
      cases negative <;> rfl

end Binary64

end ShellFront
