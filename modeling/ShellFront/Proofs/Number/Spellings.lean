import ShellFront.Proofs.Number.Numerals

/-!
# All the spellings of integers

A number can be spelled in many ways: zeros may stand before its digits, its letters may be capitals, and underscores
may group its digits, unless they are decimal. All these texts, and no others made of the characters of a radix, have
the number as their value.

## Contents
- `Radix.allows`: the characters that are used after the mark of a radix.
- `Numeral.Spells`, with `Numeral.spells_toDigits`, `Numeral.Spells.allowed` and `Numeral.Spells.value`.
- `Numeral.spells_of_value`: there are no others.
- `Numeral.value_eq_none_iff`: what has no value.
-/

namespace ShellFront

/-- The characters that can stand after the mark of a radix. -/
def Radix.allows : Radix → Char → Bool
  | decimal => isDigit
  | hexadecimal => fun c => isDigit c || ('a' ≤ c && c ≤ 'f') || ('A' ≤ c && c ≤ 'F') || c == '_'
  | binary => fun c => c == '0' || c == '1' || c == '_'
  | octal => fun c => ('0' ≤ c && c ≤ '7') || c == '_'

namespace Numeral

variable {base n : Nat} {radix : Radix} {text digits : List Char} {c : Char}

/-! ## Characters -/

/-- What holds of the first 128 characters holds of each of them. -/
theorem forall_ascii {P : Char → Prop} (hall : ∀ k < 128, P (Char.ofNat k)) (hc : c.toNat < 128) : P c := by
  have h := hall c.toNat hc
  rwa [Char.ofNat_toNat] at h

/-- Other characters are no capitals. -/
theorem toLower_of_ge (hc : ¬ c.toNat < 128) : c.toLower = c := by
  have hcapital : ¬ (c.val ≥ 'A'.val ∧ c.val ≤ 'Z'.val) := fun h => hc (Nat.lt_of_le_of_lt h.2 (by decide))
  exact dif_neg hcapital

theorem digitValue_toLower (c : Char) : digitValue c.toLower = digitValue c := by
  by_cases hc : c.toNat < 128
  · exact forall_ascii (P := fun c => digitValue c.toLower = digitValue c) (by decide +kernel) hc
  · rw [toLower_of_ge hc]

theorem lt_of_digitChar {m : Nat} (hm : m < 16) (h : c = m.digitChar) : c.toNat < 128 := by
  have hall : ∀ m < 16, m.digitChar.toNat < 128 := by decide
  exact h ▸ hall m hm

theorem lt_of_allows (h : radix.allows c = true) : c.toNat < 128 := by
  have hle {d : Char} (h : c ≤ d) (hd : d.toNat < 128) : c.toNat < 128 := Nat.lt_of_le_of_lt h hd
  cases radix <;>
    simp only [Radix.allows, isDigit, Bool.or_eq_true, Bool.and_eq_true, decide_eq_true_eq, beq_iff_eq] at h
  case decimal => exact hle h.2 (by decide)
  case hexadecimal =>
    obtain ((h | h) | h) | rfl := h
    · exact hle h.2 (by decide)
    · exact hle h.2 (by decide)
    · exact hle h.2 (by decide)
    · decide
  case binary => obtain (rfl | rfl) | rfl := h <;> decide
  case octal =>
    obtain h | rfl := h
    · exact hle h.2 (by decide)
    · decide

/-- The characters that are used are the underscore, unless the radix is ten, and the digits. -/
theorem allows_iff : radix.allows c = true ↔
    c = '_' ∧ radix ≠ .decimal ∨ digitValue c < radix.base ∧ c.toLower = (digitValue c).digitChar := by
  by_cases hc : c.toNat < 128
  · refine forall_ascii (P := fun c => radix.allows c = true ↔
      c = '_' ∧ radix ≠ .decimal ∨ digitValue c < radix.base ∧ c.toLower = (digitValue c).digitChar) ?_ hc
    cases radix <;> decide +kernel
  · refine iff_of_false (fun h => hc (lt_of_allows h)) ?_
    rintro (⟨rfl, -⟩ | ⟨hdigit, hlower⟩)
    · exact hc (by decide)
    · rw [toLower_of_ge hc] at hlower
      exact hc (lt_of_digitChar (Nat.lt_of_lt_of_le hdigit radix.base_bounds.2) hlower)

/-! ## Spellings -/

/-- A text **spells** a number in a radix, after the mark of the radix: without its underscores and in lower case it has
    the digits of the number, and perhaps zeros before them. In a decimal number there are no underscores. -/
def Spells (radix : Radix) (n : Nat) (text : List Char) : Prop :=
  (∃ zeros, (text.filter (· != '_')).map Char.toLower = List.replicate zeros '0' ++ Nat.toDigits radix.base n) ∧
    (radix = .decimal → '_' ∉ text)

/-- The digits of a number spell it. -/
theorem spells_toDigits (radix : Radix) (n : Nat) : Spells radix n (Nat.toDigits radix.base n) := by
  have hlower : ∀ m < 16, m.digitChar.toLower = m.digitChar := by decide +kernel
  refine ⟨⟨0, ?_⟩, fun _ => underscore_notMem_toDigits radix.base_bounds.1 radix.base_bounds.2 n⟩
  rw [filter_toDigits, List.replicate_zero, List.nil_append]
  refine (List.map_congr_left fun c hc => ?_).trans (List.map_id _)
  obtain ⟨m, hm, rfl⟩ := exists_digitChar_of_mem radix.base_bounds.1 hc
  exact hlower m (Nat.lt_of_lt_of_le hm radix.base_bounds.2)

theorem positional_lower (digits : List Char) : positional base (digits.map Char.toLower) = positional base digits := by
  rw [positional, positional, List.foldl_map]
  simp only [digitValue_toLower]

theorem positional_zeros (zeros : Nat) :
    positional base (List.replicate zeros '0' ++ digits) = positional base digits := by
  induction zeros with
  | zero => rfl
  | succ zeros ih =>
      rw [List.replicate_succ, List.cons_append, positional, List.foldl_cons]
      rw [show 0 * base + digitValue '0' = 0 by rw [Nat.zero_mul]; rfl]
      exact ih

/-- A text that spells something is not empty. -/
theorem Spells.digits_ne_nil (h : Spells radix n text) : text.filter (· != '_') ≠ [] := by
  obtain ⟨⟨zeros, heq⟩, -⟩ := h
  intro hnil
  rw [hnil, List.map_nil, eq_comm, List.append_eq_nil_iff] at heq
  exact Nat.toDigits_ne_nil heq.2

theorem Spells.ne_nil (h : Spells radix n text) : text ≠ [] := by
  rintro rfl
  exact h.digits_ne_nil rfl

/-- **Every spelling of a number stands for it**, unless it is too long. -/
theorem Spells.value (h : Spells radix n text) (hlength : radix = .decimal → text.length ≤ decimalLimit) :
    value? radix text = some n := by
  have hfits : ¬ (text.filter (· != '_') = [] ∨
      radix = .decimal ∧ decimalLimit < (text.filter (· != '_')).length) := by
    rintro (hnil | ⟨hdecimal, hlong⟩)
    · exact h.digits_ne_nil hnil
    · have := List.length_filter_le (· != '_') text
      have := hlength hdecimal
      omega
  obtain ⟨⟨zeros, hdigits⟩, -⟩ := h
  rw [value?, if_neg hfits, ← positional_lower, hdigits, positional_zeros,
    positional_toDigits radix.base_bounds.1 radix.base_bounds.2]

/-- The digits of a number are characters for its radix, whether they are capitals or not. -/
theorem allows_of_mem_toDigits (h : c.toLower ∈ Nat.toDigits radix.base n) : radix.allows c = true := by
  obtain ⟨m, hm, hc⟩ := exists_digitChar_of_mem radix.base_bounds.1 h
  have hvalue : digitValue c = m := by
    rw [← digitValue_toLower, hc, digitValue_digitChar (Nat.lt_of_lt_of_le hm radix.base_bounds.2)]
  rw [allows_iff, hvalue]
  exact .inr ⟨hm, hc⟩

/-- The characters of a spelling are used. -/
theorem Spells.allowed (h : Spells radix n text) : ∀ c ∈ text, radix.allows c = true := by
  obtain ⟨⟨zeros, heq⟩, hdecimal⟩ := h
  intro c hc
  by_cases hgroups : c = '_'
  · exact allows_iff.mpr (.inl ⟨hgroups, fun hradix => hdecimal hradix (hgroups ▸ hc)⟩)
  · have hmem : c.toLower ∈ List.replicate zeros '0' ++ Nat.toDigits radix.base n :=
      heq ▸ List.mem_map_of_mem (List.mem_filter.mpr ⟨hc, bne_iff_ne.mpr hgroups⟩)
    rcases List.mem_append.mp hmem with hzero | hdigit
    · -- a zero before the digits is the digit of zero
      have hzero : c.toLower ∈ Nat.toDigits radix.base 0 := by
        rw [Nat.toDigits_zero, List.eq_of_mem_replicate hzero]
        exact List.mem_singleton_self _
      exact allows_of_mem_toDigits hzero
    · exact allows_of_mem_toDigits hdigit

/-- Digits are those of the number that they stand for, after some zeros. -/
theorem exists_zeros (hbase : 1 < base)
    (hdigits : ∀ d ∈ digits, digitValue d < base ∧ d.toLower = (digitValue d).digitChar) (hne : digits ≠ []) :
    ∃ zeros, digits.map Char.toLower = List.replicate zeros '0' ++ Nat.toDigits base (positional base digits) := by
  induction digits using List.reverseRecOn with
  | nil => contradiction
  | append_singleton digits d ih =>
      obtain ⟨hvalue, hlower⟩ := hdigits d (List.mem_append_right _ (List.mem_singleton_self d))
      have hlast : [d].map Char.toLower = Nat.toDigits base (digitValue d) := by
        rw [Nat.toDigits_of_lt_base hvalue, List.map_singleton, hlower]
      rw [List.map_append, hlast, positional_append, List.foldl_cons, List.foldl_nil]
      by_cases hfirst : digits = []
      · subst hfirst
        exact ⟨0, by rw [positional, List.foldl_nil, Nat.zero_mul, Nat.zero_add]; rfl⟩
      obtain ⟨zeros, hmore⟩ := ih (fun e he => hdigits e (List.mem_append_left _ he)) hfirst
      rw [hmore]
      by_cases hzero : positional base digits = 0
      · -- the digits so far are all zeros
        refine ⟨zeros + 1, ?_⟩
        rw [hzero, Nat.zero_mul, Nat.zero_add, Nat.toDigits_zero, List.replicate_succ']
      · refine ⟨zeros, ?_⟩
        rw [List.append_assoc, Nat.toDigits_append_toDigits hbase (Nat.pos_of_ne_zero hzero) hvalue, Nat.mul_comm]

/-- **A text has a value only if it spells it.** -/
theorem spells_of_value (hallowed : ∀ c ∈ text, radix.allows c = true) (h : value? radix text = some n) :
    Spells radix n text := by
  unfold value? at h
  dsimp only at h
  split at h
  · contradiction
  next hfits =>
    rw [not_or] at hfits
    obtain rfl := Option.some.inj h
    refine ⟨exists_zeros radix.base_bounds.1 (fun d hd => ?_) hfits.1, ?_⟩
    · obtain ⟨hmem, hgroups⟩ := List.mem_filter.mp hd
      exact (allows_iff.mp (hallowed d hmem)).resolve_left fun hd => bne_iff_ne.mp hgroups hd.1
    · rintro rfl hmem
      exact absurd (hallowed _ hmem) (by decide)

/-- **When characters of a radix stand for nothing**: they are all underscores, or too many decimal digits. -/
theorem value_eq_none_iff (hallowed : ∀ c ∈ text, radix.allows c = true) (hne : text ≠ []) :
    value? radix text = none ↔
      radix ≠ .decimal ∧ (∀ c ∈ text, c = '_') ∨ radix = .decimal ∧ decimalLimit < text.length := by
  rw [value?_eq_none_iff]
  by_cases hradix : radix = .decimal
  · subst hradix
    have hdigits : text.filter (· != '_') = text := List.filter_eq_self.mpr fun c hc => by
      rw [bne_iff_ne]
      rintro rfl
      exact absurd (hallowed _ hc) (by decide)
    rw [hdigits]
    simp [hne]
  · simp [hradix, List.filter_eq_nil_iff]

end Numeral

end ShellFront
