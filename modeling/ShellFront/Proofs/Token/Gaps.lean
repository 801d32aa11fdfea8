import ShellFront.Proofs.Token.Joining

/-!
# Texts that are cut

A text is **cut** when what follows a part of it is taken away and a blank, or nothing, is put there instead. Looks
along the text find the same as before if they stay within that part; and a look that goes beyond it finds nothing in
a blank.

## Contents
- `Gap`, `Unspaced` and looks along a text that is cut.
-/

namespace ShellFront

/-- A text is a **gap** to what stands before it: it is empty or begins with a blank. -/
def Gap (more : List Char) : Prop := ∀ c ∈ more.head?, isBlank c = true

/-- A class of characters without blanks. -/
def Unspaced (p : Char → Bool) : Prop := ∀ c ∈ [' ', '\t', '\r'], p c = false

instance (p : Char → Bool) : Decidable (Unspaced p) := inferInstanceAs (Decidable (∀ c ∈ [' ', '\t', '\r'], p c = false))

theorem isBlank_iff {c : Char} : isBlank c = true ↔ c ∈ [' ', '\t', '\r'] := by
  simp [isBlank, or_assoc]

theorem Unspaced.blank {p : Char → Bool} (hp : Unspaced p) {c : Char} (hc : isBlank c = true) : p c = false :=
  hp c (isBlank_iff.mp hc)

variable {p q : Char → Bool} {cs more : List Char} {m n : Nat}

theorem startsWith_gap (hp : Unspaced p) (hmore : Gap more) : startsWith p more = false := by
  cases more with
  | nil => rfl
  | cons c more => exact hp.blank (hmore c rfl)

/-- A run that lies in what is left of a text is the same. -/
theorem takeWhile_cut (hp : Unspaced p) (hmore : Gap more) (h : runLength p cs ≤ m) :
    (cs.take m ++ more).takeWhile p = cs.takeWhile p := by
  induction cs generalizing m with
  | nil =>
      cases more with
      | nil => rw [List.take_nil, List.append_nil]
      | cons c more =>
          have hc : p c = false := hp.blank (hmore c rfl)
          simp [hc]
  | cons c cs ih =>
      rw [runLength, List.takeWhile_cons] at h
      by_cases hc : p c = true
      · rw [if_pos hc, List.length_cons] at h
        obtain ⟨m, rfl⟩ : ∃ k, m = k + 1 := ⟨m - 1, by omega⟩
        rw [List.take_succ_cons, List.cons_append, List.takeWhile_cons, List.takeWhile_cons, if_pos hc, if_pos hc,
          ih (Nat.le_of_succ_le_succ h)]
      · rw [List.takeWhile_cons, if_neg hc]
        cases m with
        | zero =>
            cases more with
            | nil => rfl
            | cons d more =>
                have hd : p d = false := hp.blank (hmore d rfl)
                simp [hd]
        | succ m => rw [List.take_succ_cons, List.cons_append, List.takeWhile_cons, if_neg hc]

theorem runLength_cut (hp : Unspaced p) (hmore : Gap more) (h : runLength p cs ≤ m) :
    runLength p (cs.take m ++ more) = runLength p cs := by
  rw [runLength, takeWhile_cut hp hmore h, runLength]

theorem runLength_pos (h : startsWith p cs = true) (hpq : ∀ c, p c = true → q c = true) : 0 < runLength q cs := by
  cases cs with
  | nil => exact absurd h Bool.false_ne_true
  | cons c cs =>
      rw [runLength, List.takeWhile_cons, if_pos (hpq c h)]
      exact Nat.succ_pos _

/-- The first character is the same if it is left. -/
theorem startsWith_cut (h : 0 < m) (hp : Unspaced p) (hmore : Gap more) :
    startsWith p (cs.take m ++ more) = startsWith p cs := by
  obtain ⟨m, rfl⟩ : ∃ k, m = k + 1 := ⟨m - 1, by omega⟩
  cases cs with
  | nil =>
      rw [List.take_nil, List.nil_append]
      exact startsWith_gap hp hmore
  | cons c cs => rfl

/-- A text that is cut does not begin with anything new. -/
theorem startsWith_of_cut (hp : Unspaced p) (hmore : Gap more) (h : startsWith p (cs.take m ++ more) = true) :
    startsWith p cs = true := by
  cases m with
  | zero =>
      rw [List.take_zero, List.nil_append, startsWith_gap hp hmore] at h
      contradiction
  | succ m => rwa [startsWith_cut (Nat.succ_pos m) hp hmore] at h

/-- The same for the first two characters. -/
theorem startsWith_both_of_cut (hp : Unspaced p) (hq : Unspaced q) (hmore : Gap more)
    (h : (startsWith p (cs.take m ++ more) && startsWith q ((cs.take m ++ more).drop 1)) = true) :
    (startsWith p cs && startsWith q (cs.drop 1)) = true := by
  rw [Bool.and_eq_true] at h ⊢
  refine ⟨startsWith_of_cut hp hmore h.1, ?_⟩
  cases m with
  | zero =>
      rw [List.take_zero, List.nil_append, startsWith_gap hp hmore] at h
      exact absurd h.1 Bool.false_ne_true
  | succ m =>
      cases cs with
      | nil =>
          rw [List.take_nil, List.nil_append, startsWith_gap hp hmore] at h
          exact absurd h.1 Bool.false_ne_true
      | cons c cs => exact startsWith_of_cut hq hmore h.2

theorem drop_cut (h : n ≤ m) (hn : n ≤ cs.length) (more : List Char) :
    (cs.take m ++ more).drop n = (cs.drop n).take (m - n) ++ more := by
  rw [List.drop_append_of_le_length (by rw [List.length_take]; omega), List.drop_take]

theorem take_cut (h : n ≤ m) (hn : n ≤ cs.length) (more : List Char) :
    (cs.take m ++ more).take n = cs.take n := by
  rw [List.take_append_of_le_length (by rw [List.length_take]; omega), List.take_take, Nat.min_eq_left h]

/-- What a gap begins with holds a blank. -/
theorem isPrefixOf_gap {d : Char} {needle : List Char} (hd : isBlank d = false) (hmore : Gap more) :
    (d :: needle).isPrefixOf more = false := by
  cases more with
  | nil => rfl
  | cons c more =>
      have hne : (d == c) = false := by
        rw [beq_eq_false_iff_ne]
        rintro rfl
        rw [hmore d rfl] at hd
        contradiction
      rw [List.isPrefixOf, hne, Bool.false_and]

/-- A text that is cut does not begin with any new text without blanks. -/
theorem isPrefixOf_of_cut {needle : List Char} (hneedle : ∀ c ∈ needle, isBlank c = false) (hmore : Gap more)
    (h : needle.isPrefixOf (cs.take m ++ more) = true) : needle.isPrefixOf cs = true := by
  induction needle generalizing cs m with
  | nil => rw [List.isPrefixOf_nil_left]
  | cons d needle ih =>
      obtain ⟨hd, hneedle⟩ := List.forall_mem_cons.mp hneedle
      cases cs with
      | nil =>
          rw [List.take_nil, List.nil_append, isPrefixOf_gap hd hmore] at h
          contradiction
      | cons c cs =>
          cases m with
          | zero =>
              rw [List.take_zero, List.nil_append, isPrefixOf_gap hd hmore] at h
              contradiction
          | succ m =>
              rw [List.take_succ_cons, List.cons_append, List.isPrefixOf, Bool.and_eq_true] at h
              rw [List.isPrefixOf, Bool.and_eq_true]
              exact ⟨h.1, ih hneedle h.2⟩

/-- What a text begins with stays if it is left. -/
theorem isPrefixOf_cut {needle : List Char} (h : needle.isPrefixOf cs = true) (hm : needle.length ≤ m)
    (more : List Char) : needle.isPrefixOf (cs.take m ++ more) = true := by
  rw [List.isPrefixOf_iff_prefix] at h ⊢
  obtain ⟨rest, rfl⟩ := h
  rw [List.take_append, List.take_of_length_le hm, List.append_assoc]
  exact List.prefix_append _ _

theorem findText_cut {needle : List Char} (h : findText needle cs = some n) (hm : n + needle.length ≤ m)
    (more : List Char) : findText needle (cs.take m ++ more) = some n := by
  refine findText_append ?_ more
  induction cs generalizing n m with
  | nil => rwa [List.take_nil]
  | cons c cs ih =>
      rw [findText] at h
      split at h
      · next hstart =>
          obtain rfl := Option.some.inj h
          have hcut := isPrefixOf_cut hstart (by omega : needle.length ≤ m) []
          rw [List.append_nil] at hcut
          cases htake : (c :: cs).take m with
          | nil =>
              rw [htake] at hcut
              obtain rfl := List.prefix_nil.mp (List.isPrefixOf_iff_prefix.mp hcut)
              rfl
          | cons d ds => rw [findText, if_pos (htake ▸ hcut)]
      · next hstart =>
          obtain ⟨k, hk, rfl⟩ := Option.map_eq_some_iff.mp h
          obtain ⟨m, rfl⟩ : ∃ j, m = j + 1 := ⟨m - 1, by omega⟩
          rw [List.take_succ_cons, findText, ih hk (by omega), if_neg, Option.map_some]
          intro hcut
          refine hstart (List.isPrefixOf_iff_prefix.mpr ?_)
          exact (List.isPrefixOf_iff_prefix.mp hcut).trans (List.take_prefix (m + 1) (c :: cs))

end ShellFront
