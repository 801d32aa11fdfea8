import ShellFront.Proofs.Token.Gaps

/-!
# Literals by themselves

A string, a number or a dollar form that is found without a problem is found again when it is cut out of its text: a
look beyond it was there to see that it goes no further, and a blank says just that.

## Contents
- One lemma for each recogniser of literals.
-/

namespace ShellFront.Piece

variable {c : Char} {piece : Piece} {p q : Char → Bool} {cs more : List Char} {m n : Nat}

/-! ## Strings -/

theorem closingQuote_cut {delimiter : Char} (h : closingQuote delimiter cs = some n) (hm : n + 1 ≤ m)
    (more : List Char) : closingQuote delimiter (cs.take m ++ more) = some n := by
  refine (closingQuote_append ?_ more).2
  fun_induction closingQuote delimiter cs generalizing n m with
  | case1 => contradiction
  | case2 => contradiction
  | case3 d cs =>
      rename_i ih
      obtain ⟨k, hk, rfl⟩ := Option.map_eq_some_iff.mp h
      obtain ⟨m, rfl⟩ : ∃ j, m = j + 2 := ⟨m - 2, by omega⟩
      rw [List.take_succ_cons, List.take_succ_cons, closingQuote, ih hk (by omega), Option.map_some]
  | case4 cs h₁ h₂ =>
      obtain ⟨m, rfl⟩ : ∃ j, m = j + 1 := ⟨m - 1, by omega⟩
      obtain rfl := Option.some.inj h
      rw [List.take_succ_cons, closingQuote_cons (ne_backslash h₁ h₂), if_pos rfl]
  | case5 c cs h₁ h₂ hclose =>
      rename_i ih
      obtain ⟨k, hk, rfl⟩ := Option.map_eq_some_iff.mp h
      obtain ⟨m, rfl⟩ : ∃ j, m = j + 1 := ⟨m - 1, by omega⟩
      rw [List.take_succ_cons, closingQuote_cons (ne_backslash h₁ h₂), if_neg hclose, ih hk (by omega), Option.map_some]

/-- A string in plain quotes that is closed is closed when it is cut out. -/
theorem verbatim_cut {style : StringStyle} {needle : List Char} (k : Nat) (hk : k ≤ cs.length) {otherwise : Piece}
    (hotherwise : otherwise.problem ≠ none)
    (h : (verbatim style (k + 1) needle (cs.drop k) otherwise).problem = none) (more : List Char) :
    let piece := verbatim style (k + 1) needle (cs.drop k) otherwise
    k + 1 ≤ piece.length ∧ ∀ otherwise',
      verbatim style (k + 1) needle ((cs.take (piece.length - 1) ++ more).drop k) otherwise' = piece := by
  intro piece
  cases hfound : findText needle (cs.drop k) with
  | none =>
      rw [verbatim, hfound] at h
      exact absurd h hotherwise
  | some n =>
      have hle := findText_le hfound
      rw [List.length_drop] at hle
      have hpiece : piece = ⟨.string style, k + 1 + n + needle.length, some ((cs.drop k).take n), none⟩ :=
        verbatim_found hfound
      have hbody : n ≤ (cs.drop k).length := by
        rw [List.length_drop]
        omega
      rw [hpiece]
      dsimp only
      rw [drop_cut (by omega) hk]
      refine ⟨by omega, fun otherwise' => ?_⟩
      rw [verbatim_found (findText_cut hfound (by omega) more), take_cut (by omega) hbody]

/-- A string with escapes that is closed is closed when it is cut out. -/
theorem escapedString_cut {style : StringStyle} {delimiter : Char} {otherwise : Piece}
    (hotherwise : otherwise.problem ≠ none) (h : (escapedString style delimiter cs otherwise).problem = none)
    (more : List Char) :
    let piece := escapedString style delimiter cs otherwise
    ∀ otherwise', escapedString style delimiter (cs.take (piece.length - 1) ++ more) otherwise' = piece := by
  intro piece otherwise'
  cases hfound : closingQuote delimiter cs with
  | none =>
      rw [escapedString, hfound] at h
      exact absurd h hotherwise
  | some n =>
      have hle := (closingQuote_append hfound []).1
      have hpiece : piece = ⟨.string style, n + 2, some (unescape (cs.take n)), none⟩ := escapedString_found hfound
      rw [hpiece]
      dsimp only
      rw [escapedString_found (closingQuote_cut hfound (by omega) more), take_cut (by omega) (by omega)]

theorem string?_cut (h : string? c cs = some piece) (hproblem : piece.problem = none) (hmore : Gap more) :
    string? c (cs.take (piece.length - 1) ++ more) = some piece := by
  have hbroken := unclosed_problem cs
  rw [string?_eq] at h ⊢
  split at h
  · next hc =>
      rw [if_pos hc]
      split at h
      · next hquotes =>
          -- three quotation marks: the look for them lies within the piece
          have hlength := (List.isPrefixOf_iff_prefix.mp hquotes).length_le
          obtain rfl := Option.some.inj h
          obtain ⟨hle, hsame⟩ := verbatim_cut 2 hlength hbroken hproblem more
          rw [if_pos (isPrefixOf_cut hquotes (Nat.le_sub_one_of_lt hle) more), hsame]
      · next hquotes =>
          obtain rfl := Option.some.inj h
          -- one quotation mark: behind a cut there can be no more of them than before
          rw [if_neg fun hcut => hquotes (isPrefixOf_of_cut (by decide) hmore hcut),
            escapedString_cut hbroken hproblem more]
  · next hc =>
      rw [if_neg hc]
      split at h
      · next hr =>
          rw [if_pos hr]
          split at h
          · next hquote =>
              obtain rfl := Option.some.inj h
              obtain ⟨hle, hsame⟩ := verbatim_cut 1 (length_pos_of_startsWith hquote) hbroken hproblem more
              rw [startsWith_cut (Nat.le_sub_one_of_lt hle) (by decide) hmore, if_pos hquote, hsame]
          · contradiction
      · next hr =>
          rw [if_neg hr]
          split at h
          · next hbacktick =>
              obtain rfl := Option.some.inj h
              rw [if_pos hbacktick, (verbatim_cut 0 (Nat.zero_le _) hbroken hproblem more).2]
          · next hbacktick =>
              rw [if_neg hbacktick]
              split at h
              · next hsingle =>
                  obtain rfl := Option.some.inj h
                  rw [if_pos hsingle, escapedString_cut hbroken hproblem more]
              · contradiction

/-- No text comes to be a string when it is cut. -/
theorem string?_none_cut (h : string? c cs = none) (m : Nat) (hmore : Gap more) :
    string? c (cs.take m ++ more) = none := by
  rw [string?_eq] at h ⊢
  split at h
  · split at h <;> contradiction
  · next hdouble =>
      rw [if_neg hdouble]
      split at h
      · next hr =>
          rw [if_pos hr]
          split at h
          · contradiction
          · next hquote => rw [if_neg fun hcut => hquote (startsWith_of_cut (by decide) hmore hcut)]
      · next hr =>
          rw [if_neg hr]
          split at h
          · contradiction
          · next hbacktick =>
              rw [if_neg hbacktick]
              split at h
              · contradiction
              · next hsingle => rw [if_neg hsingle]

/-! ## Numbers -/

theorem radixMark?_unspaced {d : Char} {radix : Radix} {allowed : Char → Bool}
    (h : radixMark? d = some (radix, allowed)) : Unspaced allowed := by
  unfold radixMark? at h
  split at h
  · obtain ⟨-, rfl⟩ := Prod.mk.inj (Option.some.inj h)
    decide
  · obtain ⟨-, rfl⟩ := Prod.mk.inj (Option.some.inj h)
    decide
  · obtain ⟨-, rfl⟩ := Prod.mk.inj (Option.some.inj h)
    decide
  · contradiction

theorem radixMark?_blank {d : Char} (h : isBlank d = true) : radixMark? d = none := by
  have hblank := isBlank_iff.mp h
  simp only [List.mem_cons, List.not_mem_nil, or_false] at hblank
  rcases hblank with rfl | rfl | rfl <;> rfl

theorem marked?_gap (hmore : Gap more) : marked? c more = none := by
  unfold marked?
  split
  · next d ds =>
      rw [radixMark?_blank (hmore d rfl)]
  · rfl

theorem marked?_cut (h : marked? c cs = some piece) (hmore : Gap more) :
    marked? c (cs.take (piece.length - 1) ++ more) = some piece := by
  by_cases hc : c = '0'
  · subst hc
    cases cs with
    | nil => contradiction
    | cons d ds =>
        rw [marked?] at h
        cases hmark : radixMark? d with
        | none =>
            rw [hmark] at h
            contradiction
        | some mark =>
            obtain ⟨radix, allowed⟩ := mark
            have hallowed := radixMark?_unspaced hmark
            rw [hmark] at h
            dsimp only at h
            split at h
            · next hdigit =>
                obtain rfl := Option.some.inj h
                have hlength : 2 + runLength allowed ds - 1 = runLength allowed ds + 1 := by omega
                dsimp only
                rw [hlength, List.take_succ_cons, List.cons_append, marked?, hmark]
                dsimp only
                rw [runLength_cut hallowed hmore (Nat.le_refl _), if_pos]
                rwa [startsWith_cut (runLength_pos hdigit fun _ h => h) hallowed hmore]
            · contradiction
  · rw [marked?_of_ne hc] at h
    contradiction

theorem marked?_none_cut (h : marked? c cs = none) (m : Nat) (hmore : Gap more) :
    marked? c (cs.take m ++ more) = none := by
  by_cases hc : c = '0'
  · subst hc
    cases cs with
    | nil =>
        rw [List.take_nil, List.nil_append]
        exact marked?_gap hmore
    | cons d ds =>
        cases m with
        | zero => exact marked?_gap hmore
        | succ m =>
            rw [marked?] at h
            rw [List.take_succ_cons, List.cons_append, marked?]
            cases hmark : radixMark? d with
            | none => rfl
            | some mark =>
                obtain ⟨radix, allowed⟩ := mark
                rw [hmark] at h
                dsimp only at h ⊢
                split at h
                · contradiction
                · next hdigit =>
                    rw [if_neg fun hcut => hdigit (startsWith_of_cut (radixMark?_unspaced hmark) hmore hcut)]
  · exact marked?_of_ne hc _

theorem fractionLength_gap (hmore : Gap more) : fractionLength more = 0 := by
  cases more with
  | nil => rfl
  | cons d more =>
      refine fractionLength_cons ?_ more
      rintro rfl
      exact absurd (hmore _ rfl) (by decide)

theorem fractionLength_cut (h : fractionLength cs ≤ m) (hmore : Gap more) :
    fractionLength (cs.take m ++ more) = fractionLength cs := by
  cases cs with
  | nil =>
      rw [List.take_nil, List.nil_append]
      exact fractionLength_gap hmore
  | cons d ds =>
      cases m with
      | zero =>
          rw [Nat.le_zero.mp h]
          exact fractionLength_gap hmore
      | succ m =>
          rw [List.take_succ_cons, List.cons_append]
          by_cases hd : d = '.'
          · subst hd
            rw [fractionLength] at h ⊢
            rw [fractionLength]
            split at h
            · next hdigit =>
                have hpos := runLength_pos hdigit fun _ h => h
                rw [startsWith_cut (by omega) (by decide) hmore, if_pos hdigit, if_pos hdigit,
                  runLength_cut (by decide) hmore (by omega)]
            · next hdigit => rw [if_neg hdigit, if_neg fun hcut => hdigit (startsWith_of_cut (by decide) hmore hcut)]
          · rw [fractionLength_cons hd, fractionLength_cons hd]

theorem exponentLength_gap (hmore : Gap more) : exponentLength more = 0 := by
  cases more with
  | nil => rfl
  | cons d more =>
      rw [exponentLength, if_neg]
      rintro (rfl | rfl)
      · exact absurd (hmore _ rfl) (by decide)
      · exact absurd (hmore _ rfl) (by decide)

/-- An exponent that is left is the same; where there is none, none comes up. -/
theorem exponentLength_cut (h : exponentLength cs ≤ m) (hmore : Gap more) :
    exponentLength (cs.take m ++ more) = exponentLength cs := by
  cases cs with
  | nil =>
      rw [List.take_nil, List.nil_append]
      exact exponentLength_gap hmore
  | cons d ds =>
      cases m with
      | zero =>
          rw [Nat.le_zero.mp h]
          exact exponentLength_gap hmore
      | succ m =>
          rw [List.take_succ_cons, List.cons_append]
          rw [exponentLength] at h ⊢
          rw [exponentLength]
          by_cases hd : d = 'e' ∨ d = 'E'
          · rw [if_pos hd] at h ⊢
            rw [if_pos hd]
            have hle := sign_le ds
            dsimp only at h ⊢
            cases m with
            | zero =>
                -- nothing but the mark is left, so there was no exponent
                have hnone : ¬ startsWith isDigit
                    (ds.drop (if startsWith (fun c => c == '+' || c == '-') ds then 1 else 0)) = true := by
                  intro hdigit
                  have hpos := runLength_pos hdigit fun _ h => h
                  rw [if_pos hdigit] at h
                  omega
                rw [if_neg hnone, List.take_zero, List.nil_append, startsWith_gap (by decide) hmore,
                  if_neg Bool.false_ne_true, List.drop_zero, startsWith_gap (by decide) hmore]
                rfl
            | succ m =>
                rw [startsWith_cut (Nat.succ_pos m) (by decide) hmore]
                have hsign : (if startsWith (fun c => c == '+' || c == '-') ds then 1 else 0) ≤ 1 := by
                  split <;> decide
                generalize (if startsWith (fun c => c == '+' || c == '-') ds then 1 else 0) = sign at h hle hsign ⊢
                rw [drop_cut (by omega) hle]
                split at h
                · next hdigit =>
                    have hpos := runLength_pos hdigit fun _ h => h
                    rw [startsWith_cut (by omega) (by decide) hmore, runLength_cut (by decide) hmore (by omega)]
                · next hdigit => rw [if_neg hdigit, if_neg fun hcut => hdigit (startsWith_of_cut (by decide) hmore hcut)]
          · rw [if_neg hd, if_neg hd]

theorem number?_cut (h : number? c cs = some piece) (hmore : Gap more) :
    number? c (cs.take (piece.length - 1) ++ more) = some piece := by
  rw [number?_eq] at h ⊢
  split at h
  · contradiction
  · next hc =>
      rw [if_neg hc]
      dsimp only at h ⊢
      cases hmark : marked? c cs with
      | some marked =>
          rw [hmark] at h
          obtain rfl := Option.some.inj h
          rw [marked?_cut hmark hmore]
          rfl
      | none =>
          rw [hmark, Option.none_or] at h
          have hwhole := runLength_le isDigit cs
          have hfraction := fractionLength_le (cs.drop (runLength isDigit cs))
          rw [List.length_drop] at hfraction
          obtain rfl := Option.some.inj h
          rw [marked?_none_cut hmark _ hmore, Option.none_or]
          dsimp only
          rw [runLength_cut (by decide) hmore (by omega), drop_cut (by omega) hwhole, fractionLength_cut (by omega) hmore,
            drop_cut (by omega) (by omega), exponentLength_cut (by omega) hmore]

/-! ## Dollar forms -/

theorem isNameChar_of_isNameStart {d : Char} (h : isNameStart d = true) : isNameChar d = true := by
  rw [isNameStart, Bool.or_eq_true] at h
  rw [isNameChar, Bool.or_eq_true, Bool.or_eq_true]
  exact h.imp_left .inl

theorem variableForm_cut (hname : startsWith isNameStart cs = true) (hmore : Gap more) :
    0 < (variableForm cs).length - 1 ∧
      variableForm (cs.take ((variableForm cs).length - 1) ++ more) = variableForm cs := by
  have hpos : 0 < runLength isNameChar cs := runLength_pos hname fun _ => isNameChar_of_isNameStart
  have hle : runLength isNameChar cs ≤ cs.length := runLength_le isNameChar cs
  generalize hself : cs.takeWhile isNameChar = name
  have hrun : runLength isNameChar cs = name.length := by rw [runLength, hself]
  rw [hrun] at hpos hle
  -- the forms are told apart by the name and by what follows it, and a gap is no part of any of them
  by_cases hspecial : isSpecialName name = true
  · have hform : variableForm cs = ⟨.specialName, 1 + name.length, some name, none⟩ := by
      rw [variableForm, hself]
      exact if_pos hspecial
    rw [hform]
    dsimp only
    rw [Nat.add_sub_cancel_left, variableForm, takeWhile_cut (by decide) hmore (Nat.le_of_eq hrun), hself]
    exact ⟨hpos, if_pos hspecial⟩
  · by_cases henv : (name == ['e', 'n', 'v'] && startsWith (· == '.') (cs.drop name.length)
        && startsWith isNameStart ((cs.drop name.length).drop 1)) = true
    · generalize hkey : ((cs.drop name.length).drop 1).takeWhile isNameChar = key
      have hform : variableForm cs = ⟨.environmentName, 1 + name.length + 1 + key.length, some key, none⟩ := by
        rw [variableForm, hself]
        dsimp only
        rw [if_neg hspecial, if_pos henv, hkey]
      have hdots := henv
      rw [Bool.and_eq_true, Bool.and_eq_true] at hdots
      obtain ⟨⟨-, hdot⟩, hstart⟩ := hdots
      have hdotpos : 1 ≤ (cs.drop name.length).length := length_pos_of_startsWith hdot
      have hkeyrun : runLength isNameChar ((cs.drop name.length).drop 1) = key.length := by rw [runLength, hkey]
      have hkeypos : 0 < key.length := hkeyrun ▸ runLength_pos hstart fun _ => isNameChar_of_isNameStart
      have hlength : 1 + name.length + 1 + key.length - 1 = name.length + (1 + key.length) := by omega
      rw [hform]
      dsimp only
      rw [hlength, variableForm, takeWhile_cut (by decide) hmore (by omega), hself, drop_cut (by omega) hle,
        Nat.add_sub_cancel_left, drop_cut (by omega) hdotpos, Nat.add_sub_cancel_left]
      dsimp only
      rw [startsWith_cut (by omega) (by decide) hmore, startsWith_cut hkeypos (by decide) hmore,
        takeWhile_cut (by decide) hmore (Nat.le_of_eq hkeyrun), hkey, if_neg hspecial, if_pos henv]
      exact ⟨by omega, rfl⟩
    · have hform : variableForm cs = ⟨.variableName, 1 + name.length, some name, none⟩ := by
        rw [variableForm, hself]
        dsimp only
        rw [if_neg hspecial, if_neg henv]
      rw [hform]
      dsimp only
      rw [Nat.add_sub_cancel_left, variableForm, takeWhile_cut (by decide) hmore (Nat.le_of_eq hrun), hself,
        drop_cut (Nat.le_refl _) hle, Nat.sub_self, List.take_zero, List.nil_append]
      dsimp only
      rw [if_neg hspecial, startsWith_gap (by decide) hmore, Bool.and_false, Bool.false_and,
        if_neg Bool.false_ne_true]
      exact ⟨hpos, rfl⟩

theorem dollar?_cut (h : dollar? c cs = some piece) (hproblem : piece.problem = none) (hmore : Gap more) :
    dollar? c (cs.take (piece.length - 1) ++ more) = some piece := by
  rw [dollar?] at h ⊢
  split at h
  · contradiction
  · next hc =>
      rw [if_neg hc]
      split at h
      · next hparen =>
          obtain rfl := Option.some.inj h
          rw [startsWith_cut (by decide) (by decide) hmore, if_pos hparen]
      · next hparen =>
          rw [if_neg fun hcut => hparen (startsWith_of_cut (by decide) hmore hcut)]
          split at h
          · next hname =>
              obtain rfl := Option.some.inj h
              obtain ⟨hpos, hsame⟩ := variableForm_cut hname hmore
              rw [startsWith_cut hpos (by decide) hmore, if_pos hname, hsame]
          · obtain rfl := Option.some.inj h
            contradiction

end ShellFront.Piece
