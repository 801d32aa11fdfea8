import ShellFront.Proofs.Token.Pared
import ShellFront.Proofs.Token.Respacing

/-!
# Blanks at line ends

A text is **shorn** when blanks are left out of it that stand right before a line feed, alone or with more blanks
between. Blanks end a stem as line feeds do, so a shorn text has the same stem, and all pieces but strings are found
in it as before; a string is, too, if all that was left out stands behind it.

The blanks at line ends can be left out of a script, only not in strings. The tokens are the same but for their
places, and they touch one another as before, with one exception: a token that is a line break may touch the one
before it only when the blanks between the two are gone.

## Contents
- `AtLineEnd`, `Shorn`, `shorn`.
- What is found in a shorn text: `Piece.next_shorn`, `findText_shorn`, `Lexer.opensStatement_shorn`.
- `Lexer.withoutTrailing`, `trimmed` and `Lexer.step_trimmed`.
- `Lexer.fitted`: words and what they touch; `Lexer.fitted_trimmed`.
- `joints` and `tokenize_trimmed`: tokens and what they touch.
-/

namespace ShellFront

variable {c : Char} {cs cs' text after more : List Char} {n : Nat}

/-! ## Leaving out blanks -/

/-- A text **at the end of a line** begins with a line feed, perhaps after some blanks. -/
def AtLineEnd (text : List Char) : Prop := startsWith (· == '\n') (text.dropWhile isBlank) = true

instance (text : List Char) : Decidable (AtLineEnd text) :=
  inferInstanceAs (Decidable (startsWith (· == '\n') (text.dropWhile isBlank) = true))

theorem atLineEnd_blank (hc : isBlank c = true) : AtLineEnd (c :: cs) ↔ AtLineEnd cs := by
  rw [AtLineEnd, AtLineEnd, List.dropWhile_cons, if_pos hc]

theorem atLineEnd_other (hc : ¬ isBlank c = true) : AtLineEnd (c :: cs) ↔ c = '\n' := by
  rw [AtLineEnd, List.dropWhile_cons, if_neg hc]
  exact beq_iff_eq

/-- What is left of a text when some blanks at the ends of its lines are left out. -/
inductive Shorn : List Char → List Char → Prop where
  | nil : Shorn [] []
  | keep {text more : List Char} (c : Char) (rest : Shorn text more) : Shorn (c :: text) (c :: more)
  | skip {c : Char} {text more : List Char} (hblank : isBlank c = true) (hend : AtLineEnd text)
      (rest : Shorn text more) : Shorn (c :: text) more

theorem Shorn.append (h : Shorn text more) (front : List Char) : Shorn (front ++ text) (front ++ more) := by
  induction front with
  | nil => exact h
  | cons c front ih => exact .keep c ih

theorem AtLineEnd.shorn (hend : AtLineEnd text) (h : Shorn text more) : AtLineEnd more := by
  induction h with
  | nil => exact hend
  | keep c rest ih =>
      by_cases hc : isBlank c = true
      · rw [atLineEnd_blank hc] at hend ⊢
        exact ih hend
      · rw [atLineEnd_other hc] at hend ⊢
        exact hend
  | skip hblank htail rest ih => exact ih htail

/-- A text without the blanks at the ends of its lines, where `after` follows it. -/
def shorn : List Char → List Char → List Char
  | [], _ => []
  | c :: cs, after => if isBlank c = true ∧ AtLineEnd (cs ++ after) then shorn cs after else c :: shorn cs after

theorem Shorn.of_shorn (h : Shorn after more) (text : List Char) :
    Shorn (text ++ after) (shorn text after ++ more) := by
  induction text with
  | nil => exact h
  | cons c cs ih =>
      rw [shorn]
      split
      · next hc => exact .skip hc.1 hc.2 ih
      · exact .keep c ih

theorem shorn_sublist (text after : List Char) : (shorn text after).Sublist text := by
  induction text with
  | nil => exact .slnil
  | cons c cs ih =>
      rw [shorn]
      split
      · exact .cons c ih
      · exact .cons_cons c ih

theorem shorn_cons (hc : ¬ isBlank c = true) (cs after : List Char) : shorn (c :: cs) after = c :: shorn cs after := by
  rw [shorn, if_neg fun h => hc h.1]

/-- Where there are no blanks none is left out. -/
theorem shorn_self (h : ∀ c ∈ text, ¬ isBlank c = true) (after : List Char) : shorn text after = text := by
  induction text with
  | nil => rfl
  | cons c cs ih =>
      obtain ⟨hc, hcs⟩ := List.forall_mem_cons.mp h
      rw [shorn_cons hc, ih hcs]

/-! ## What is found in a shorn text -/

/-- A line that has no more to it gives an empty stem. -/
theorem AtLineEnd.stem (hend : AtLineEnd text) : stem text = [] := by
  cases text with
  | nil => rfl
  | cons c cs =>
      by_cases hc : isBlank c = true
      · exact stem_ends (List.mem_cons_of_mem _ (List.mem_cons_of_mem _ (isBlank_iff.mp hc))) cs
      · obtain rfl := (atLineEnd_other hc).mp hend
        exact stem_ends (by decide) cs

/-- **A shorn text has the same stem.** -/
theorem Shorn.stem (h : Shorn text more) : stem text = stem more := by
  induction h with
  | nil => rfl
  | keep c rest ih => exact stem_append ih [c]
  | skip hblank hend rest => rw [((atLineEnd_blank hblank).mpr hend).stem, (hend.shorn rest).stem]

/-- What is told by the stem is the same of a shorn text. -/
theorem Shorn.same {α : Type} {f : List Char → α} (hf : ∀ cs, f (ShellFront.stem cs) = f cs)
    (h : Shorn text more) : f more = f text := by
  rw [← hf, ← h.stem, hf]

/-- A text without blanks and line feeds, as it is looked for. -/
def Tight (needle : List Char) : Prop := ∀ d ∈ needle, (isBlank d || d == '\n') = false

instance (needle : List Char) : Decidable (Tight needle) :=
  inferInstanceAs (Decidable (∀ d ∈ needle, (isBlank d || d == '\n') = false))

theorem Tight.not_atLineEnd {needle : List Char} {d : Char} (h : Tight (d :: needle)) (hend : AtLineEnd text) :
    (d :: needle).isPrefixOf text = false := by
  have hd : (isBlank d || d == '\n') = false := h d List.mem_cons_self
  cases text with
  | nil => rfl
  | cons c cs =>
      have hne : (d == c) = false := by
        rw [beq_eq_false_iff_ne]
        rintro rfl
        obtain ⟨hblank, hfeed⟩ := Bool.or_eq_false_iff.mp hd
        exact (beq_eq_false_iff_ne.mp hfeed) ((atLineEnd_other (by rw [hblank]; decide)).mp hend)
      rw [List.isPrefixOf, hne, Bool.false_and]

/-- A shorn text begins with the same, as far as this holds no blanks and line feeds. -/
theorem isPrefixOf_shorn {needle : List Char} (hneedle : Tight needle) (h : Shorn text more) :
    needle.isPrefixOf more = needle.isPrefixOf text := by
  induction needle generalizing text more with
  | nil => rw [List.isPrefixOf_nil_left, List.isPrefixOf_nil_left]
  | cons d needle ih =>
      cases h with
      | nil => rfl
      | keep c rest =>
          have hrest : Tight needle := fun e he => hneedle e (List.mem_cons_of_mem d he)
          rw [List.isPrefixOf, List.isPrefixOf, ih hrest rest]
      | skip hblank hend rest =>
          rw [hneedle.not_atLineEnd (hend.shorn rest), hneedle.not_atLineEnd ((atLineEnd_blank hblank).mpr hend)]

/-- What is found at the very end of a text is found at the end of the shorn one. -/
theorem findText_shorn {needle : List Char} (hneedle : Tight needle) (hne : needle ≠ []) (hmore : Shorn after more)
    (h : findText needle (text ++ after) = some n) (hlength : n + needle.length = text.length) :
    ∃ m, findText needle (shorn text after ++ more) = some m ∧ m + needle.length = (shorn text after).length := by
  induction text generalizing n with
  | nil =>
      have hpos := List.length_pos_iff.mpr hne
      rw [List.length_nil] at hlength
      omega
  | cons c cs ih =>
      have hshorn := hmore.of_shorn (c :: cs)
      rw [List.cons_append, findText] at h
      split at h
      · next hstart =>
          -- the text is just what is looked for
          obtain rfl := Option.some.inj h
          have htext : needle = c :: cs := by
            refine List.IsPrefix.eq_of_length ?_ (by omega)
            rw [← List.cons_append, List.isPrefixOf_iff_prefix] at hstart
            exact List.prefix_of_prefix_length_le hstart (List.prefix_append _ _) (by omega)
          have hself : shorn (c :: cs) after = c :: cs :=
            shorn_self (fun d hd hblank => by
              have htight := hneedle d (htext ▸ hd)
              rw [hblank, Bool.true_or] at htight
              contradiction) after
          rw [hself, List.cons_append, findText, if_pos]
          · exact ⟨0, rfl, hlength⟩
          · rw [htext, List.isPrefixOf_iff_prefix]
            exact List.prefix_append (c :: cs) more
      · next hstart =>
          obtain ⟨k, hk, rfl⟩ := Option.map_eq_some_iff.mp h
          obtain ⟨m, hm, hmlength⟩ := ih hk (by rw [List.length_cons] at hlength; omega)
          rw [shorn] at hshorn ⊢
          split
          · exact ⟨m, hm, hmlength⟩
          · next hc =>
              rw [if_neg hc, List.cons_append, List.cons_append] at hshorn
              rw [List.cons_append, findText, if_neg (by rwa [isPrefixOf_shorn hneedle hshorn]), hm, List.length_cons]
              exact ⟨m + 1, rfl, by omega⟩

namespace Piece

variable {wordStart : Bool} {piece : Piece}

/-- **A closed string is told by the stem and by its own characters.** -/
theorem string?_kept (hstem : stem cs' = stem cs)
    (h : ∀ piece, string? c cs = some piece →
      piece.problem = none ∧ ∃ more, cs' = cs.take (piece.length - 1) ++ more) :
    string? c cs' = string? c cs := by
  refine string?_congr hstem h ?_ ?_
  · rintro style needle k - hk ⟨hproblem, more, rfl⟩
    exact (verbatim_cut k (Nat.le_trans hk (stem_isPrefix cs).length_le) (unclosed_problem cs) hproblem more).2 _
  · rintro style delimiter - ⟨hproblem, more, rfl⟩
    exact escapedString_cut (unclosed_problem cs) hproblem more _

/-- **A good piece is the same in a shorn text**, if what was left out stands behind it. -/
theorem next_shorn (hvalid : (next wordStart c cs).problem = none) (hshorn : Shorn cs cs')
    (hcs' : ∃ more, cs' = cs.take ((next wordStart c cs).length - 1) ++ more) :
    next wordStart c cs' = next wordStart c cs := by
  have hstring : string? c cs' = string? c cs := by
    refine string?_kept hshorn.stem.symm fun piece hpiece => ?_
    have hnext : next wordStart c cs = piece := by
      rw [next_eq_unquoted, hpiece]
      rfl
    rw [hnext] at hvalid hcs'
    exact ⟨hvalid, hcs'⟩
  rw [next_eq_unquoted, next_eq_unquoted, hstring, hshorn.same (unquoted?_onStem wordStart c).same]

end Piece

/-! ## Steps -/

theorem LineEnd.shorn (hend : LineEnd text) (h : Shorn text more) : LineEnd more := by
  cases h with
  | nil => exact hend
  | keep c rest => exact hend
  | skip hblank =>
      rw [hend _ rfl] at hblank
      contradiction

/-- The last character is left out only where the line ends behind it. -/
theorem shorn_getLast? (text after : List Char) : (shorn text after).getLast? = text.getLast? ∨ AtLineEnd after := by
  induction text with
  | nil => exact .inl rfl
  | cons c cs ih =>
      rcases ih with ih | hend
      · cases cs with
        | nil =>
            rw [shorn]
            split
            · next hc => exact .inr hc.2
            · exact .inl rfl
        | cons d ds =>
            have hlast : (c :: d :: ds).getLast? = (shorn (d :: ds) after).getLast? := by
              rw [ih, List.getLast?_cons_cons]
            rw [shorn, hlast]
            split
            · exact .inl rfl
            · cases hrest : shorn (d :: ds) after with
              | nil =>
                  rw [hrest] at ih
                  exact absurd ih.symm (by simp)
              | cons e es => exact .inl List.getLast?_cons_cons
      · exact .inr hend

namespace Lexer

variable {previous previous' : Option Char} {groups : Groups} {atLineStart : Bool} {s : Step}

/-- Whether a line opens a statement does not change in a shorn text. -/
theorem opensStatement_shorn (h : Shorn text more) : opensStatement more = opensStatement text := by
  induction h with
  | nil => rfl
  | @keep text more c rest ih =>
      by_cases hc : (isBlank c || c == '\n') = true
      · rw [opensStatement_skip hc, opensStatement_skip hc, ih]
      · rw [opensStatement, opensStatement, List.dropWhile_cons, List.dropWhile_cons, if_neg hc, if_neg hc,
          (Shorn.keep c rest).same (takeWhile_stem (by decide : Stemmed isNameChar))]
  | skip hblank hend rest ih => rw [opensStatement_skip (by rw [hblank, Bool.true_or]), ih]

/-- What is **kept** of the characters that a step takes, where `after` follows them: all of them if they make a
    token. -/
def Step.kept (s : Step) (lexeme after : List Char) : List Char :=
  if s.piece.isSome then lexeme else shorn lexeme after

/-- The text without the blanks at the ends of its lines that are no part of a token. It goes through the text in the
    steps of the lexer. -/
def withoutTrailing (previous : Option Char) (groups : Groups) (atLineStart : Bool) : List Char → List Char
  | [] => []
  | c :: cs =>
      let s := step previous groups atLineStart c cs
      let lexeme := (c :: cs).take s.length
      let after := (c :: cs).drop s.length
      s.kept lexeme after ++ withoutTrailing lexeme.getLast? s.groups s.atLineStart after
termination_by text => text.length
decreasing_by
  have := step_length_pos previous groups atLineStart c cs
  simp only [List.length_drop, List.length_cons]
  omega

theorem Step.kept_token {piece : Piece} (h : s.piece = some piece) (lexeme after : List Char) :
    s.kept lexeme after = lexeme := by rw [kept, h, Option.isSome_some, if_pos rfl]

theorem Step.kept_trivia (h : s.piece = none) (lexeme after : List Char) :
    s.kept lexeme after = shorn lexeme after := by
  rw [kept, h, Option.isSome_none, if_neg Bool.false_ne_true]

theorem Step.kept_shorn (h : Shorn after more) (s : Step) (lexeme : List Char) :
    Shorn (lexeme ++ after) (s.kept lexeme after ++ more) := by
  rw [kept]
  split
  · exact h.append lexeme
  · exact h.of_shorn lexeme

theorem Step.kept_getLast? (s : Step) (lexeme after : List Char) :
    (s.kept lexeme after).getLast? = lexeme.getLast? ∨ AtLineEnd after := by
  rw [kept]
  split
  · exact .inl rfl
  · exact shorn_getLast? lexeme after

/-- **What is left of a text is shorn.** -/
theorem withoutTrailing_shorn (previous : Option Char) (groups : Groups) (atLineStart : Bool) (text : List Char) :
    Shorn text (withoutTrailing previous groups atLineStart text) := by
  fun_induction withoutTrailing previous groups atLineStart text with
  | case1 => exact .nil
  | case2 previous groups atLineStart c cs s lexeme after ih =>
      have hkept := Step.kept_shorn ih s lexeme
      rwa [List.take_append_drop] at hkept

theorem comment_found (h : findText ['#', '#', '#'] cs = some n) (groups : Groups) (atLineStart : Bool) :
    comment groups atLineStart ('#' :: '#' :: cs) = ⟨n + 6, none, groups, atLineStart, false⟩ := by
  have hopen : ['#', '#'].isPrefixOf ('#' :: '#' :: cs) = true := rfl
  rw [comment, if_pos hopen, List.drop_succ_cons, List.drop_succ_cons, List.drop_zero, h]

/-- A block comment that is closed is as long as what is kept of it. -/
theorem blockComment_shorn {k : Nat} (hopen : ['#', '#'].isPrefixOf cs = true) (hs : comment groups atLineStart cs = s)
    (hpiece : s.piece = none) (hk : s.length = k + 1) (hmore : Shorn (cs.drop k) more) :
    let body := shorn (cs.take k) (cs.drop k)
    comment groups atLineStart (body ++ more) = { s with length := body.length + 1 } := by
  intro body
  obtain ⟨ds, rfl⟩ := List.isPrefixOf_iff_prefix.mp hopen
  cases hfound : findText ['#', '#', '#'] ds with
  | none =>
      have hbad : (comment groups atLineStart (['#', '#'] ++ ds)).piece ≠ none := by
        rw [comment, if_pos hopen, show (['#', '#'] ++ ds).drop 2 = ds from rfl, hfound]
        exact Option.some_ne_none _
      exact absurd (hs ▸ hpiece) hbad
  | some n =>
      have hle : n + 3 ≤ ds.length := findText_le hfound
      obtain rfl : s = ⟨n + 6, none, groups, atLineStart, false⟩ :=
        hs.symm.trans (comment_found hfound groups atLineStart)
      obtain rfl : k = n + 5 := (Nat.succ.inj hk).symm
      have hbody : body = '#' :: '#' :: shorn (ds.take (n + 3)) (ds.drop (n + 3)) := by
        change shorn ('#' :: '#' :: ds.take (n + 3)) (ds.drop (n + 3)) = _
        rw [shorn_cons (by decide), shorn_cons (by decide)]
      -- the signs that close the comment are found where it ends, also after the blanks are gone
      have hwhole : findText ['#', '#', '#'] (ds.take (n + 3) ++ ds.drop (n + 3)) = some n := by
        rwa [List.take_append_drop]
      have hlength : n + 3 = (ds.take (n + 3)).length := by rw [List.length_take, Nat.min_eq_left hle]
      have hrest : Shorn (ds.drop (n + 3)) more := hmore
      obtain ⟨m, hm, hmlength⟩ := findText_shorn (by decide) (by decide) hrest hwhole hlength
      have hsize : body.length + 1 = m + 6 := by
        rw [hbody, List.length_cons, List.length_cons, ← hmlength]
        rfl
      rw [hsize, hbody, List.cons_append, List.cons_append, comment_found hm]

/-- A comment to the end of the line is as long as what is kept of it. -/
theorem lineComment_shorn {k : Nat} (hopen : ¬ ['#', '#'].isPrefixOf cs = true) (hs : comment groups atLineStart cs = s)
    (hk : s.length = k + 1) (hmore : Shorn (cs.drop k) more) :
    let body := shorn (cs.take k) (cs.drop k)
    comment groups atLineStart (body ++ more) = { s with length := body.length + 1 } := by
  intro body
  obtain rfl : s = ⟨1 + runLength (· != '\n') cs, none, groups, atLineStart, false⟩ := by
    rw [← hs, comment, if_neg hopen]
  obtain rfl : k = runLength (· != '\n') cs := by
    dsimp only at hk
    omega
  have hshorn : Shorn cs (body ++ more) := by
    have hwhole := hmore.of_shorn (cs.take (runLength (· != '\n') cs))
    rwa [List.take_append_drop] at hwhole
  have hend : LineEnd more := by
    rw [drop_runLength] at hmore
    exact (lineEnd_dropWhile cs).shorn hmore
  have hline : ∀ c ∈ body, (c != '\n') = true := by
    intro c hc
    have hmem := (shorn_sublist _ _).subset hc
    rw [take_runLength] at hmem
    exact List.all_eq_true.mp List.all_takeWhile c hmem
  rw [comment, if_neg (by rwa [isPrefixOf_shorn (by decide) hshorn]), hend.runLength hline, Nat.add_comm]

/-- A step **agrees** with another one: it takes what is kept of the characters that this one takes, and it does the
    same with them. -/
def Step.Agrees (s : Step) (previous : Option Char) (groups : Groups) (atLineStart : Bool) (c : Char)
    (kept more : List Char) : Prop :=
  ∃ ds, kept = c :: ds ∧ step previous groups atLineStart c (ds ++ more) = { s with length := kept.length }

theorem comment_trimmed (hs : comment groups atLineStart cs = s) (hvalid : ∀ piece ∈ s.piece, piece.problem = none)
    (hmore : Shorn (('#' :: cs).drop s.length) more) (previous : Option Char) :
    s.Agrees previous groups atLineStart '#' (s.kept (('#' :: cs).take s.length) (('#' :: cs).drop s.length)) more := by
  have hpiece : s.piece = none := by
    rcases comment_cases groups atLineStart cs with ⟨hnone, -⟩ | ⟨piece, hbad, hproblem⟩
    · exact hs ▸ hnone
    · exact absurd (hvalid piece (hs ▸ hbad)) hproblem
  obtain ⟨k, hk⟩ : ∃ k, s.length = k + 1 :=
    Nat.exists_eq_add_one.mpr (hs ▸ step_length_pos previous groups atLineStart '#' cs)
  rw [hk, List.take_succ_cons, List.drop_succ_cons, Step.kept_trivia hpiece, shorn_cons (by decide)]
  rw [hk, List.drop_succ_cons] at hmore
  refine ⟨_, rfl, ?_⟩
  change comment groups atLineStart _ = _
  by_cases hopen : ['#', '#'].isPrefixOf cs = true
  · exact blockComment_shorn hopen hs hpiece hk hmore
  · exact lineComment_shorn hopen hs hk hmore

theorem lineBreak_trimmed (hs : lineBreak groups atLineStart cs = s) (hmore : Shorn (('\n' :: cs).drop s.length) more)
    (previous : Option Char) : s.Agrees previous groups atLineStart '\n'
      (s.kept (('\n' :: cs).take s.length) (('\n' :: cs).drop s.length)) more := by
  have hlength : s.length = 1 := hs ▸ lineBreak_length groups atLineStart cs
  have hkept (after : List Char) : s.kept ['\n'] after = ['\n'] := by
    rw [Step.kept, shorn_self (by decide), ite_self]
  rw [hlength, List.take_succ_cons, List.take_zero, List.drop_succ_cons, List.drop_zero, hkept]
  rw [hlength, List.drop_succ_cons, List.drop_zero] at hmore
  refine ⟨[], rfl, ?_⟩
  have hsame : lineBreak groups atLineStart more = s := by
    rw [← hs, lineBreak, lineBreak, opensStatement_shorn hmore]
  change lineBreak groups atLineStart more = { s with length := 1 }
  rw [hsame, ← hlength]

theorem word_trimmed (hc : BeginsWord c) (hs : step previous groups atLineStart c cs = s)
    (hvalid : ∀ piece ∈ s.piece, piece.problem = none) (hmore : Shorn ((c :: cs).drop s.length) more) :
    s.Agrees previous groups atLineStart c (s.kept ((c :: cs).take s.length) ((c :: cs).drop s.length)) more := by
  rw [step_word hc] at hs
  generalize hpiece : Piece.next (isWordStart previous) c cs = piece at hs
  subst hs
  have hproblem : piece.problem = none := hvalid piece rfl
  have hle : piece.length ≤ 1 + cs.length := hpiece ▸ (Piece.next_append_feed (hpiece ▸ hproblem) []).1
  obtain ⟨k, hk⟩ : ∃ k, piece.length = k + 1 := Nat.exists_eq_add_one.mpr (hpiece ▸ Piece.next_length_pos _ c cs)
  rw [Step.kept_token rfl]
  dsimp only at hmore ⊢
  rw [hk, List.drop_succ_cons] at hmore
  rw [hk, List.take_succ_cons]
  have hshorn : Shorn cs (cs.take k ++ more) := by
    have hwhole := hmore.append (cs.take k)
    rwa [List.take_append_drop] at hwhole
  have hsame : Piece.next (isWordStart previous) c (cs.take k ++ more) = Piece.next (isWordStart previous) c cs :=
    Piece.next_shorn (hpiece ▸ hproblem) hshorn ⟨more, by rw [hpiece, hk, Nat.add_sub_cancel]⟩
  have hlength : (c :: cs.take k).length = k + 1 := by
    rw [List.length_cons, List.length_take, Nat.min_eq_left (by omega)]
  refine ⟨cs.take k, rfl, ?_⟩
  rw [step_word hc, hsame, hpiece, hk, hlength]

/-- **A step takes what is kept of the characters that it takes in the whole text**, unless nothing is kept; then it is
    a step over a blank at the end of a line. -/
theorem step_trimmed (hs : step previous groups atLineStart c cs = s) (hvalid : ∀ piece ∈ s.piece, piece.problem = none)
    (hmore : Shorn ((c :: cs).drop s.length) more) (hlevel : AtLineEnd (c :: cs) ∨ previous' = previous) :
    let kept := s.kept ((c :: cs).take s.length) ((c :: cs).drop s.length)
    (kept = [] ∧ AtLineEnd ((c :: cs).drop s.length) ∧ s = ⟨1, none, groups, atLineStart, false⟩) ∨
      s.Agrees previous' groups atLineStart c kept more := by
  intro kept
  by_cases hblank : isBlank c = true
  · -- a blank is left out where the line ends behind it
    have hstep (previous : Option Char) (cs : List Char) :
        step previous groups atLineStart c cs = ⟨1, none, groups, atLineStart, false⟩ := if_pos hblank
    obtain rfl : s = ⟨1, none, groups, atLineStart, false⟩ := hs.symm.trans (hstep previous cs)
    have hkept : kept = shorn [c] cs := rfl
    rw [shorn] at hkept
    split at hkept
    · next hend => exact .inl ⟨hkept, hend.2, rfl⟩
    · exact .inr ⟨[], hkept, by rw [hkept]; exact hstep previous' more⟩
  · rw [step, if_neg hblank] at hs
    by_cases hsign : c = '#'
    · subst hsign
      exact .inr (comment_trimmed hs hvalid hmore previous')
    · rw [if_neg hsign] at hs
      by_cases hfeed : c = '\n'
      · subst hfeed
        exact .inr (lineBreak_trimmed hs hmore previous')
      · obtain rfl : previous' = previous :=
          hlevel.resolve_left fun hend => hfeed ((atLineEnd_other hblank).mp hend)
        have hword : BeginsWord c := ⟨hblank, hsign, hfeed⟩
        exact .inr (word_trimmed hword (by rw [← hs, step_word hword, if_neg hfeed]) hvalid hmore)

/-! ## Words and what they touch -/

/-- The end of a text, as a word. -/
def endWord : Word := ([], ⟨.endOfInput, 0, none, none⟩)

/-- The words of a text and its end, each with whether it is no line break and touches the word before it. For the first
    one `touching` says whether a word stands right before the text. -/
def fitted (touching : Bool) (previous : Option Char) (groups : Groups) (atLineStart : Bool) :
    List Char → List (Bool × Word)
  | [] => [(touching, endWord)]
  | c :: cs =>
      let s := step previous groups atLineStart c cs
      let lexeme := (c :: cs).take s.length
      let rest := fitted s.piece.isSome lexeme.getLast? s.groups s.atLineStart ((c :: cs).drop s.length)
      match s.piece with
      | some piece => (touching && piece.kind != .newline, lexeme, piece) :: rest
      | none => rest
termination_by text => text.length
decreasing_by
  have := step_length_pos previous groups atLineStart c cs
  simp only [List.length_drop, List.length_cons]
  omega

variable {touching touching' : Bool}

theorem fitted_step (hs : step previous groups atLineStart c cs = s) :
    fitted touching previous groups atLineStart (c :: cs) =
      (s.piece.toList.map fun piece => (touching && piece.kind != .newline, (c :: cs).take s.length, piece)) ++
        fitted s.piece.isSome ((c :: cs).take s.length).getLast? s.groups s.atLineStart ((c :: cs).drop s.length) := by
  rw [fitted, hs]
  cases hpiece : s.piece <;> rfl

theorem fitted_words (touching : Bool) (previous : Option Char) (groups : Groups) (atLineStart : Bool)
    (text : List Char) : (fitted touching previous groups atLineStart text).map Prod.snd =
      words previous groups atLineStart text ++ [endWord] := by
  fun_induction words previous groups atLineStart text generalizing touching with
  | case1 => rw [fitted]; rfl
  | case2 previous groups atLineStart c cs s lexeme rest piece hpiece ih =>
      rw [fitted_step (s := s) rfl, hpiece, List.map_append, ih]
      rfl
  | case3 previous groups atLineStart c cs s lexeme rest hpiece ih =>
      rw [fitted_step (s := s) rfl, hpiece, List.map_append, ih]
      rfl

/-- Only a line break is a word that begins at the end of a line. -/
theorem newline_of_atLineEnd {piece : Piece} (hend : AtLineEnd (c :: cs))
    (hpiece : (step previous groups atLineStart c cs).piece = some piece) : piece.kind = .newline := by
  by_cases hblank : isBlank c = true
  · rw [step, if_pos hblank] at hpiece
    contradiction
  · obtain rfl := (atLineEnd_other hblank).mp hend
    change (lineBreak groups atLineStart cs).piece = some piece at hpiece
    rw [lineBreak] at hpiece
    generalize (if (groups.hidesNewline && opensStatement cs) = true then groups.abandon else groups) = after at hpiece
    split at hpiece
    · contradiction
    · rw [← Option.some.inj hpiece]

/-- **Without the blanks at line ends the words are the same and touch each other as before**, line breaks apart. The
    two walks stand at the same place of the script, or one of them has yet to go over the blanks at a line end. -/
theorem fitted_trimmed (hvalid : ∀ w ∈ words previous groups atLineStart text, w.2.problem = none)
    (hlevel : AtLineEnd text ∨ touching' = touching ∧ previous' = previous) :
    fitted touching' previous' groups atLineStart (withoutTrailing previous groups atLineStart text) =
      fitted touching previous groups atLineStart text := by
  fun_induction withoutTrailing previous groups atLineStart text generalizing touching touching' previous' with
  | case1 =>
      obtain ⟨rfl, rfl⟩ := hlevel.resolve_left (by decide)
      rfl
  | case2 previous groups atLineStart c cs s =>
      rename_i lexeme after ih
      have hmore := withoutTrailing_shorn lexeme.getLast? s.groups s.atLineStart after
      obtain ⟨hpieces, hrest⟩ := words_problem hvalid
      generalize withoutTrailing lexeme.getLast? s.groups s.atLineStart after = more at ih hmore ⊢
      rw [fitted_step (s := s) rfl]
      rcases step_trimmed (s := s) rfl hpieces hmore (hlevel.imp_right And.right) with
        ⟨hkept, hend, hs⟩ | ⟨ds, hkept, hstep⟩
      · -- a blank is left out, and only the walk over the whole text goes over it
        have hkept : s.kept lexeme after = [] := hkept
        have hpiece : s.piece = none := congrArg Step.piece hs
        have hgroups : s.groups = groups := congrArg Step.groups hs
        have hline : s.atLineStart = atLineStart := congrArg Step.atLineStart hs
        have hsame : fitted touching' previous' s.groups s.atLineStart more =
            fitted false lexeme.getLast? s.groups s.atLineStart after := ih hrest (.inl hend)
        rw [hgroups, hline] at hsame
        rw [hkept, List.nil_append, hpiece, hgroups, hline]
        exact hsame
      · have hkept : s.kept lexeme after = c :: ds := hkept
        -- the first character is kept, and both walks take the same step
        have hsplit : c :: (ds ++ more) = s.kept lexeme after ++ more := by rw [hkept, List.cons_append]
        rw [hkept, List.cons_append, fitted_step hstep, hsplit]
        dsimp only
        rw [List.take_left, List.drop_left,
          ih hrest ((s.kept_getLast? lexeme after).symm.imp_right fun h => ⟨rfl, h⟩)]
        cases hpiece : s.piece with
        | none => rfl
        | some piece =>
            have hflag : (touching' && piece.kind != .newline) = (touching && piece.kind != .newline) := by
              rcases hlevel with hend | ⟨rfl, -⟩
              · rw [newline_of_atLineEnd hend hpiece, bne_self_eq_false, Bool.and_false, Bool.and_false]
              · rfl
            rw [Step.kept_token hpiece, Option.toList_some, List.map_singleton, List.map_singleton, hflag]

end Lexer

/-! ## Tokens and what they touch -/

/-- Whether tokens are no line breaks and touch what stands before them, where the first of them comes after a place. -/
def joints (stop : Int) : List Token → List Bool
  | [] => []
  | t :: ts => (stop == t.span.start && t.kind != .newline) :: joints t.span.stop ts

/-- The joint of two tokens that follow one another. -/
theorem joints_getElem? {i : Nat} {stop : Int} {ts : List Token} {t u : Token} (ht : ts[i]? = some t)
    (hu : ts[i + 1]? = some u) : (joints stop ts)[i + 1]? = some (t.touches u && u.kind != .newline) := by
  induction ts generalizing i stop with
  | nil => contradiction
  | cons v ts ih =>
      cases i with
      | zero =>
          obtain rfl := Option.some.inj ht
          cases ts with
          | nil => contradiction
          | cons w ts =>
              obtain rfl := Option.some.inj hu
              rfl
      | succ i => exact ih ht hu

/-- The joints of the tokens that a walk finds are those of the words of the text. -/
theorem Lexer.run_joints (file : String) (st : State) (text : List Char) (stop : Int) (hstop : stop ≤ st.place.offset) :
    ∃ ts, let ended := run file st text
      ended.tokens.toList ++ [.endMark file ended.place] = st.tokens.toList ++ ts ∧
        joints stop ts =
          (fitted (stop == (st.place.offset : Int)) st.previous st.groups st.atLineStart text).map Prod.fst := by
  fun_induction run file st text generalizing stop with
  | case1 st => exact ⟨_, rfl, by rw [fitted]; simp [joints, Token.endMark, Span.between]⟩
  | case2 st c cs s =>
      rename_i ih
      have hpos : 0 < ((c :: cs).take s.length).length := by
        have hstep : 0 < s.length := step_length_pos st.previous st.groups st.atLineStart c cs
        rw [List.length_take, List.length_cons]
        omega
      have hoffset := take_offset file st s ((c :: cs).take s.length)
      rw [fitted_step (s := s) rfl]
      cases hpiece : s.piece with
      | none =>
          -- nothing was taken, so the next token comes after a gap
          obtain ⟨ts, hts, hjoints⟩ := ih stop (by omega)
          have hapart : (stop == ((st.take file s ((c :: cs).take s.length)).place.offset : Int)) = false := by
            rw [beq_eq_false_iff_ne]
            omega
          rw [hapart] at hjoints
          refine ⟨ts, ?_, hjoints⟩
          rw [hts]
          simp only [State.take, hpiece]
      | some piece =>
          obtain ⟨ts, hts, hjoints⟩ := ih (st.take file s ((c :: cs).take s.length)).place.offset (Int.le_refl _)
          rw [beq_self_eq_true] at hjoints
          refine ⟨placed file st.place (st.place.advanceBy ((c :: cs).take s.length)) ((c :: cs).take s.length) piece ::
            ts, ?_, ?_⟩
          · rw [hts]
            simp only [State.take, hpiece, Array.toList_push, List.append_assoc, List.singleton_append]
          · rw [joints, List.map_append]
            exact congrArg _ hjoints

theorem tokenize_joints (source file : String) : joints (-1) (tokenize source file).tokens =
    (Lexer.fitted false none [] true source.toList).map Prod.fst := by
  obtain ⟨ts, hts, hjoints⟩ := Lexer.run_joints file (.first .empty) source.toList (-1) (by decide)
  have htokens : (tokenize source file).tokens = ts := by
    simp only [tokenize, Array.toList_push]
    exact hts
  rw [htokens]
  exact hjoints

/-- A script without the blanks at the ends of its lines, strings apart. -/
def trimmed (source : String) : String := String.ofList (Lexer.withoutTrailing none [] true source.toList)

/-- **Blanks at line ends leave no trace but before line breaks.** When a script with no invalid tokens has its blanks
    at line ends left out, except those in strings, it has the same tokens but for their places. They touch each other
    as before, unless the second of two is a line break. -/
theorem tokenize_trimmed (source file file' : String)
    (hvalid : ∀ t ∈ (tokenize source file).tokens, t.kind ≠ .invalid) :
    (tokenize (trimmed source) file').tokens.map Token.content = (tokenize source file).tokens.map Token.content ∧
      joints (-1) (tokenize (trimmed source) file').tokens = joints (-1) (tokenize source file).tokens := by
  have hfitted : Lexer.fitted false none [] true (trimmed source).toList =
      Lexer.fitted false none [] true source.toList := by
    rw [trimmed, String.toList_ofList]
    exact Lexer.fitted_trimmed (words_valid hvalid) (.inr ⟨rfl, rfl⟩)
  have hwords := congrArg (List.map Prod.snd) hfitted
  rw [Lexer.fitted_words, Lexer.fitted_words, List.append_cancel_right_eq] at hwords
  refine ⟨?_, ?_⟩
  · rw [tokenize_content, tokenize_content, hwords]
  · rw [tokenize_joints, tokenize_joints, hfitted]

/-- Blanks are left out of comments, too, but not of strings. -/
example : trimmed "let x =\t1 \t\r\n# a \n ### b \n ###\r\nlet y = `c \n`" =
    "let x =\t1\n# a\n ### b\n ###\nlet y = `c \n`" := by decide +kernel

end ShellFront
