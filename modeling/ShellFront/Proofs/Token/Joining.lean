import ShellFront.Proofs.Token.Stems

/-!
# Text that goes on after a line feed

No piece but a string goes over the end of a line, and a line feed ends the stem of a text. So a recogniser that finds
a piece without a problem finds the same when a line feed and more text follow: what it finds **lasts**. The same holds
of steps and, as long as no group is left open, of the walk over a whole text.

Two looks go further than a line. Text that is no string or comment may become one when its closing mark follows,
so bad text does not last; and the lexer gives up open groups where the next line that is not blank opens a
statement, so no group may be open at the end.

## Contents
- `takeWhile_append_feed`, `startsWith_append_feed`, `findText_append`: looking along a text.
- `Piece.Lasts`: strings and pieces that are told by the stem last; `Piece.next_append_feed`.
- `Lexer.step_append_feed`, `Lexer.run_append_feed`.
-/

namespace ShellFront

variable {p : Char → Bool} {cs more : List Char} {n : Nat}

/-! ## Classes of characters -/

theorem takeWhile_append_feed (hp : p '\n' = false) (cs more : List Char) :
    (cs ++ '\n' :: more).takeWhile p = cs.takeWhile p := by
  induction cs with
  | nil => simp [hp]
  | cons c cs ih => simp only [List.cons_append, List.takeWhile_cons, ih]

theorem runLength_append_feed (hp : p '\n' = false) (cs more : List Char) :
    runLength p (cs ++ '\n' :: more) = runLength p cs := by
  rw [runLength, takeWhile_append_feed hp, runLength]

theorem startsWith_append_feed (hp : p '\n' = false) (cs more : List Char) :
    startsWith p (cs ++ '\n' :: more) = startsWith p cs := by
  cases cs with
  | nil => exact hp
  | cons => rfl

theorem drop_append_feed (h : n ≤ cs.length) (more : List Char) :
    (cs ++ '\n' :: more).drop n = cs.drop n ++ '\n' :: more :=
  List.drop_append_of_le_length h

/-- What stands in a text stands there when more follows. -/
theorem findText_append {needle : List Char} (h : findText needle cs = some n) (more : List Char) :
    findText needle (cs ++ more) = some n := by
  induction cs generalizing n with
  | nil =>
      rw [findText] at h
      split at h
      · next hempty =>
          obtain rfl := Option.some.inj h
          obtain rfl := List.isEmpty_iff.mp hempty
          cases more <;> rfl
      · contradiction
  | cons c cs ih =>
      rw [findText] at h
      rw [List.cons_append, findText]
      split at h
      · next hstart =>
          obtain rfl := Option.some.inj h
          obtain ⟨rest, hrest⟩ := List.isPrefixOf_iff_prefix.mp hstart
          rw [← List.cons_append, ← hrest, List.append_assoc, if_pos]
          exact List.isPrefixOf_iff_prefix.mpr (List.prefix_append _ _)
      · next hstart =>
          obtain ⟨m, hm, rfl⟩ := Option.map_eq_some_iff.mp h
          -- the text is long enough to hold what is searched for, so more text does not complete it
          have hlength := congrArg List.length (findText_eq_some hm).1
          simp only [List.length_append, List.length_take, List.length_drop] at hlength
          have hstart' : ¬ needle.isPrefixOf (c :: (cs ++ more)) = true := by
            intro hp
            refine hstart (List.isPrefixOf_iff_prefix.mpr ?_)
            refine List.prefix_of_prefix_length_le (List.isPrefixOf_iff_prefix.mp hp)
              (List.prefix_append (c :: cs) more) ?_
            rw [List.length_cons]
            omega
          rw [if_neg hstart', ih hm, Option.map_some]

theorem findText_le {needle : List Char} (h : findText needle cs = some n) :
    n + needle.length ≤ cs.length := by
  obtain ⟨htext, hle, -⟩ := findText_eq_some h
  have hlength := congrArg List.length htext
  simp only [List.length_append, List.length_take, List.length_drop] at hlength
  omega

theorem isPrefixOf_append_feed {needle : List Char} (h : '\n' ∉ needle) (cs more : List Char) :
    needle.isPrefixOf (cs ++ '\n' :: more) = needle.isPrefixOf cs := by
  induction needle generalizing cs with
  | nil => simp
  | cons d needle ih =>
      rw [List.mem_cons, not_or] at h
      obtain ⟨hd, hneedle⟩ := h
      cases cs with
      | nil =>
          have hfeed : (d == '\n') = false := beq_eq_false_iff_ne.mpr (Ne.symm hd)
          rw [List.nil_append, List.isPrefixOf, List.isPrefixOf, hfeed, Bool.false_and]
          exact List.cons_ne_nil d needle
      | cons c cs => rw [List.cons_append, List.isPrefixOf, List.isPrefixOf, ih hneedle]

namespace Piece

/-! ## What lasts -/

/-- What was found in a text **lasts** when more text follows: nothing stays nothing, and a piece without a
    problem lies in the text and stays the same. -/
structure Lasts (cs : List Char) (x y : Option Piece) : Prop where
  nothing : x = none → y = none
  found : ∀ piece, x = some piece → piece.problem = none → piece.length ≤ 1 + cs.length ∧ y = some piece

variable {x y x' y' : Option Piece} {piece piece' : Piece}

theorem Lasts.none (cs : List Char) : Lasts cs none none :=
  ⟨fun _ => rfl, fun _ h => absurd h (Option.some_ne_none _).symm⟩

theorem Lasts.same (hlength : piece.length ≤ 1 + cs.length) : Lasts cs (some piece) (some piece) :=
  ⟨id, fun _ h _ => ⟨Option.some.inj h ▸ hlength, h⟩⟩

/-- Bad text may come to be something else. -/
theorem Lasts.bad (h : piece.problem ≠ Option.none) : Lasts cs (some piece) (some piece') :=
  ⟨fun h => absurd h (Option.some_ne_none _), fun _ hpiece hproblem =>
    absurd (Option.some.inj hpiece ▸ hproblem) h⟩

theorem Lasts.or (h : Lasts cs x y) (h' : Lasts cs x' y') : Lasts cs (x.or x') (y.or y') := by
  cases x with
  | none =>
      rw [h.nothing rfl, Option.none_or, Option.none_or]
      exact h'
  | some piece =>
      refine ⟨fun h => absurd h (Option.some_ne_none _), fun piece' hpiece hproblem => ?_⟩
      obtain ⟨hlength, hsame⟩ := h.found piece' hpiece hproblem
      exact ⟨hlength, by rw [hsame]; rfl⟩

/-! ## Strings -/

/-- The styles of strings, told by their first characters. -/
theorem string?_eq (c : Char) (cs : List Char) : string? c cs =
    if c = '\x22' then
      if ['\x22', '\x22'].isPrefixOf cs then
        some (verbatim .triple 3 ['\x22', '\x22', '\x22'] (cs.drop 2) (unclosed cs))
      else some (escapedString .double '\x22' cs (unclosed cs))
    else if c = 'r' then
      if startsWith (· == '\x22') cs then some (verbatim .raw 2 ['\x22'] (cs.drop 1) (unclosed cs)) else none
    else if c = '\x60' then some (verbatim .backtick 1 ['\x60'] (cs.drop 0) (unclosed cs))
    else if c = '\x27' then some (escapedString .single '\x27' cs (unclosed cs))
    else none := by
  unfold string?
  split
  · rfl
  · rfl
  · rfl
  · next hshort =>
      rw [if_pos rfl, if_neg]
      intro h
      obtain ⟨rest, rfl⟩ := List.isPrefixOf_iff_prefix.mp h
      exact hshort rest rfl
  · rfl
  · next hbacktick hdouble hsingle _ hraw =>
      rw [if_neg hdouble, if_neg hbacktick, if_neg hsingle]
      split
      · next hr =>
          rw [if_neg]
          intro hstart
          cases cs with
          | nil => exact Bool.false_ne_true hstart
          | cons d ds =>
              obtain rfl : d = '\x22' := eq_of_beq hstart
              exact hraw ds hr rfl
      · rfl

/-- **Strings in two texts with the same stem** are the same if what stands in their quotes is read alike. This needs to
    be shown for a piece only where something is known of it. -/
theorem string?_congr {c : Char} {cs' : List Char} {R : Piece → Prop} (hstem : stem cs' = stem cs)
    (h : ∀ piece, string? c cs = some piece → R piece)
    (hverbatim : ∀ (style : StringStyle) (needle : List Char) (k : Nat), (∀ d ∈ needle, d ∉ stops) →
      k ≤ (stem cs).length → R (verbatim style (k + 1) needle (cs.drop k) (unclosed cs)) →
      verbatim style (k + 1) needle (cs'.drop k) (unclosed cs') =
        verbatim style (k + 1) needle (cs.drop k) (unclosed cs))
    (hescaped : ∀ (style : StringStyle) (delimiter : Char), '\n' ≠ delimiter →
      R (escapedString style delimiter cs (unclosed cs)) →
      escapedString style delimiter cs' (unclosed cs') = escapedString style delimiter cs (unclosed cs)) :
    string? c cs' = string? c cs := by
  have hquotes : ['\x22', '\x22'].isPrefixOf cs' = ['\x22', '\x22'].isPrefixOf cs := by
    rw [← isPrefixOf_stem (by decide), hstem, isPrefixOf_stem (by decide)]
  have hquote : startsWith (· == '\x22') cs' = startsWith (· == '\x22') cs := by
    rw [← startsWith_stem (by decide), hstem, startsWith_stem (by decide)]
  revert h
  rw [string?_eq c cs', string?_eq c cs, hquotes, hquote]
  split
  · split
    · next htriple =>
        have hlength : 2 ≤ (stem cs).length := by
          rw [← isPrefixOf_stem (by decide)] at htriple
          exact (List.isPrefixOf_iff_prefix.mp htriple).length_le
        exact fun h => congrArg some (hverbatim _ _ 2 (by decide) hlength (h _ rfl))
    · exact fun h => congrArg some (hescaped _ _ (by decide) (h _ rfl))
  · split
    · split
      · next hraw =>
          have hlength : 1 ≤ (stem cs).length := stem_length_pos (by decide) hraw
          exact fun h => congrArg some (hverbatim _ _ 1 (by decide) hlength (h _ rfl))
      · exact fun _ => rfl
    · split
      · exact fun h => congrArg some (hverbatim _ _ 0 (by decide) (Nat.zero_le _) (h _ rfl))
      · split
        · exact fun h => congrArg some (hescaped _ _ (by decide) (h _ rfl))
        · exact fun _ => rfl

theorem unclosed_problem (cs : List Char) : (unclosed cs).problem ≠ none := Option.some_ne_none _

theorem verbatim_found {style : StringStyle} {opener : Nat} {needle body : List Char} {otherwise : Piece}
    (h : findText needle body = some n) : verbatim style opener needle body otherwise =
      ⟨.string style, opener + n + needle.length, some (body.take n), none⟩ := by
  rw [verbatim, h]

theorem verbatim_lasts (style : StringStyle) (needle : List Char) {k : Nat} (hk : k ≤ cs.length)
    (more : List Char) : Lasts cs (some (verbatim style (k + 1) needle (cs.drop k) (unclosed cs)))
      (some (verbatim style (k + 1) needle ((cs ++ '\n' :: more).drop k) (unclosed (cs ++ '\n' :: more)))) := by
  rw [drop_append_feed hk]
  cases hfound : findText needle (cs.drop k) with
  | none =>
      refine .bad ?_
      rw [verbatim, hfound]
      exact unclosed_problem cs
  | some n =>
      have hle := findText_le hfound
      rw [List.length_drop] at hle
      have hbody : n ≤ (cs.drop k).length := by rw [List.length_drop]; omega
      rw [verbatim_found hfound, verbatim_found (findText_append hfound _),
        List.take_append_of_le_length hbody]
      refine .same ?_
      dsimp only
      omega

/-- A character that is no backslash closes the string or belongs to it. -/
theorem closingQuote_cons {delimiter c : Char} (hc : c ≠ '\\') (cs : List Char) :
    closingQuote delimiter (c :: cs) =
      if c = delimiter then some 0 else (closingQuote delimiter cs).map (· + 1) := by
  rw [closingQuote]
  · exact fun h => absurd h hc
  · exact fun _ _ h => absurd h hc

theorem ne_backslash {c : Char} (h₁ : c = '\\' → cs = [] → False) (h₂ : ∀ d ds, c = '\\' → cs = d :: ds → False) :
    c ≠ '\\' := by
  intro hc
  cases cs with
  | nil => exact h₁ hc rfl
  | cons d ds => exact h₂ d ds hc rfl

/-- A quote that closes a string lies in the text and closes the string when more follows. -/
theorem closingQuote_append {delimiter : Char} (h : closingQuote delimiter cs = some n) (more : List Char) :
    n + 1 ≤ cs.length ∧ closingQuote delimiter (cs ++ more) = some n := by
  fun_induction closingQuote delimiter cs generalizing n with
  | case1 => contradiction
  | case2 => contradiction
  | case3 d cs ih =>
      obtain ⟨m, hm, rfl⟩ := Option.map_eq_some_iff.mp h
      obtain ⟨hle, hsame⟩ := ih hm
      refine ⟨?_, ?_⟩
      · simp only [List.length_cons]
        omega
      · rw [List.cons_append, List.cons_append, closingQuote, hsame, Option.map_some]
  | case4 cs h₁ h₂ =>
      obtain rfl := Option.some.inj h
      refine ⟨Nat.succ_le_succ (Nat.zero_le _), ?_⟩
      rw [List.cons_append, closingQuote_cons (ne_backslash h₁ h₂), if_pos rfl]
  | case5 c cs h₁ h₂ hne ih =>
      obtain ⟨m, hm, rfl⟩ := Option.map_eq_some_iff.mp h
      obtain ⟨hle, hsame⟩ := ih hm
      refine ⟨Nat.succ_le_succ hle, ?_⟩
      rw [List.cons_append, closingQuote_cons (ne_backslash h₁ h₂), if_neg hne, hsame, Option.map_some]

theorem escapedString_found {style : StringStyle} {delimiter : Char} {body : List Char} {otherwise : Piece}
    (h : closingQuote delimiter body = some n) : escapedString style delimiter body otherwise =
      ⟨.string style, n + 2, some (unescape (body.take n)), none⟩ := by
  rw [escapedString, h]

theorem escapedString_lasts (style : StringStyle) (delimiter : Char) (cs more : List Char) :
    Lasts cs (some (escapedString style delimiter cs (unclosed cs)))
      (some (escapedString style delimiter (cs ++ '\n' :: more) (unclosed (cs ++ '\n' :: more)))) := by
  cases hfound : closingQuote delimiter cs with
  | none =>
      refine .bad ?_
      rw [escapedString, hfound]
      exact unclosed_problem cs
  | some n =>
      obtain ⟨hle, hsame⟩ := closingQuote_append hfound ('\n' :: more)
      have hbody : n ≤ cs.length := Nat.le_of_succ_le hle
      rw [escapedString_found hfound, escapedString_found hsame, List.take_append_of_le_length hbody]
      refine .same ?_
      dsimp only
      omega

theorem string?_lasts (c : Char) (cs more : List Char) :
    Lasts cs (string? c cs) (string? c (cs ++ '\n' :: more)) := by
  rw [string?_eq, string?_eq, isPrefixOf_append_feed (by decide), startsWith_append_feed (by decide)]
  split
  · split
    · next hquotes =>
        have hlength := (List.isPrefixOf_iff_prefix.mp hquotes).length_le
        exact verbatim_lasts .triple _ hlength more
    · exact escapedString_lasts .double _ cs more
  · split
    · split
      · next hquote => exact verbatim_lasts .raw _ (length_pos_of_startsWith hquote) more
      · exact .none cs
    · split
      · exact verbatim_lasts .backtick _ (Nat.zero_le _) more
      · split
        · exact escapedString_lasts .single _ cs more
        · exact .none cs

/-! ## Pieces that are no strings -/

/-- A recogniser that keeps to the stem finds the same when a line feed follows. -/
theorem OnStem.lasts {f : List Char → Option Piece} (h : OnStem f) (cs more : List Char) :
    Lasts cs (f cs) (f (cs ++ '\n' :: more)) := by
  have hsame : f (cs ++ '\n' :: more) = f cs := by
    rw [← h.same, stem, takeWhile_append_feed (by decide), ← stem, h.same]
  exact ⟨hsame.trans, fun piece hpiece _ => ⟨h.length_le hpiece, hsame.trans hpiece⟩⟩

/-! ## The next piece -/

/-- **A piece without a problem lasts.** -/
theorem next_append_feed {wordStart : Bool} {c : Char} (h : (next wordStart c cs).problem = none)
    (more : List Char) : (next wordStart c cs).length ≤ 1 + cs.length ∧
      next wordStart c (cs ++ '\n' :: more) = next wordStart c cs := by
  have hall := (string?_lasts c cs more).or ((unquoted?_onStem wordStart c).lasts cs more)
  rw [next_eq_unquoted] at h ⊢
  rw [next_eq_unquoted]
  generalize Option.or _ (unquoted? wordStart c cs) = x at h hall ⊢
  generalize Option.or _ (unquoted? wordStart c (cs ++ '\n' :: more)) = y at hall ⊢
  cases x with
  | none => exact absurd h (Option.some_ne_none _)
  | some piece =>
      obtain ⟨hlength, rfl⟩ := hall.found piece rfl h
      exact ⟨hlength, rfl⟩

end Piece

namespace Lexer

/-! ## Steps -/

/-- Whether a text is only blanks and line feeds. -/
def Blank (text : List Char) : Prop := ∀ c ∈ text, (isBlank c || c == '\n') = true

/-- Whether the next line opens a statement is told by the first line that is not blank. -/
theorem opensStatement_append_feed (h : ¬ Blank cs) (more : List Char) :
    opensStatement (cs ++ '\n' :: more) = opensStatement cs := by
  have hdrop : (cs ++ '\n' :: more).dropWhile (fun c => isBlank c || c == '\n') =
      cs.dropWhile (fun c => isBlank c || c == '\n') ++ '\n' :: more := by
    induction cs with
    | nil => exact absurd (fun c hc => absurd hc List.not_mem_nil) h
    | cons c cs ih =>
        rw [List.cons_append, List.dropWhile_cons, List.dropWhile_cons]
        split
        · next hc =>
            refine ih fun hblank => h fun d hd => ?_
            rcases List.mem_cons.mp hd with rfl | hd
            · exact hc
            · exact hblank d hd
        · rfl
  rw [opensStatement, opensStatement, hdrop, takeWhile_append_feed (by decide)]

theorem opensStatement_blank (h : Blank cs) : opensStatement cs = false := by
  have hdrop : cs.dropWhile (fun c => isBlank c || c == '\n') = [] := by
    induction cs with
    | nil => rfl
    | cons c cs ih =>
        rw [List.dropWhile_cons, if_pos (h c List.mem_cons_self)]
        exact ih fun d hd => h d (List.mem_cons_of_mem _ hd)
  rw [opensStatement, hdrop]
  rfl

theorem comment_append_feed {groups : Groups} {atLineStart : Bool}
    (h : ∀ piece ∈ (comment groups atLineStart cs).piece, piece.problem = none) (more : List Char) :
    (comment groups atLineStart cs).length ≤ 1 + cs.length ∧
      comment groups atLineStart (cs ++ '\n' :: more) = comment groups atLineStart cs := by
  rw [comment] at h ⊢
  rw [comment, isPrefixOf_append_feed (by decide), runLength_append_feed (by decide)]
  split
  · next hopen =>
      have hlength : 2 ≤ cs.length := (List.isPrefixOf_iff_prefix.mp hopen).length_le
      rw [if_pos hopen] at h
      rw [drop_append_feed hlength]
      cases hfound : findText ['#', '#', '#'] (cs.drop 2) with
      | none =>
          rw [hfound] at h
          exact absurd (h _ rfl) (Option.some_ne_none _)
      | some n =>
          have hle := findText_le hfound
          rw [List.length_drop, List.length_cons, List.length_cons, List.length_cons, List.length_nil] at hle
          rw [findText_append hfound]
          refine ⟨?_, rfl⟩
          dsimp only
          omega
  · have hle := runLength_le (· != '\n') cs
    exact ⟨by dsimp only; omega, rfl⟩

/-- **A step without a problem is the same when more lines follow**, unless it has to look beyond the text whether
    a statement begins there. -/
theorem step_append_feed {previous : Option Char} {groups : Groups} {atLineStart : Bool} {c : Char}
    (h : ∀ piece ∈ (step previous groups atLineStart c cs).piece, piece.problem = none)
    (hblank : c = '\n' → groups.hidesNewline = true → ¬ Blank cs) (more : List Char) :
    (step previous groups atLineStart c cs).length ≤ 1 + cs.length ∧
      step previous groups atLineStart c (cs ++ '\n' :: more) = step previous groups atLineStart c cs := by
  rw [step] at h ⊢
  rw [step]
  split
  · exact ⟨Nat.le_add_right 1 _, rfl⟩
  · next hspace =>
      rw [if_neg hspace] at h
      split
      · next hsign =>
          rw [if_pos hsign] at h
          exact comment_append_feed h more
      · next hsign =>
          rw [if_neg hsign] at h
          split
          · next hfeed =>
              -- a line feed in a group looks ahead for a statement, and what is left of the text decides
              have hopens : (groups.hidesNewline && opensStatement (cs ++ '\n' :: more)) =
                  (groups.hidesNewline && opensStatement cs) := by
                cases hhides : groups.hidesNewline with
                | false => rfl
                | true => rw [opensStatement_append_feed (hblank hfeed hhides)]
              rw [lineBreak, lineBreak, hopens]
              refine ⟨?_, rfl⟩
              generalize (if (groups.hidesNewline && opensStatement cs) = true then groups.abandon else
                groups) = after
              split <;> exact Nat.le_add_right 1 _
          · next hfeed =>
              rw [if_neg hfeed] at h
              obtain ⟨hlength, hsame⟩ := Piece.next_append_feed (h _ rfl) more
              exact ⟨hlength, by rw [hsame]⟩

/-! ## The walk -/

variable {file : String} {st : State}

/-- A walk keeps the tokens that it has found. -/
theorem run_tokens (file : String) (st : State) (text : List Char) :
    st.tokens.toList <+: (run file st text).tokens.toList := by
  fun_induction run file st text with
  | case1 => exact List.prefix_refl _
  | case2 st c cs s ih =>
      refine List.IsPrefix.trans ?_ ih
      simp only [State.take]
      split
      · rw [Array.toList_push]
        exact List.prefix_append _ _
      · exact List.prefix_refl _

/-- Over blanks and line feeds, groups that hide line feeds stay open. -/
theorem run_blank (file : String) {text : List Char} (htext : Blank text) (h : st.groups.hidesNewline = true) :
    (run file st text).groups.hidesNewline = true := by
  induction text generalizing st with
  | nil =>
      rw [run]
      exact h
  | cons c cs ih =>
      have hcs : Blank cs := fun d hd => htext d (List.mem_cons_of_mem _ hd)
      have hstep : (step st.previous st.groups st.atLineStart c cs).length = 1 ∧
          (step st.previous st.groups st.atLineStart c cs).groups = st.groups := by
        rw [step]
        split
        · exact ⟨rfl, rfl⟩
        · next hspace =>
            obtain rfl : c = '\n' := by simpa [hspace] using htext c List.mem_cons_self
            rw [if_neg (by decide), if_pos rfl, lineBreak, opensStatement_blank hcs, Bool.and_false]
            rw [if_neg Bool.false_ne_true, h, Bool.or_true]
            exact ⟨rfl, rfl⟩
      rw [run, hstep.1]
      exact ih hcs (by rw [State.take, hstep.2]; exact h)

/-- **A text is read the same when more lines follow**, if all its tokens are valid and no group is left open that
    hides the line feed. -/
theorem run_append_feed (file : String) (st : State) (text more : List Char)
    (hvalid : ∀ t ∈ (run file st text).tokens.toList, t.kind ≠ .invalid)
    (hhides : (run file st text).groups.hidesNewline = false) :
    run file st (text ++ '\n' :: more) = run file (run file st text) ('\n' :: more) := by
  fun_induction run file st text with
  | case1 => rfl
  | case2 st c cs s ih =>
      -- a piece with a problem would have left an invalid token
      have hproblem : ∀ piece ∈ s.piece, piece.problem = none := by
        intro piece hpiece
        have hproper : piece.Proper := by
          rcases step_trivia_or_piece st.previous st.groups st.atLineStart c cs with ⟨hnone, -⟩ | ⟨piece', hs, hproper⟩
          · exact absurd (hnone.symm.trans hpiece) (Option.some_ne_none _).symm
          · exact Option.some.inj (hs.symm.trans hpiece) ▸ hproper
        cases hproblem : piece.problem with
        | none => rfl
        | some problem =>
            refine absurd (hproper.problem_iff.mp (hproblem ▸ rfl)) (hvalid (placed file st.place
              (st.place.advanceBy ((c :: cs).take s.length)) ((c :: cs).take s.length) piece)
              ((run_tokens file _ _).subset ?_))
            rw [State.take, Option.mem_def.mp hpiece]
            simp
      -- if only blanks were left of the text, the group that hides its line break would stay open
      have hblank : c = '\n' → st.groups.hidesNewline = true → ¬ Blank cs := by
        intro hc hopen hcs
        have hall : Blank (c :: cs) := by
          intro d hd
          rcases List.mem_cons.mp hd with rfl | hd
          · rw [hc]
            rfl
          · exact hcs d hd
        have hstill := run_blank file hall hopen
        rw [run] at hstill
        exact absurd (hhides.symm.trans hstill) Bool.false_ne_true
      obtain ⟨hlength, hsame⟩ := step_append_feed hproblem hblank more
      rw [List.cons_append, run, hsame, ← List.cons_append, List.take_append_of_le_length (by rw [List.length_cons]; omega),
        List.drop_append_of_le_length (by rw [List.length_cons]; omega)]
      exact ih hvalid hhides

end Lexer

end ShellFront
