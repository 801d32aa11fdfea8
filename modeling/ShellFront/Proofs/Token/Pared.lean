import ShellFront.Proofs.Token.Alone

/-!
# Pieces before line comments

A text is **pared** when line comments are left out of it, from the number sign to the end of the line. A pared text
has the same stem, so all pieces but strings are found in it as before. A string that is closed lies in what stands
before the comments. A string that is not closed stays so: where no closing quote is found in a whole text, none is
found in the pared one, since nothing new comes to stand side by side but the end of a line, which belongs to no quote,
and a backslash at the end of a line hides nothing but the line feed.

## Contents
- `Pared`, `ParedAfter`.
- Searches that find nothing: `findText_pared`, `Piece.closingQuote_pared`.
- `Piece.string?_pared`, `Piece.next_pared`.
-/

namespace ShellFront

variable {c : Char} {cs cs' text more : List Char} {n : Nat}

/-! ## Leaving out line comments -/

/-- What is left of a text when line comments are left out: number signs that open no block comment, each with the rest
    of its line. -/
inductive Pared : List Char → List Char → Prop where
  | nil : Pared [] []
  | keep {text more : List Char} (c : Char) (rest : Pared text more) : Pared (c :: text) (c :: more)
  | skip {text more : List Char} (hopen : ¬ ['#', '#'].isPrefixOf text = true)
      (rest : Pared (text.dropWhile (· != '\n')) more) : Pared ('#' :: text) more

theorem Pared.append (h : Pared text more) (front : List Char) : Pared (front ++ text) (front ++ more) := by
  induction front with
  | nil => exact h
  | cons c front ih => exact .keep c ih

theorem Pared.eq_nil (h : Pared [] more) : more = [] := by
  cases h
  rfl

/-- A text that is empty or begins with a line feed: what stands where a line ends. -/
def LineEnd (text : List Char) : Prop := ∀ c ∈ text.head?, c = '\n'

theorem lineEnd_dropWhile (text : List Char) : LineEnd (text.dropWhile (· != '\n')) := by
  intro c hc
  have hstop := List.head?_dropWhile_not (· != '\n') text
  rw [Option.mem_def.mp hc] at hstop
  simpa using hstop

theorem LineEnd.pared (hend : LineEnd text) (h : Pared text more) : LineEnd more := by
  cases h with
  | nil => exact hend
  | keep c rest => exact hend
  | skip hopen rest => exact absurd (hend '#' rfl) (by decide)

/-- A line that ends after some characters is as long as these are. -/
theorem LineEnd.runLength (hend : LineEnd more) (hline : ∀ c ∈ text, (c != '\n') = true) :
    runLength (· != '\n') (text ++ more) = text.length := by
  have hnone : more.takeWhile (· != '\n') = [] := by
    cases more with
    | nil => rfl
    | cons c more =>
        obtain rfl : c = '\n' := hend c rfl
        rfl
  rw [ShellFront.runLength, List.takeWhile_append_of_pos hline, hnone, List.append_nil]

theorem LineEnd.stem (hend : LineEnd text) : stem text = [] := by
  cases text with
  | nil => rfl
  | cons c text =>
      obtain rfl : c = '\n' := hend c rfl
      exact stem_ends (by decide) text

/-- **A pared text has the same stem.** -/
theorem Pared.stem (h : Pared text more) : stem text = stem more := by
  induction h with
  | nil => rfl
  | keep c rest ih => exact stem_append ih [c]
  | skip hopen rest ih => rw [((lineEnd_dropWhile _).pared rest).stem, stem_ends (by decide)]

/-- What is told by the stem is the same of a pared text. -/
theorem Pared.same {α : Type} {f : List Char → α} (hf : ∀ cs, f (ShellFront.stem cs) = f cs)
    (h : Pared text more) : f more = f text := by
  rw [← hf, ← h.stem, hf]

theorem Pared.drop (h : Pared text more) (hn : n ≤ (ShellFront.stem text).length) :
    Pared (text.drop n) (more.drop n) := by
  induction h generalizing n with
  | nil => rw [List.drop_nil]; exact .nil
  | @keep text more c rest ih =>
      cases n with
      | zero => exact .keep c rest
      | succ n =>
          by_cases hc : c ∈ stops
          · rw [stem_ends hc] at hn
            exact absurd hn (Nat.not_succ_le_zero n)
          · rw [stem_cons hc] at hn
            exact ih (Nat.le_of_succ_le_succ hn)
  | skip hopen rest =>
      rw [stem_ends (by decide)] at hn
      obtain rfl := Nat.le_zero.mp hn
      exact .skip hopen rest

/-- A text is pared after its first characters. -/
def ParedAfter (n : Nat) (cs cs' : List Char) : Prop := ∃ more, Pared (cs.drop n) more ∧ cs' = cs.take n ++ more

theorem ParedAfter.pared (h : ParedAfter n cs cs') : Pared cs cs' := by
  obtain ⟨more, hmore, rfl⟩ := h
  have happend := hmore.append (cs.take n)
  rwa [List.take_append_drop] at happend

/-! ## What is not found -/

theorem findText_cons_eq_none {needle : List Char} : findText needle (c :: cs) = none ↔
    ¬ needle.isPrefixOf (c :: cs) = true ∧ findText needle cs = none := by
  rw [findText]
  split
  · next h => exact ⟨fun hnone => absurd hnone (Option.some_ne_none _), fun hnone => absurd h hnone.1⟩
  · next h =>
      rw [Option.map_eq_none_iff]
      exact ⟨fun hnone => ⟨h, hnone⟩, fun hnone => hnone.2⟩

theorem findText_suffix_eq_none {needle : List Char} (hsuffix : cs' <:+ cs) (h : findText needle cs = none) :
    findText needle cs' = none := by
  obtain ⟨front, rfl⟩ := hsuffix
  induction front with
  | nil => exact h
  | cons c front ih => exact ih (findText_cons_eq_none.mp h).2

/-- A text that holds no stops is not found in a pared text if it was not found before. -/
theorem findText_pared {needle : List Char} (hneedle : ∀ d ∈ needle, d ∉ stops) (hpared : Pared text more)
    (h : findText needle text = none) : findText needle more = none := by
  induction hpared with
  | nil => exact h
  | keep c rest ih =>
      obtain ⟨hstart, hnone⟩ := findText_cons_eq_none.mp h
      refine findText_cons_eq_none.mpr ⟨?_, ih hnone⟩
      rwa [(Pared.keep c rest).same (isPrefixOf_stem hneedle)]
  | skip hopen rest ih =>
      exact ih (findText_suffix_eq_none (List.dropWhile_suffix _) (findText_cons_eq_none.mp h).2)

namespace Piece

theorem closingQuote_cons_eq_none {delimiter : Char} (hc : c ≠ '\\') :
    closingQuote delimiter (c :: cs) = none ↔ c ≠ delimiter ∧ closingQuote delimiter cs = none := by
  rw [closingQuote_cons hc]
  split
  · next h => exact ⟨fun hnone => absurd hnone (Option.some_ne_none _), fun hnone => absurd h hnone.1⟩
  · next h =>
      rw [Option.map_eq_none_iff]
      exact ⟨fun hnone => ⟨h, hnone⟩, fun hnone => hnone.2⟩

/-- A backslash hides the character after it. -/
theorem closingQuote_hides_eq_none {delimiter : Char} (d : Char) :
    closingQuote delimiter ('\\' :: d :: cs) = none ↔ closingQuote delimiter cs = none := Option.map_eq_none_iff

/-- Where no quote closes a string, none does from the end of the line on, whether or not a backslash stands before
    that. -/
theorem closingQuote_dropWhile {delimiter : Char} (hfeed : '\n' ≠ delimiter)
    (h : closingQuote delimiter cs = none) : closingQuote delimiter (cs.dropWhile (· != '\n')) = none ∧
      closingQuote delimiter ('\\' :: cs.dropWhile (· != '\n')) = none := by
  -- what stands at the end of the line counts, hidden or not
  have hends (cs : List Char) (hrest : closingQuote delimiter cs = none) :
      closingQuote delimiter ('\n' :: cs) = none ∧ closingQuote delimiter ('\\' :: '\n' :: cs) = none :=
    ⟨(closingQuote_cons_eq_none (by decide)).mpr ⟨hfeed, hrest⟩, (closingQuote_hides_eq_none _).mpr hrest⟩
  fun_induction closingQuote delimiter cs with
  | case1 => exact ⟨rfl, rfl⟩
  | case2 => exact ⟨rfl, rfl⟩
  | case3 d cs ih =>
      have hrest := (closingQuote_hides_eq_none d).mp h
      rw [List.dropWhile_cons, if_pos (by decide), List.dropWhile_cons]
      split
      · exact ih hrest
      · next hd =>
          obtain rfl : d = '\n' := by simpa using hd
          exact hends cs hrest
  | case4 cs h₁ h₂ => contradiction
  | case5 c cs h₁ h₂ hne ih =>
      have hrest := Option.map_eq_none_iff.mp h
      rw [List.dropWhile_cons]
      split
      · exact ih hrest
      · next hc =>
          obtain rfl : c = '\n' := by simpa using hc
          exact hends cs hrest

/-- A string that no quote closes in a text is closed by none in a pared text. The same is said of what follows a
    backslash, so that the characters can be gone through one by one. -/
theorem closingQuote_pared {delimiter : Char} (hfeed : '\n' ≠ delimiter) (hpared : Pared text more) :
    (closingQuote delimiter text = none → closingQuote delimiter more = none) ∧
      (closingQuote delimiter ('\\' :: text) = none → closingQuote delimiter ('\\' :: more) = none) := by
  induction hpared with
  | nil => exact ⟨id, id⟩
  | keep c rest ih =>
      refine ⟨fun h => ?_, fun h => ?_⟩
      · by_cases hc : c = '\\'
        · subst hc
          exact ih.2 h
        · obtain ⟨hne, hrest⟩ := (closingQuote_cons_eq_none hc).mp h
          exact (closingQuote_cons_eq_none hc).mpr ⟨hne, ih.1 hrest⟩
      · exact (closingQuote_hides_eq_none c).mpr (ih.1 ((closingQuote_hides_eq_none c).mp h))
  | skip hopen rest ih =>
      refine ⟨fun h => ?_, fun h => ?_⟩
      · obtain ⟨-, hrest⟩ := (closingQuote_cons_eq_none (by decide)).mp h
        exact ih.1 (closingQuote_dropWhile hfeed hrest).1
      · exact ih.2 (closingQuote_dropWhile hfeed ((closingQuote_hides_eq_none _).mp h)).2

/-! ## Strings -/

/-- A string that is not closed goes to the end of its line, so no line comment on that line is left out. -/
theorem unclosed_pared (h : ParedAfter ((unclosed cs).length - 1) cs cs') : unclosed cs' = unclosed cs := by
  have hlength : (unclosed cs).length - 1 = runLength (· != '\n') cs := Nat.add_sub_cancel_left ..
  obtain ⟨more, hmore, rfl⟩ := h
  rw [hlength, drop_runLength] at hmore
  have hend := (lineEnd_dropWhile cs).pared hmore
  have hrun : runLength (· != '\n') (cs.takeWhile (· != '\n') ++ more) = runLength (· != '\n') cs :=
    hend.runLength (List.all_eq_true.mp List.all_takeWhile)
  rw [hlength, take_runLength, unclosed, unclosed, hrun]

theorem verbatim_pared {style : StringStyle} {needle : List Char} (hneedle : ∀ d ∈ needle, d ∉ stops)
    (k : Nat) (hk : k ≤ (stem cs).length)
    (h : ParedAfter ((verbatim style (k + 1) needle (cs.drop k) (unclosed cs)).length - 1) cs cs') :
    verbatim style (k + 1) needle (cs'.drop k) (unclosed cs') =
      verbatim style (k + 1) needle (cs.drop k) (unclosed cs) := by
  cases hfound : findText needle (cs.drop k) with
  | none =>
      have hopen : verbatim style (k + 1) needle (cs.drop k) (unclosed cs) = unclosed cs := by rw [verbatim, hfound]
      rw [hopen] at h ⊢
      rw [verbatim, findText_pared hneedle (h.pared.drop hk) hfound]
      exact unclosed_pared h
  | some n =>
      obtain ⟨more, -, hcs'⟩ := h
      have hproblem : (verbatim style (k + 1) needle (cs.drop k) (unclosed cs)).problem = none := by
        rw [verbatim_found hfound]
      rw [hcs']
      exact (verbatim_cut k (Nat.le_trans hk (stem_isPrefix cs).length_le) (unclosed_problem cs) hproblem more).2 _

theorem escapedString_pared {style : StringStyle} {delimiter : Char} (hfeed : '\n' ≠ delimiter)
    (h : ParedAfter ((escapedString style delimiter cs (unclosed cs)).length - 1) cs cs') :
    escapedString style delimiter cs' (unclosed cs') = escapedString style delimiter cs (unclosed cs) := by
  cases hfound : closingQuote delimiter cs with
  | none =>
      have hopen : escapedString style delimiter cs (unclosed cs) = unclosed cs := by rw [escapedString, hfound]
      rw [hopen] at h ⊢
      rw [escapedString, (closingQuote_pared hfeed h.pared).1 hfound]
      exact unclosed_pared h
  | some n =>
      obtain ⟨more, -, hcs'⟩ := h
      have hproblem : (escapedString style delimiter cs (unclosed cs)).problem = none := by
        rw [escapedString_found hfound]
      rw [hcs']
      exact escapedString_cut (unclosed_problem cs) hproblem more _

/-- **A string is the same before a pared text.** -/
theorem string?_pared (hpared : Pared cs cs')
    (h : ∀ piece, string? c cs = some piece → ParedAfter (piece.length - 1) cs cs') :
    string? c cs' = string? c cs :=
  string?_congr hpared.stem.symm h (fun _ _ k hneedle hk hafter => verbatim_pared hneedle k hk hafter)
    fun _ _ hfeed hafter => escapedString_pared hfeed hafter

/-! ## The next piece -/

/-- **A piece is the same before a pared text**, bad pieces too. -/
theorem next_pared {wordStart : Bool} (h : ParedAfter ((next wordStart c cs).length - 1) cs cs') :
    next wordStart c cs' = next wordStart c cs := by
  have hstring : string? c cs' = string? c cs := by
    refine string?_pared h.pared fun piece hpiece => ?_
    have hnext : next wordStart c cs = piece := by
      rw [next_eq_unquoted, hpiece]
      rfl
    rwa [hnext] at h
  rw [next_eq_unquoted, next_eq_unquoted, hstring, h.pared.same (unquoted?_onStem wordStart c).same]

end Piece

end ShellFront
