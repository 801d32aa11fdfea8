import ShellFront.Proofs.Token.Pieces
import ShellFront.Token.Lexer

/-!
# Text between tokens

What the lexer may pass over without making a token of it: blanks, line feeds, comments to the end of the
line and block comments. `Trivia gap after` says that `gap`, followed by `after`, is such text; what follows
matters because a line comment takes in the whole rest of its line.

## Contents
- `Trivia` and `Trivia.append`.
- `findText_eq_some`: where a searched text is found, and that it is not found earlier.
- `Lexer.step_trivia_or_piece`: one step passes over trivia or makes a proper piece.
-/

namespace ShellFront

/-! ## The grammar of trivia -/

/-- Text that makes no token, given the text after it. -/
inductive Trivia : List Char → List Char → Prop where
  | nil {after : List Char} : Trivia [] after
  /-- A space, a tab, a carriage return or a line feed. -/
  | blank {c : Char} {gap after : List Char} (hc : isBlank c ∨ c = '\n') (rest : Trivia gap after) :
      Trivia (c :: gap) after
  /-- A number sign that opens no block comment, and all that follows it on its line. -/
  | lineComment {text gap after : List Char} (hline : '\n' ∉ text) (hopen : ¬ ['#', '#'] <+: text)
      (hend : ∀ c ∈ (gap ++ after).head?, c = '\n') (rest : Trivia gap after) :
      Trivia ('#' :: (text ++ gap)) after
  /-- Text between three number signs and the next three. -/
  | blockComment {text gap after : List Char}
      (hfirst : ∀ i < text.length, ¬ ['#', '#', '#'] <+: (text ++ ['#', '#', '#']).drop i)
      (rest : Trivia gap after) :
      Trivia (['#', '#', '#'] ++ (text ++ ['#', '#', '#']) ++ gap) after

/-- Trivia followed by trivia is trivia. -/
theorem Trivia.append {gap₁ gap₂ after : List Char} (h₁ : Trivia gap₁ (gap₂ ++ after))
    (h₂ : Trivia gap₂ after) : Trivia (gap₁ ++ gap₂) after := by
  generalize hwhole : gap₂ ++ after = whole at h₁
  induction h₁ with
  | nil => exact h₂
  | blank hc _ ih => exact .blank hc (ih hwhole)
  | lineComment hline hopen hend _ ih =>
      subst hwhole
      rw [List.cons_append, List.append_assoc]
      exact .lineComment hline hopen (by rwa [List.append_assoc]) (ih rfl)
  | blockComment hfirst _ ih =>
      rw [List.append_assoc]
      exact .blockComment hfirst (ih hwhole)

/-! ## Searching -/

/-- A text that is found stands at the place found, and at no earlier one. -/
theorem findText_eq_some {needle text : List Char} {n : Nat} (h : findText needle text = some n) :
    text = text.take n ++ (needle ++ text.drop (n + needle.length)) ∧ n ≤ text.length ∧
      ∀ i < n, ¬ needle <+: text.drop i := by
  induction text generalizing n with
  | nil =>
      simp only [findText] at h
      split at h <;> cases h
      next hempty =>
        rw [List.isEmpty_iff] at hempty
        subst hempty
        exact ⟨rfl, Nat.le_refl _, nofun⟩
  | cons c cs ih =>
      simp only [findText] at h
      split at h
      next hstart =>
        cases h
        obtain ⟨rest, hrest⟩ := List.isPrefixOf_iff_prefix.mp hstart
        refine ⟨?_, Nat.zero_le _, nofun⟩
        rw [List.take_zero, List.nil_append, Nat.zero_add, ← hrest, List.drop_left]
      next hstart =>
        obtain ⟨m, hm, rfl⟩ := Option.map_eq_some_iff.mp h
        obtain ⟨htext, hlen, hfirst⟩ := ih hm
        refine ⟨?_, Nat.succ_le_succ hlen, ?_⟩
        · rw [List.take_succ_cons, Nat.add_right_comm, List.drop_succ_cons, List.cons_append, ← htext]
        · rintro (_ | i) hi
          · exact fun hp => hstart (List.isPrefixOf_iff_prefix.mpr hp)
          · exact hfirst i (Nat.lt_of_succ_lt_succ hi)

/-! ## What one step passes over -/

theorem take_runLength (p : Char → Bool) (cs : List Char) : cs.take (runLength p cs) = cs.takeWhile p :=
  (List.prefix_iff_eq_take.mp (List.takeWhile_prefix p)).symm

theorem drop_runLength (p : Char → Bool) (cs : List Char) : cs.drop (runLength p cs) = cs.dropWhile p := by
  have hsplit := List.take_append_drop (runLength p cs) cs
  rw [take_runLength] at hsplit
  exact List.append_cancel_left (hsplit.trans List.takeWhile_append_dropWhile.symm)

namespace Lexer

/-- What a line comment takes and what it leaves. -/
theorem take_drop_line (cs : List Char) :
    ('#' :: cs).take (1 + runLength (· != '\n') cs) = '#' :: cs.takeWhile (· != '\n') ∧
      ('#' :: cs).drop (1 + runLength (· != '\n') cs) = cs.dropWhile (· != '\n') := by
  rw [Nat.add_comm, List.take_succ_cons, List.drop_succ_cons, take_runLength, drop_runLength]
  exact ⟨rfl, rfl⟩

/-- A comment to the end of the line is trivia. -/
theorem lineComment_trivia {cs : List Char} (hopen : ¬ ['#', '#'] <+: cs) :
    Trivia ('#' :: cs.takeWhile (· != '\n')) (cs.dropWhile (· != '\n')) := by
  have hline : '\n' ∉ cs.takeWhile (· != '\n') := fun hmem => by
    simpa using List.all_eq_true.mp List.all_takeWhile _ hmem
  have hopen' : ¬ ['#', '#'] <+: cs.takeWhile (· != '\n') := fun hp =>
    hopen (hp.trans (List.takeWhile_prefix _))
  have hend : ∀ c ∈ ([] ++ cs.dropWhile (· != '\n')).head?, c = '\n' := by
    intro c hc
    have := List.head?_dropWhile_not (· != '\n') cs
    rw [List.nil_append] at hc
    rw [Option.mem_def.mp hc] at this
    simpa using this
  rw [← List.append_nil (cs.takeWhile _)]
  exact .lineComment hline hopen' hend .nil

/-- A block comment that is closed is trivia. -/
theorem blockComment_trivia {cs : List Char} {n : Nat} (hopen : ['#', '#'] <+: cs)
    (hclose : findText ['#', '#', '#'] (cs.drop 2) = some n) (after : List Char) :
    Trivia (('#' :: cs).take (n + 6)) after := by
  obtain ⟨rest, rfl⟩ := hopen
  obtain ⟨htext, hlen, hfirst⟩ := findText_eq_some hclose
  change rest = rest.take n ++ (['#', '#', '#'] ++ rest.drop (n + 3)) at htext
  change n ≤ rest.length at hlen
  have htake : rest.take (n + 3) = rest.take n ++ ['#', '#', '#'] := by
    rw [htext, ← List.append_assoc, List.take_left' (by simp [hlen]), List.append_assoc,
      List.take_left' (by simp [hlen])]
  have hshort : ∀ i < (rest.take n).length,
      ¬ ['#', '#', '#'] <+: (rest.take n ++ ['#', '#', '#']).drop i := by
    intro i hi hp
    rw [← htake, List.drop_take] at hp
    exact hfirst i (by simpa [hlen] using hi) (hp.trans (List.take_prefix _ _))
  have hall : ('#' :: (['#', '#'] ++ rest)).take (n + 6)
      = ['#', '#', '#'] ++ (rest.take n ++ ['#', '#', '#']) ++ [] := by
    rw [List.append_nil, ← htake]
    rfl
  rw [hall]
  exact .blockComment hshort .nil

/-- The step at a number sign passes over trivia or makes a proper piece. -/
theorem comment_trivia_or_piece (groups : Groups) (atLineStart : Bool) (cs : List Char) :
    let s := comment groups atLineStart cs
    (s.piece = none ∧ Trivia (('#' :: cs).take s.length) (('#' :: cs).drop s.length)) ∨
      ∃ piece, s.piece = some piece ∧ piece.Proper := by
  dsimp only
  unfold comment
  split
  next hopen =>
    split
    next n hclose =>
      exact .inl ⟨rfl, blockComment_trivia (List.isPrefixOf_iff_prefix.mp hopen) hclose _⟩
    next => exact .inr ⟨_, rfl, (Piece.bad_solid _ _).toProper⟩
  next hopen =>
    refine .inl ⟨rfl, ?_⟩
    obtain ⟨htake, hdrop⟩ := take_drop_line cs
    rw [htake, hdrop]
    exact lineComment_trivia (fun hp => hopen (List.isPrefixOf_iff_prefix.mpr hp))

/-- **One step of the lexer passes over trivia or makes a proper piece.** -/
theorem step_trivia_or_piece (previous : Option Char) (groups : Groups) (atLineStart : Bool) (c : Char)
    (cs : List Char) :
    let s := step previous groups atLineStart c cs
    (s.piece = none ∧ Trivia ((c :: cs).take s.length) ((c :: cs).drop s.length)) ∨
      ∃ piece, s.piece = some piece ∧ piece.Proper := by
  dsimp only
  unfold step
  split
  next hblank => exact .inl ⟨rfl, .blank (.inl hblank) .nil⟩
  next =>
    split
    next hsign =>
      subst hsign
      exact comment_trivia_or_piece groups atLineStart cs
    next =>
      split
      next hfeed =>
        unfold lineBreak
        dsimp only
        split
        · split
          · exact .inl ⟨rfl, .blank (.inr hfeed) .nil⟩
          · exact .inr ⟨_, rfl, Piece.proper_of_kind (by nofun) (by nofun) _ _⟩
        · split
          · exact .inl ⟨rfl, .blank (.inr hfeed) .nil⟩
          · exact .inr ⟨_, rfl, Piece.proper_of_kind (by nofun) (by nofun) _ _⟩
      next => exact .inr ⟨_, rfl, Piece.next_proper _ c cs⟩

end Lexer

end ShellFront
