import ShellFront.Proofs.Token.Lossless

/-!
# Line breaks among tokens

A line break becomes a token only where something stands on the line. So tokens never begin with a line break,
and the lexer is at the start of a line just when the last token is one or there is none.

## Contents
- `Lexer.step_line`: what a step does to lines.
- `Lexer.Lined`, `Lexer.run_lined`.
- `tokenize_starts`.
-/

namespace ShellFront

namespace Lexer

/-- A step makes no token and leaves the line as it is, or makes a line break that ends a line which is not
    empty, or some other token on the line. -/
theorem step_line (previous : Option Char) (groups : Groups) (atLineStart : Bool) (c : Char) (cs : List Char) :
    let s := step previous groups atLineStart c cs
    (s.piece = none ∧ s.atLineStart = atLineStart) ∨
      (∃ piece, s.piece = some piece ∧ piece.kind = .newline ∧ atLineStart = false ∧ s.atLineStart = true) ∨
      ∃ piece, s.piece = some piece ∧ piece.kind ≠ .newline ∧ s.atLineStart = false := by
  unfold step
  dsimp only
  split
  · exact .inl ⟨rfl, rfl⟩
  · split
    · unfold comment
      split
      · split
        · exact .inl ⟨rfl, rfl⟩
        · exact .inr (.inr ⟨_, rfl, (Piece.bad_solid _ _).ne_break, rfl⟩)
      · exact .inl ⟨rfl, rfl⟩
    · split
      · unfold lineBreak
        dsimp only
        generalize (if groups.hidesNewline && opensStatement cs then groups.abandon else groups) = after
        split
        · exact .inl ⟨rfl, rfl⟩
        · next h =>
            rw [Bool.or_eq_true, not_or, Bool.not_eq_true] at h
            exact .inr (.inl ⟨_, rfl, rfl, h.1, rfl⟩)
      · exact .inr (.inr ⟨_, rfl, (Piece.next_solid _ c cs).ne_break, rfl⟩)

/-- What the lexer has found is **lined** up: no line break comes first, and it knows whether one came last. -/
structure Lined (st : State) : Prop where
  first : ∀ t ∈ st.tokens.toList.head?, t.kind ≠ .newline
  line : st.atLineStart = true ↔ ∀ t ∈ st.tokens.toList.getLast?, t.kind = .newline

theorem first_lined (report : Report) : Lined (.first report) :=
  ⟨by simp [State.first], by simp [State.first]⟩

theorem Lined.step {st : State} (h : Lined st) (file : String) (c : Char) (cs : List Char) :
    let s := step st.previous st.groups st.atLineStart c cs
    Lined (st.take file s ((c :: cs).take s.length)) := by
  intro s
  rcases step_line st.previous st.groups st.atLineStart c cs with
    ⟨hpiece, hline⟩ | ⟨piece, hpiece, hkind, hbefore, hline⟩ | ⟨piece, hpiece, hkind, hline⟩
  · refine ⟨?_, ?_⟩
    · simpa only [State.take, s, hpiece] using h.first
    · simpa only [State.take, s, hpiece, hline] using h.line
  · -- the line holds a token already, so the line break is not the first one
    have hne : st.tokens.toList ≠ [] := by
      intro hnil
      have hline := h.line.mpr (by simp [hnil])
      rw [hbefore] at hline
      contradiction
    refine ⟨?_, ?_⟩
    · simpa only [State.take, s, hpiece, Array.toList_push, List.head?_append_of_ne_nil _ hne] using h.first
    · simp [State.take, s, hpiece, hline, placed, hkind]
  · refine ⟨?_, ?_⟩
    · intro t ht
      simp only [State.take, s, hpiece, Array.toList_push] at ht
      by_cases hnil : st.tokens.toList = []
      · rw [hnil, List.nil_append, List.head?_cons] at ht
        obtain rfl := Option.mem_some.mp ht
        exact hkind
      · rw [List.head?_append_of_ne_nil _ hnil] at ht
        exact h.first t ht
    · simp [State.take, s, hpiece, hline, placed, hkind]

/-- **The walk over a text ends with tokens lined up.** -/
theorem run_lined (file : String) (text : List Char) {st : State} (h : Lined st) : Lined (run file st text) := by
  fun_induction run file st text with
  | case1 => exact h
  | case2 st c cs s ih => exact ih (h.step file c cs)

end Lexer

/-- A script does not begin with a line break. -/
theorem tokenize_starts (source file : String) : ∀ t ∈ (tokenize source file).tokens.head?, t.kind ≠ .newline := by
  intro t ht
  have hlined := Lexer.run_lined file source.toList (Lexer.first_lined .empty)
  simp only [tokenize, Array.toList_push] at ht
  by_cases hnil : (Lexer.run file (.first .empty) source.toList).tokens.toList = []
  · rw [hnil, List.nil_append, List.head?_cons] at ht
    obtain rfl := Option.mem_some.mp ht
    exact (by decide : TokenKind.endOfInput ≠ .newline)
  · rw [List.head?_append_of_ne_nil _ hnil] at ht
    exact hlined.first t ht

end ShellFront
