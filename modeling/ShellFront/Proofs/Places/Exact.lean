import Mathlib.Data.List.Induction
import ShellFront.Token.Lexer

/-!
# Exact places

The lexer counts lines and columns as it goes. Both are functions of the text before a place: the line counts its
line feeds, and the column the characters after the last of them. A span is **exact** if that is how it says where
it begins and where it ends. All spans that the lexer makes are exact, and a cover of exact spans is, since the
lines and columns it takes over go with the offsets.

## Contents
- `lineAfter`, `columnAfter`, `Position.after` and counting step by step.
- `Span.Exact`; `Span.exactly`, the exact span with the offsets of another one, and `exactly_cover`.
- `Lexer.Measured`, `Lexer.run_measured`.
- `tokenize_measured`.
-/

namespace ShellFront

/-! ## Lines and columns of a text -/

/-- The line that one is on after a text: the line feeds in it, counted from one. -/
def lineAfter (text : List Char) : Nat := 1 + text.count '\n'

/-- The column that one is at after a text: the characters since its last line feed, counted from one. -/
def columnAfter (text : List Char) : Nat := 1 + (text.reverse.takeWhile (· != '\n')).length

namespace Position

/-- The place at an offset of a text, or at its end if it is shorter. -/
def after (text : List Char) (n : Nat) : Position :=
  ⟨min n text.length, lineAfter (text.take n), columnAfter (text.take n)⟩

/-- **Character by character** one comes to the place after a text. -/
theorem advanceBy_first (text : List Char) :
    first.advanceBy text = ⟨text.length, lineAfter text, columnAfter text⟩ := by
  induction text using List.reverseRecOn with
  | nil => rfl
  | append_singleton text c ih =>
      rw [advanceBy_append, ih]
      by_cases hc : c = '\n'
      · subst hc
        simp [advanceBy, advance, lineAfter, columnAfter, Nat.add_assoc]
      · simp [advanceBy, advance, hc, lineAfter, columnAfter, Nat.add_comm]

/-- One comes to the end of what was read of a text. -/
theorem advanceBy_read {text done rest : List Char} (h : text = done ++ rest) :
    first.advanceBy done = after text done.length := by
  rw [advanceBy_first, after, h, List.take_left, List.length_append, Nat.min_eq_left (Nat.le_add_right ..)]

/-- All places past the end of a text are its end. -/
theorem after_congr {text : List Char} {n m : Nat} (h : min n text.length = min m text.length) :
    after text n = after text m := by
  rw [after, after, h, List.take_eq_take_iff.mpr h]

/-- The earlier of two places. -/
theorem after_min (text : List Char) (n m : Nat) :
    after text (min n m) = if (after text n).offset ≤ (after text m).offset then after text n else after text m := by
  split
  · next h => exact after_congr (by simp only [after] at h; omega)
  · next h => exact after_congr (by simp only [after] at h; omega)

/-- The later of two places. -/
theorem after_max (text : List Char) (n m : Nat) :
    after text (max n m) = if (after text n).offset ≤ (after text m).offset then after text m else after text n := by
  split
  · next h => exact after_congr (by simp only [after] at h; omega)
  · next h => exact after_congr (by simp only [after] at h; omega)

end Position

/-! ## Exact spans -/

/-- A span is **exact** for a text: its offsets lie in the text, and its lines and columns are those that the
    text before them leads to. -/
structure Span.Exact (file : String) (text : List Char) (span : Span) : Prop where
  file : span.file = file
  start : ∃ i ≤ text.length, span.start = i ∧ span.line = lineAfter (text.take i) ∧
    span.column = columnAfter (text.take i)
  stop : ∃ j ≤ text.length, span.stop = j ∧ span.endLine = some (lineAfter (text.take j) : Int) ∧
    span.endColumn = some (columnAfter (text.take j) : Int)

/-- A message says exactly where it belongs. -/
def Diagnostic.Exact (file : String) (text : List Char) (d : Diagnostic) : Prop :=
  ∃ span, d.span = some span ∧ span.Exact file text

namespace Span

variable (file : String) (text : List Char)

/-- From one place of a text to another, a span is exact. -/
theorem between_exact (n m : Nat) : (between file (.after text n) (.after text m)).Exact file text where
  file := rfl
  start := ⟨min n text.length, Nat.min_le_right .., rfl, by simp [between, Position.after, ← List.take_take]⟩
  stop := ⟨min m text.length, Nat.min_le_right .., rfl, by simp [between, Position.after, ← List.take_take]⟩

/-- The exact span with the offsets of a span, as far as these lie in the text. -/
def exactly (span : Span) : Span := between file (.after text span.start.toNat) (.after text span.stop.toNat)

/-- A span that is as it should be is exact. -/
theorem exact_of_eq {file : String} {text : List Char} {span : Span} (h : span = span.exactly file text) :
    span.Exact file text := h ▸ between_exact file text _ _

/-- A cover begins at the earlier place and ends at the later one. -/
theorem between_cover {p p' q q' : Position} (hq : q.offset = q'.offset → q = q') :
    (between file p q).cover (between file p' q') =
      between file (if p.offset ≤ p'.offset then p else p') (if q.offset ≤ q'.offset then q' else q) := by
  rcases Nat.lt_trichotomy q.offset q'.offset with hlt | heq | hlt
  · have hle : ¬ q.offset > q'.offset := by omega
    by_cases hp : p.offset ≤ p'.offset <;>
      simp [cover, between, hp, hlt, Nat.le_of_lt hlt, hle]
  · obtain rfl := hq heq
    by_cases hp : p.offset ≤ p'.offset <;> simp [cover, between, hp]
  · have hle : ¬ q.offset ≤ q'.offset := by omega
    have hlt' : ¬ q.offset < q'.offset := by omega
    by_cases hp : p.offset ≤ p'.offset <;> simp [cover, between, hp, hlt, hle, hlt']

/-- **A cover takes over the lines and columns of its offsets.** -/
theorem exactly_cover (a b : Span) :
    (a.cover b).exactly file text = (a.exactly file text).cover (b.exactly file text) := by
  rw [exactly, exactly, exactly, between_cover file Position.after_congr, cover_start, cover_stop,
    ← Position.after_min, ← Position.after_max]
  congr 2 <;> omega

end Span

/-! ## The lexer -/

namespace Lexer

/-- What the lexer has **measured** when `rest` is still to be read of a text: it is at the end of what it has
    read, and the places of all tokens and messages are exact. -/
structure Measured (file : String) (text rest : List Char) (st : State) : Prop where
  read : ∃ done, text = done ++ rest ∧ st.place = Position.first.advanceBy done
  tokens : ∀ t ∈ st.tokens.toList, t.span.Exact file text
  report : ∀ d ∈ st.report.toList, d.Exact file text

variable {file : String} {text rest lexeme : List Char} {st : State}

theorem first_measured (file : String) (text : List Char) : Measured file text text (.first .empty) where
  read := ⟨[], rfl, rfl⟩
  tokens := by simp [State.first]
  report := by simp [State.first]

/-- What is read next is measured. -/
theorem Measured.take (h : Measured file text (lexeme ++ rest) st) (s : Step) :
    Measured file text rest (st.take file s lexeme) := by
  obtain ⟨done, htext, hplace⟩ := h.read
  have htext' : text = (done ++ lexeme) ++ rest := htext.trans (List.append_assoc ..).symm
  have hlast : st.place.advanceBy lexeme = Position.first.advanceBy (done ++ lexeme) := by
    rw [hplace, Position.advanceBy_append]
  -- the places before and after what is read are those that its text measures
  have hspan : (Span.between file st.place (st.place.advanceBy lexeme)).Exact file text := by
    rw [hlast, hplace, Position.advanceBy_read htext, Position.advanceBy_read htext']
    exact Span.between_exact ..
  refine ⟨⟨_, htext', hlast⟩, ?_, ?_⟩
  · intro t ht
    simp only [State.take] at ht
    split at ht
    · rw [Array.toList_push] at ht
      rcases List.mem_append.mp ht with ht | ht
      · exact h.tokens t ht
      · obtain rfl := List.mem_singleton.mp ht
        exact hspan
    · exact h.tokens t ht
  · intro d hd
    simp only [State.take] at hd
    split at hd
    · rw [Report.toList_add] at hd
      rcases List.mem_append.mp hd with hd | hd
      · exact h.report d hd
      · obtain rfl := List.mem_singleton.mp hd
        exact ⟨_, rfl, hspan⟩
    · exact h.report d hd

/-- **The walk over a text measures all of it.** -/
theorem run_measured (h : Measured file text rest st) : Measured file text [] (run file st rest) := by
  fun_induction run file st rest with
  | case1 => exact h
  | case2 st c cs s ih => exact ih (Measured.take (by rwa [List.take_append_drop]) s)

end Lexer

/-- The tokens of a script and the errors in its words say exactly where they are. -/
theorem tokenize_measured (source file : String) :
    (∀ t ∈ (tokenize source file).tokens, t.span.Exact file source.toList) ∧
      ∀ d ∈ (tokenize source file).report.toList, d.Exact file source.toList := by
  have h := Lexer.run_measured (Lexer.first_measured file source.toList)
  obtain ⟨done, htext, hplace⟩ := h.read
  refine ⟨?_, h.report⟩
  simp only [tokenize, Array.toList_push]
  refine List.forall_mem_append.mpr ⟨h.tokens, List.forall_mem_singleton.mpr ?_⟩
  rw [Token.endMark, hplace, Position.advanceBy_read htext]
  exact Span.between_exact ..

end ShellFront
