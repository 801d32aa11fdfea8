import ShellFront.Proofs.Values.Blind
import ShellFront.Proofs.Values.Gives

/-!
# Readings that give up

That a reading takes something can be shown from the other side: what it does not take, it gives up. What a reading
of braces meets first is the first token behind the brace that is not skipped.

## Contents
- `Parse.GivesUp`: readings that fail.
- `Cursor.skipWhile_to`, `Grammar.skip_inside`: the first token behind a brace.
-/

namespace ShellFront

namespace Parse

variable {α β γ : Type} {m : Parse α} {f : α → Parse β} {ctx : Context} {c c₁ : Cursor} {P : α → Prop}

/-! ## Readings that fail -/

/-- An action **gives up** where it stands. -/
def GivesUp (m : Parse α) (ctx : Context) (c : Cursor) : Prop :=
  ∀ report log, ∃ e st, m ctx ⟨c, report, log⟩ = .error e st

namespace GivesUp

theorem fail {problem : Problem} : GivesUp (Parse.fail problem : Parse α) ctx c := by
  intro report log
  rw [Parse.fail, bind_run, refuse_run]
  exact ⟨_, _, rfl⟩

theorem failAt {token : Token} {problem : Problem} : GivesUp (Parse.failAt token problem : Parse α) ctx c := by
  intro report log
  rw [Parse.failAt, bind_run, reportError_run]
  exact ⟨_, _, rfl⟩

/-- The first of two actions gives up. -/
theorem first (h : GivesUp m ctx c) : GivesUp (m >>= f) ctx c := by
  intro report log
  obtain ⟨e, st, hrun⟩ := h report log
  exact ⟨e, st, by rw [bind_run, hrun]⟩

/-- The second of two actions gives up. -/
theorem next (h : Gives m ctx c P c₁) (hf : ∀ a, P a → GivesUp (f a) ctx c₁) : GivesUp (m >>= f) ctx c := by
  intro report log
  obtain ⟨a, hrun, ha⟩ := h report log
  obtain ⟨e, st, hrun'⟩ := hf a ha report log
  exact ⟨e, st, by rw [bind_run, hrun]; exact hrun'⟩

theorem peek {f : Token → Parse β} (h : GivesUp (f c.current) ctx c) : GivesUp (Parse.peek >>= f) ctx c := h

theorem advance {f : Token → Parse β} (h : GivesUp (f c.current) ctx c.advance) :
    GivesUp (Parse.advance >>= f) ctx c := h

theorem check {kind : TokenKind} {f : Bool → Parse β} (h : GivesUp (f (c.kind == kind)) ctx c) :
    GivesUp (Parse.check kind >>= f) ctx c := h

theorem move {step : Cursor → Cursor} {f : Unit → Parse β} (h : GivesUp (f ()) ctx (step c)) :
    GivesUp (Parse.move step >>= f) ctx c := h

/-- A mark is missing. -/
theorem expect {kind : TokenKind} {problem : Problem} (h : c.kind ≠ kind) :
    GivesUp (Parse.expect kind problem) ctx c := by
  intro report log
  obtain ⟨e, st, hrun⟩ := @fail Token ctx c problem report log
  refine ⟨e, st, ?_⟩
  rw [Parse.expect, bind_run, Parse.check]
  dsimp only
  rw [beq_eq_false_iff_ne.mpr h, if_neg Bool.false_ne_true, hrun]

/-- A mark is there, and what follows it gives up. -/
theorem mark {kind : TokenKind} {problem : Problem} {f : Token → Parse β} (hkind : c.kind = kind)
    (h : GivesUp (f c.current) ctx c.advance) : GivesUp (Parse.expect kind problem >>= f) ctx c := by
  intro report log
  obtain ⟨e, st, hrun⟩ := h report log
  refine ⟨e, st, ?_⟩
  rw [bind_run, Parse.expect, bind_run, Parse.check, hkind]
  dsimp only
  rw [if_pos (beq_self_eq_true _)]
  exact hrun

theorem within {change : Mode → Mode} (h : GivesUp m { ctx with mode := change ctx.mode } c) :
    GivesUp (Parse.within change m) ctx c := h

/-- A loop gives up in its first turn. -/
theorem turn {turn : β → Parse (Turn β γ)} {k : Nat} {b : β} (h : GivesUp (turn b) ctx c) :
    GivesUp (iterate turn (k + 1) b) ctx c := by
  intro report log
  obtain ⟨e, st, hrun⟩ := h report log
  exact ⟨e, st, by rw [Grammar.iterate_run, hrun]⟩

theorem loop {r : Rules} {turn : β → Parse (Turn β γ)} {b : β} (h : GivesUp (turn b) ctx c) :
    GivesUp (r.loop b turn) ctx c := .turn h

theorem collect {r : Rules} {item : Parse (Option α)} (h : GivesUp item ctx c) : GivesUp (r.collect item) ctx c :=
  .loop (.first h)

/-- What gives up gives nothing. -/
theorem not_ok {st st' : State} {a : α} (h : GivesUp m ctx st.cursor) : m ctx st ≠ .ok a st' := by
  obtain ⟨e, st'', hrun⟩ := h st.report st.log
  intro hok
  have hcontra : (EStateM.Result.error e st'' : EStateM.Result SyntaxError State α) = .ok a st' := hrun.symm.trans hok
  contradiction

end GivesUp

end Parse

/-! ## After the brace -/

namespace Cursor

variable {c : Cursor} {p : TokenKind → Bool} {t : Token} {more : List Token}

theorem advance_cons {before : List Token} {u : Token} {us : List Token} (h : t.kind ≠ .endOfInput) :
    advance ⟨before, t, u :: us⟩ = ⟨t :: before, u, us⟩ := if_neg h

theorem advance_last (h : c.ahead = []) : c.advance = c := by
  rw [advance, h, ite_self]

theorem rest_advance (h : c.kind ≠ .endOfInput) (hahead : c.ahead ≠ []) : c.advance.rest = c.ahead := by
  obtain ⟨before, current, ahead⟩ := c
  cases ahead with
  | nil => contradiction
  | cons t ts => rw [advance, if_neg h]; rfl

/-- Line breaks are skipped up to the first other token. -/
theorem skipWhile_to (hbreak : p .newline = true) (ht : p t.kind = false)
    (h : c.rest.dropWhile (fun t => t.kind == .newline) = t :: more) :
    ∃ before, c.skipWhile p = ⟨before, t, more⟩ := by
  obtain ⟨before, current, ahead⟩ := c
  induction ahead generalizing before current with
  | nil =>
      rw [rest, List.dropWhile_cons] at h
      split at h
      · contradiction
      · obtain ⟨rfl, rfl⟩ := List.cons.inj h
        exact ⟨before, by rw [skipWhile]⟩
  | cons u us ih =>
      rw [rest, List.dropWhile_cons] at h
      split at h
      · next hcurrent =>
          rw [skipWhile, if_pos (eq_of_beq hcurrent ▸ hbreak)]
          exact ih _ _ h
      · obtain ⟨rfl, rfl⟩ := List.cons.inj h
        exact ⟨before, by rw [skipWhile, if_neg (by rw [ht]; exact Bool.false_ne_true)]⟩

/-- Where only line breaks are left, skipping them ends at one. -/
theorem kind_skipWhile_breaks (h : c.rest.dropWhile (fun t => t.kind == .newline) = []) :
    (c.skipWhile (· == .newline)).kind = .newline := by
  obtain ⟨before, current, ahead⟩ := c
  induction ahead generalizing before current with
  | nil =>
      rw [rest, List.dropWhile_cons] at h
      split at h
      · next hcurrent =>
          rw [skipWhile]
          exact eq_of_beq hcurrent
      · contradiction
  | cons u us ih =>
      rw [rest, List.dropWhile_cons] at h
      split at h
      · next hcurrent =>
          rw [skipWhile, if_pos hcurrent]
          exact ih _ _ h
      · contradiction

end Cursor

namespace Grammar

open Parse

variable {r : Rules} {ctx : Context} {c : Cursor} {t : Token} {more : List Token} {st st' : State} {node : Node}

/-- What the tokens after an opening brace come to, once line breaks are skipped. -/
abbrev inside (c : Cursor) : List Token := c.ahead.dropWhile (fun t => t.kind == .newline)

/-- Behind an opening brace, line breaks and the like are skipped up to the first other token. -/
theorem skip_inside {p : TokenKind → Bool} (hbrace : c.kind = .symbol .openBrace) (hbreak : p .newline = true)
    (ht : p t.kind = false) (h : inside c = t :: more) : ∃ before, c.advance.skipWhile p = ⟨before, t, more⟩ := by
  refine Cursor.skipWhile_to hbreak ht ?_
  rw [Cursor.rest_advance (by rw [hbrace]; nofun) fun hnil => by rw [inside, hnil] at h; contradiction]
  exact h

end Grammar

end ShellFront
