import ShellFront.Proofs.Twins.Seams
import ShellFront.Parse.Expression
import ShellFront.Proofs.Layout.Actions

/-!
# What one reading gives

At a cut, only the reader of the script alone is followed: an action that is run there has to give up, or to give a
value that may be given there; it `Fades`. What an action gives wherever it is run is what it `Yields`.

## Contents
- `Fades` and the rules for it.
- `Yields` and the rules for it.
-/

namespace ShellFront

open Outlined

namespace Parse

variable {α β : Type} {b : Seam} {r r' : Rules} {c c₁ : Cursor} {kind : TokenKind} {problem : Problem}

/-- Giving up, step by step. -/
theorem fail_run (ctx : Context) (st : State) : (fail problem : Parse α) ctx st =
    .error ⟨problem, st.cursor.current, st.cursor.blamed⟩
      { st with report := st.report.after ⟨problem, st.cursor.current, st.cursor.blamed⟩ } := by
  rw [fail, bind_run, refuse_run]
  rfl

/-! ## At a cut -/

/-- A run that has come to a cut stays there, with a value that may be given there, or gives up. -/
def Faded (b : Seam) (L : α → Prop) : EStateM.Result SyntaxError State α → Prop
  | .ok a st => L a ∧ b.Lost st.cursor
  | .error _ st => b.Lost st.cursor

/-- At a cut, an action gives up or gives a value that may be given there. -/
def Fades (b : Seam) (L : α → Prop) (m : Parse α) : Prop :=
  ∀ (ctx : Context) (st : State), b.Lost st.cursor → Faded b L (m ctx st)

section

variable {L : α → Prop} {L' : β → Prop} {m : Parse α} {f : α → Parse β} {g : Token → Parse β}

/-- A value that may be given at a cut. -/
theorem Fades.pure {a : α} (h : L a) : Fades b L (Pure.pure a) := fun _ _ hlost => ⟨h, hlost⟩

/-- One action after another. -/
theorem Fades.bind (hm : Fades b L m) (hf : ∀ a, L a → Fades b L' (f a)) : Fades b L' (m >>= f) := by
  intro ctx st hlost
  have h := hm ctx st hlost
  rw [bind_run]
  generalize m ctx st = x at h
  match x with
  | .ok a st' => exact hf a h.1 ctx st' h.2
  | .error _ _ => exact h

/-- What reads something gives up at a cut. -/
theorem Fades.of_forms [Outlined α] (h : Forms b.script .nothing (fun _ => True) m) : Fades b L m := by
  intro ctx st hlost
  have hdoes := h st.cursor hlost.tokens trivial ctx st (fun _ => .inl rfl) rfl
  generalize m ctx st = x at hdoes
  match x with
  | .ok a st' =>
      obtain ⟨o, -, hspans⟩ := hdoes.spans
      have hlt := hspans.length_lt
      rw [hlost.ahead] at hlt
      contradiction
  | .error _ st' =>
      obtain ⟨_, _, hread, -⟩ := hdoes
      exact hlost.stays hread.reaches

/-- What reads anything at all stays at a cut. -/
theorem Fades.of_lays [Outlined α] {firm : Bool} (h : Lays b.script .nothing firm m) :
    Fades b (fun _ => True) m := by
  intro ctx st hlost
  have hdoes := h st.cursor hlost.tokens ctx st (fun _ => .inl rfl) rfl
  generalize m ctx st = x at hdoes
  match x with
  | .ok a st' => exact ⟨trivial, hlost.stays hdoes.reaches⟩
  | .error _ st' =>
      obtain ⟨_, _, hread, -⟩ := hdoes
      exact hlost.stays hread.reaches

/-- A production has something to read, so it gives up at a cut, whatever follows. -/
theorem Fades.node [Outlined α] (h : Forms b.script .nothing (fun _ => True) m) : Fades b L' (m >>= f) :=
  .bind (L := fun _ => False) (.of_forms h) fun _ h => h.elim

theorem Fades.fail : Fades b L (fail problem) := by
  intro ctx st hlost
  rw [fail_run]
  exact hlost

/-- A mark that must come next does not come at a cut. -/
theorem Fades.mark (hkind : kind.isMark = true) : Fades b L' (expect kind problem >>= g) := by
  refine .bind (L := fun _ => False) ?_ fun _ h => h.elim
  intro ctx st hlost
  have hcheck : (st.cursor.kind == kind) = false := by
    rw [hlost.kind, beq_eq_false_iff_ne]
    exact (TokenKind.isMark_iff.mp hkind).2.symm
  rw [expect, bind_run]
  simp only [check, hcheck, Bool.false_eq_true, if_false]
  exact Fades.fail ctx st hlost

/-- A mark does not stand at a cut. -/
theorem Fades.check {f : Bool → Parse β} (hkind : kind.isMark = true) (hf : Fades b L' (f false)) :
    Fades b L' (check kind >>= f) := by
  intro ctx st hlost
  have hcheck : (st.cursor.kind == kind) = false := by
    rw [hlost.kind, beq_eq_false_iff_ne]
    exact (TokenKind.isMark_iff.mp hkind).2.symm
  rw [bind_run]
  simp only [Parse.check, hcheck]
  exact hf ctx st hlost

/-- So it is not read there either. -/
theorem Fades.accept {f : Bool → Parse β} (hkind : kind.isMark = true) (hf : Fades b L' (f false)) :
    Fades b L' (accept kind >>= f) := by
  intro ctx st hlost
  have hcheck : ¬ st.cursor.kind = kind := by
    rw [hlost.kind]
    exact (TokenKind.isMark_iff.mp hkind).2.symm
  rw [bind_run]
  simp only [Parse.accept, if_neg hcheck]
  exact hf ctx st hlost

/-- At a cut the end of the script is seen. -/
theorem Fades.peek {f : Token → Parse β} (hf : ∀ t, t.kind = .endOfInput → Fades b L' (f t)) :
    Fades b L' (peek >>= f) :=
  fun ctx st hlost => hf st.cursor.current hlost.kind ctx st hlost

theorem Fades.here {f : Cursor → Parse β} (hf : ∀ c, b.Lost c → Fades b L' (f c)) :
    Fades b L' (here >>= f) :=
  fun ctx st hlost => hf st.cursor hlost ctx st hlost

theorem Fades.ite {p : Prop} [Decidable p] {k : Parse α} (h : p → Fades b L m) (h' : ¬p → Fades b L k) :
    Fades b L (if p then m else k) := by
  split
  · exact h ‹_›
  · exact h' ‹_›

end

/-! ## What one run gives -/

/-- Run at a cursor, an action gives only such values, and ends at such cursors. -/
def Yields (c : Cursor) (P : α → Cursor → Prop) (m : Parse α) : Prop :=
  ∀ (ctx : Context) (st : State) (a : α) (st' : State), st.cursor = c → m ctx st = .ok a st' → P a st'.cursor

section

variable {m : Parse α} {f : α → Parse β} {P : α → Cursor → Prop} {P' : β → Cursor → Prop}

theorem Yields.pure {a : α} (h : P a c) : Yields c P (Pure.pure a) := by
  intro ctx st _ _ hst hrun
  obtain ⟨rfl, rfl⟩ := EStateM.Result.ok.inj hrun
  exact hst ▸ h

/-- Nothing has to be known of an action. -/
theorem Yields.any : Yields c (fun _ _ => True) m := fun _ _ _ _ _ _ => trivial

theorem Yields.bind (hm : Yields c P m) (hf : ∀ a c₁, P a c₁ → Yields c₁ P' (f a)) :
    Yields c P' (m >>= f) := by
  intro ctx st a' st' hst hrun
  have hm := hm ctx st
  rw [bind_run] at hrun
  generalize m ctx st = x at hm hrun
  cases x with
  | ok a st₁ => exact hf a st₁.cursor (hm a st₁ hst rfl) ctx st₁ a' st' rfl hrun
  | error e st₁ => contradiction

theorem Yields.here {f : Cursor → Parse β} (hf : Yields c P' (f c)) : Yields c P' (Parse.here >>= f) := by
  intro ctx st a st' hst hrun
  subst hst
  exact hf ctx st a st' rfl hrun

/-- Nothing is asked of the first action. -/
theorem Yields.skip (hf : ∀ a c₁, Yields c₁ P' (f a)) : Yields c P' (m >>= f) :=
  .bind .any fun a c₁ _ => hf a c₁

theorem Yields.ite {p : Prop} [Decidable p] {k : Parse α} (h : p → Yields c P m) (h' : ¬p → Yields c P k) :
    Yields c P (if p then m else k) := by
  split
  · exact h ‹_›
  · exact h' ‹_›

/-- What holds between the turns of a loop, and what holds after it. -/
def Turn.Holds (I : α → Cursor → Prop) (P' : β → Cursor → Prop) : Turn α β → Cursor → Prop
  | .again a, c => I a c
  | .done b, c => P' b c

/-- A loop keeps what its turns keep. -/
theorem Yields.iterate {I : α → Cursor → Prop} {turn : α → Parse (Turn α β)}
    (hturn : ∀ a c₁, I a c₁ → Yields c₁ (Turn.Holds I P') (turn a)) (n : Nat) {a : α} (ha : I a c) :
    Yields c P' (iterate turn n a) := by
  induction n generalizing a c with
  | zero =>
      intro ctx st _ _ _ hrun
      rw [Parse.iterate, fail_run] at hrun
      contradiction
  | succ n ih =>
      refine .bind (hturn a c ha) fun t c₁ ht => ?_
      match t, ht with
      | .again a', ha => exact ih ha
      | .done _, hb => exact .pure hb

/-- A loop of the grammar keeps what its turns keep. -/
theorem Yields.loop {I : α → Cursor → Prop} {turn : α → Parse (Turn α β)}
    (hturn : ∀ a c₁, I a c₁ → Yields c₁ (Turn.Holds I P') (turn a)) {a : α} (ha : I a c) :
    Yields c P' (r.loop a turn) :=
  .iterate hturn _ ha

end

end Parse

end ShellFront
