import ShellFront.Proofs.Parse.Blame

/-!
# Strict and lenient readings

A strict reading gives up at its first syntax error; a lenient one skips statements with errors. Up to that
error the two go the same way. `Matches` is what holds of their results when both begin in one state, and
`From` says that it holds of an action at a cursor, whatever else the state is. An action is put together
from smaller ones, and so is what is known about it: this file has the rules for that, and the next ones
apply them to the grammar.

What an action gives is judged together with the outlines that are **held** when it begins, those of the
parts read so far.

## Contents
- `Report.Grows`: a report with further errors.
- `Carries`: what is made of parts shows no more errors and no worse blocks than they do.
- `Matches`, `From`, `Spec`, `Gathers`, `Parses`, and how they are put together.
-/

namespace ShellFront

/-! ## Reports that grow -/

namespace Report

/-- A report with further syntax errors. -/
def Grows (r r' : Report) : Prop :=
  ∃ es : List SyntaxError, r'.toList = r.toList ++ es.map SyntaxError.diagnostic

theorem Grows.refl (r : Report) : r.Grows r := ⟨[], by simp⟩

theorem Grows.trans {r₁ r₂ r₃ : Report} (h : r₁.Grows r₂) (h' : r₂.Grows r₃) : r₁.Grows r₃ := by
  obtain ⟨es, hes⟩ := h
  obtain ⟨fs, hfs⟩ := h'
  exact ⟨es ++ fs, by rw [hfs, hes, List.map_append, List.append_assoc]⟩

theorem grows_after (r : Report) (e : SyntaxError) : r.Grows (r.after e) := by
  unfold after
  split
  · exact .refl r
  · exact ⟨[e], by rw [toList_add, List.map_singleton]⟩

end Report

/-! ## What is made of parts -/

open Outlined

/-- The outlines of what is **carried** over from those held: parts that could not be read stay visible, and
    settled parts make settled ones. -/
structure Carries (s : Script) (held os : List Outline) : Prop where
  intact : (∀ o ∈ os, o.Intact) ↔ ∀ o ∈ held, o.Intact
  settled : (∀ o ∈ held, o.Settled s) → ∀ o ∈ os, o.Settled s

namespace Carries

variable {s : Script} {held os : List Outline}

/-- Parts that are only moved about, or come with plain ones. -/
theorem parts (h : ∀ p : Outline → Prop, (∀ o, o.Plain → p o) →
    ((∀ o ∈ os, p o) ↔ ∀ o ∈ held, p o)) : Carries s held os where
  intact := h _ fun _ => Outline.Plain.intact
  settled := (h _ fun _ => Outline.Plain.settled).mpr

/-- Parts that become the children of a node. -/
theorem node {kind : NodeKind} {span : Span} {attributes : List (String × Attribute)}
    {children : List Outline} (hos : os = [.mk kind span attributes children])
    (hkind : kind ≠ .errorNode ∧ kind ≠ .block)
    (h : ∀ p : Outline → Prop, (∀ o, o.Plain → p o) → ((∀ o ∈ children, p o) ↔ ∀ o ∈ held, p o)) :
    Carries s held os where
  intact := by
    rw [hos, List.forall_mem_singleton, ← h _ fun _ => Outline.Plain.intact]
    exact Outline.everywhere_mk.trans (and_iff_right hkind.1)
  settled := fun hheld => by
    rw [hos, List.forall_mem_singleton]
    exact Outline.settled_mk hkind.2 ((h _ fun _ => Outline.Plain.settled).mpr hheld)

theorem comp {mid : List Outline} (h : Carries s held mid) (h' : Carries s mid os) : Carries s held os where
  intact := h'.intact.trans h.intact
  settled := fun hheld => h'.settled (h.settled hheld)

/-- What is carried over in two steps; `rest` waits for the second. -/
theorem trans {rest mid : List Outline} (h : Carries s held mid) (h' : Carries s (rest ++ mid) os) :
    Carries s (rest ++ held) os where
  intact := by rw [h'.intact, List.forall_mem_append, List.forall_mem_append, h.intact]
  settled := fun hheld => by
    rw [List.forall_mem_append] at hheld
    exact h'.settled (List.forall_mem_append.mpr ⟨hheld.1, h.settled hheld.2⟩)

end Carries

namespace Parse

/-! ## Readings in both modes -/

namespace Context

/-- The context in which an error ends the reading. -/
def strict (ctx : Context) : Context := { ctx with mode := { ctx.mode with recovering := false } }

/-- The context in which statements with errors are skipped. -/
def lenient (ctx : Context) : Context := { ctx with mode := { ctx.mode with recovering := true } }

end Context

/-- An action after another runs where that one ended. -/
theorem bind_run {α β : Type} (m : Parse α) (f : α → Parse β) (ctx : Context) (st : State) :
    (m >>= f) ctx st = match m ctx st with
      | .ok a st' => f a ctx st'
      | .error e st' => .error e st' := by
  show EStateM.bind (m ctx) (fun a => f a ctx) st = _
  unfold EStateM.bind
  cases m ctx st <;> rfl

/-- A brace that is blamed for being ambiguous is the one where the reader is. -/
def BlamesBrace (e : SyntaxError) (c : Cursor) : Prop :=
  e.problem = .ambiguousBrace → c.kind = .symbol .openBrace ∧ e.found = c.current ∧ e.span = c.current.span

/-- Most problems are not about ambiguous braces. -/
theorem BlamesBrace.of_grammar {e : SyntaxError} {c : Cursor} (h : e.problem.category = .grammar) : BlamesBrace e c := by
  intro hambiguous
  rw [hambiguous] at h
  contradiction

/-- The errors of a reader that proceeds are added to the report. -/
theorem Proceeds.grows {s : Script} {st st' : State} (h : Proceeds s st st') : st.report.Grows st'.report :=
  let ⟨es, hes, _⟩ := h.errors
  ⟨es, hes⟩

/-- An action gave up with an error, its only one, and reported it. -/
structure Fails (s : Script) (st : State) (e : SyntaxError) (st' : State) : Prop where
  proceeds : Proceeds s st st'
  report : st'.report = st.report.after e
  found : e.found.kind = .invalid → e.found ∈ s.tokens
  brace : BlamesBrace e st'.cursor

theorem Fails.reaches {s : Script} {st st' : State} {e : SyntaxError} (h : Fails s st e st') :
    st.cursor.Reaches st'.cursor := h.proceeds.reaches

/-- What is reported after giving up was there before, or is the error. -/
theorem Fails.grows {s : Script} {st st' : State} {e : SyntaxError} (h : Fails s st e st') :
    st.report.Grows st'.report := by
  rw [h.report]
  exact Report.grows_after ..

/-- An action also gave up from before something was read and not reported on. -/
theorem Fails.precede {s : Script} {st st₁ st' : State} {e : SyntaxError} (h : Fails s st₁ e st')
    (hreach : st.cursor.Reaches st₁.cursor) (hreport : st₁.report = st.report) : Fails s st e st' where
  proceeds := h.proceeds.precede hreach hreport
  report := hreport ▸ h.report
  found := h.found
  brace := h.brace

variable {α β : Type} [Outlined α] [Outlined β]

/-- How the results of a strict and a lenient reading that began in one state **match**. -/
inductive Matches (s : Script) (held : List Outline) (Q : α → Cursor → Prop) (st : State) :
    EStateM.Result SyntaxError State α → EStateM.Result SyntaxError State α → Prop where
  /-- Nothing is wrong. -/
  | agree {a : α} {st' : State} (hpass : st.cursor.Passes st'.cursor) (hreport : st'.report = st.report)
      (hcarries : Carries s held (shown a)) (hpost : Q a st'.cursor) :
      Matches s held Q st (.ok a st') (.ok a st')
  /-- Both gave up. The lenient reading may have recovered from other errors before. -/
  | fail {e e' : SyntaxError} {st₁ st' : State} (hfails : Fails s st e st₁)
      (hproceeds : Proceeds s st st') (hgrows : st₁.report.Grows st'.report) :
      Matches s held Q st (.error e st₁) (.error e' st')
  /-- The lenient reading recovered from all errors, and what it gives shows them. -/
  | part {e : SyntaxError} {a : α} {st₁ st' : State} (hfails : Fails s st e st₁)
      (hproceeds : Proceeds s st st') (hgrows : st₁.report.Grows st'.report)
      (hbroken : ¬ ∀ o ∈ shown a, o.Intact)
      (hsettled : (∀ o ∈ held, o.Settled s) → ∀ o ∈ shown a, o.Settled s) (hpost : Q a st'.cursor) :
      Matches s held Q st (.error e st₁) (.ok a st')

/-- From a cursor, both readings of an action match. -/
def From (s : Script) (c : Cursor) (held : List Outline) (m : Parse α) (Q : α → Cursor → Prop) : Prop :=
  ∀ (ctx : Context) (st : State), st.cursor = c → c.tokens = s.tokens →
    Matches s held Q st (m ctx.strict st) (m ctx.lenient st)

/-- From all cursors of some class, both readings of an action match. -/
def Spec (s : Script) (P : Cursor → Prop) (held : List Outline) (m : Parse α) (Q : α → Cursor → Prop) :
    Prop :=
  ∀ c, P c → From s c held m Q

/-- From anywhere, both readings of an action match. -/
abbrev Gathers (s : Script) (m : Parse α) : Prop := Spec s (fun _ => True) [] m (fun _ _ => True)

/-- What holds of a cursor and of every one further on. -/
class Stable (s : Script) (P : Cursor → Prop) : Prop where
  reach : ∀ {c c' : Cursor}, c.tokens = s.tokens → P c → c.Reaches c' → P c'

instance (s : Script) : Stable s (fun _ => True) := ⟨fun _ _ _ => trivial⟩

instance (s : Script) (c₀ : Cursor) (start : Span) : Stable s (c₀.Opens start) :=
  ⟨fun hc hopens hreach => hopens.reach hc hreach⟩

/-! ## Putting readings together -/

variable {s : Script} {c c' : Cursor} {held rest : List Outline} {m : Parse α} {f : α → Parse β}
  {P : Cursor → Prop} {Q R : α → Cursor → Prop} {Q' : β → Cursor → Prop} {st st' : State}
  {x y : EStateM.Result SyntaxError State α} {a : α}

/-- What matches also matches from before something was read and not reported on. -/
theorem Matches.precede (hpass : st.cursor.Passes st'.cursor) (hreport : st'.report = st.report)
    (h : Matches s held Q st' x y) : Matches s held Q st x y := by
  cases h with
  | agree hpass' hreport' hcarries hpost =>
      exact .agree (hpass.trans hpass') (hreport'.trans hreport) hcarries hpost
  | fail hfails hproceeds hgrows =>
      exact .fail (hfails.precede hpass.reaches hreport) (hproceeds.precede hpass.reaches hreport) hgrows
  | part hfails hproceeds hgrows hbroken hsettled hpost =>
      exact .part (hfails.precede hpass.reaches hreport) (hproceeds.precede hpass.reaches hreport) hgrows hbroken
        hsettled hpost

/-- What matches with the parts in hand matches with what they were made of. -/
theorem Matches.carry {mid : List Outline} (hcarries : Carries s held mid)
    (h : Matches s (rest ++ mid) Q st x y) : Matches s (rest ++ held) Q st x y := by
  cases h with
  | agree hpass hreport hcarries' hpost =>
      exact .agree hpass hreport (hcarries.trans hcarries') hpost
  | fail hfails hproceeds hgrows => exact .fail hfails hproceeds hgrows
  | part hfails hproceeds hgrows hbroken hsettled hpost =>
      refine .part hfails hproceeds hgrows hbroken (fun hheld => hsettled ?_) hpost
      rw [List.forall_mem_append] at hheld ⊢
      exact ⟨hheld.1, hcarries.settled hheld.2⟩

/-- A lenient reading goes on with broken parts after the strict one gave up. -/
theorem Matches.broken {mid : List Outline} {e : SyntaxError} {st₁ : State} (hfails : Fails s st e st₁)
    (hproceeds : Proceeds s st st') (hgrows : st₁.report.Grows st'.report)
    (hbroken : ¬ ∀ o ∈ mid, o.Intact) (hsettled : (∀ o ∈ held, o.Settled s) → ∀ o ∈ mid, o.Settled s)
    (h : Matches s (rest ++ mid) Q st' x y) : Matches s (rest ++ held) Q st (.error e st₁) y := by
  have hsettled' (hheld : ∀ o ∈ rest ++ held, o.Settled s) : ∀ o ∈ rest ++ mid, o.Settled s := by
    rw [List.forall_mem_append] at hheld ⊢
    exact ⟨hheld.1, hsettled hheld.2⟩
  -- What `h` compares are two readings that go on with broken parts; only the second one takes place.
  cases h with
  | agree hpass hreport hcarries hpost =>
      refine .part hfails (hproceeds.follow hpass.reaches hreport) (hreport ▸ hgrows) ?_
        (fun hheld => hcarries.settled (hsettled' hheld)) hpost
      rw [hcarries.intact, List.forall_mem_append]
      exact fun h => hbroken h.2
  | fail hfails' hproceeds' hgrows' =>
      exact .fail hfails (hproceeds.trans hproceeds') (hgrows.trans (hfails'.grows.trans hgrows'))
  | part hfails' hproceeds' hgrows' hbroken' hsettled'' hpost =>
      exact .part hfails (hproceeds.trans hproceeds') (hgrows.trans (hfails'.grows.trans hgrows')) hbroken'
        (fun hheld => hsettled'' (hsettled' hheld)) hpost

/-- One reading after another. Outlines that only the second one is concerned with are set apart. -/
theorem From.seq (hm : From s c held m R) (hf : ∀ a, Spec s (R a) (rest ++ shown a) (f a) Q') :
    From s c (rest ++ held) (m >>= f) Q' := by
  intro ctx st hst hc
  have hnext {a : α} {st' : State} (hpost : R a st'.cursor) (hreach : st.cursor.Reaches st'.cursor) :=
    hf a st'.cursor hpost ctx st' rfl (hreach.tokens_eq.trans (hst ▸ hc))
  have h := hm ctx st hst hc
  rw [bind_run, bind_run]
  -- From here on only how the two results match counts, not the action that gave them.
  generalize m ctx.strict st = x, m ctx.lenient st = y at h
  cases h with
  | agree hpass hreport hcarries hpost =>
      exact .precede hpass hreport (.carry hcarries (hnext hpost hpass.reaches))
  | fail hfails hproceeds hgrows => exact .fail hfails hproceeds hgrows
  | part hfails hproceeds hgrows hbroken hsettled hpost =>
      exact .broken hfails hproceeds hgrows hbroken hsettled (hnext hpost hproceeds.reaches)

/-- One part is read after others. -/
theorem From.bind (hm : From s c [] m R) (hf : ∀ a, Spec s (R a) (held ++ shown a) (f a) Q') :
    From s c held (m >>= f) Q' := by
  rw [← List.append_nil held]
  exact .seq hm hf

/-- One reading after another that is concerned with all that the first one gives. -/
theorem From.follow (hm : From s c held m R) (hf : ∀ a, Spec s (R a) (shown a) (f a) Q') :
    From s c held (m >>= f) Q' := by
  rw [← List.nil_append held]
  exact .seq hm hf

/-- What is held may have been made of other parts. -/
theorem From.carry {mid : List Outline} (hcarries : Carries s held mid) (h : From s c mid m Q) :
    From s c held m Q :=
  fun ctx st hst hc => by
    rw [← List.nil_append held]
    exact .carry hcarries (h ctx st hst hc)

/-- What follows from the place where a reading ends. -/
theorem From.imp (h : From s c held m R)
    (hQ : ∀ a c', c'.tokens = s.tokens → c.Reaches c' → R a c' → Q a c') : From s c held m Q := by
  intro ctx st hst hc
  have htokens {st' : State} (hreach : st.cursor.Reaches st'.cursor) :=
    hreach.tokens_eq.trans (hst ▸ hc)
  have hmatch := h ctx st hst hc
  subst hst
  generalize m ctx.strict st = x, m ctx.lenient st = y at hmatch
  cases hmatch with
  | agree hpass hreport hcarries hpost =>
      exact .agree hpass hreport hcarries (hQ _ _ (htokens hpass.reaches) hpass.reaches hpost)
  | fail hfails hproceeds hgrows => exact .fail hfails hproceeds hgrows
  | part hfails hproceeds hgrows hbroken hsettled hpost =>
      exact .part hfails hproceeds hgrows hbroken hsettled
        (hQ _ _ (htokens hproceeds.reaches) hproceeds.reaches hpost)

/-- What holds from here on still holds where a reading ends. -/
theorem From.frame [hstable : Stable s P] (hP : P c) (h : From s c held m Q) :
    From s c held m (fun a c' => P c' ∧ Q a c') := by
  intro ctx st hst hc
  refine From.imp h (fun a c' _ hreach hQ => ⟨?_, hQ⟩) ctx st hst hc
  exact hstable.reach hc hP hreach

/-- The tokens of a cursor are those of the script. -/
theorem From.tokens (h : c.tokens = s.tokens → From s c held m Q) : From s c held m Q :=
  fun ctx st hst hc => h hc ctx st hst hc

/-- An action that reads nothing matches. -/
theorem From.pure (hcarries : Carries s held (shown a)) (hQ : Q a c) : From s c held (pure a) Q :=
  fun _ _ hst _ => .agree (.refl _) rfl hcarries (hst ▸ hQ)

omit [Outlined α] in
/-- Both readings go from one cursor to another alike. -/
theorem From.step (hm : ∀ st, st.cursor = c →
      ∃ st', (∀ ctx, m ctx st = .ok a st') ∧ st'.cursor = c' ∧ st'.report = st.report)
    (hpass : c.tokens = s.tokens → c.Passes c') (hf : From s c' held (f a) Q') :
    From s c held (m >>= f) Q' := by
  intro ctx st hst hc
  obtain ⟨st', hrun, hst', hreport⟩ := hm st hst
  rw [bind_run, bind_run, hrun, hrun]
  have hpass := hpass hc
  exact .precede (by rw [hst, hst']; exact hpass) hreport
    (hf ctx st' hst' (hpass.reaches.tokens_eq.trans hc))

/-- An action is followed by nothing. -/
theorem From.last (h : From s c held (m >>= Pure.pure) Q) : From s c held m Q := by
  rwa [bind_pure] at h

/-- Both readings give up, perhaps after something was read. -/
theorem From.fails {e : SyntaxError} (hm : ∀ st, st.cursor = c →
      ∃ st', (∀ ctx, m ctx st = .error e st') ∧ st'.cursor = c' ∧ st'.report = st.report.after e)
    (hreach : c.tokens = s.tokens → c.Reaches c')
    (hfound : c.tokens = s.tokens → e.found.kind = .invalid → e.found ∈ s.tokens)
    (hlies : c.tokens = s.tokens → c.Lies s e.span c') (hbrace : BlamesBrace e c') : From s c held m Q := by
  intro ctx st hst hc
  obtain ⟨st', hrun, hst', hreport⟩ := hm st hst
  subst hst hst'
  have hproceeds : Proceeds s st st' := .of_after hc (hreach hc) hreport fun _ => hlies hc
  rw [hrun, hrun]
  exact .fail ⟨hproceeds, hreport, hfound hc, hbrace⟩ hproceeds (.refl _)

/-! ## From all cursors of a class -/

/-- What is known of an action from every cursor, without where it ends. -/
theorem Gathers.of_from {R : Cursor → α → Cursor → Prop} (h : ∀ c, From s c [] m (R c)) : Gathers s m :=
  fun c _ => .imp (h c) fun _ _ _ _ _ => trivial

/-- One part is read after others. -/
theorem Spec.bind [Stable s P] (hm : Gathers s m) (hf : ∀ a, Spec s P (held ++ shown a) (f a) Q') :
    Spec s P held (m >>= f) Q' :=
  fun c hP => .bind (.frame hP (hm c trivial)) fun a c' h => hf a c' h.1

theorem Spec.pure (hcarries : Carries s held (shown a)) (hQ : ∀ c, P c → Q a c) :
    Spec s P held (pure a) Q :=
  fun c hP => .pure hcarries (hQ c hP)

/-- One of two parts is read, and both are followed by the same. -/
theorem Spec.join [Stable s P] {b : Prop} [Decidable b] {m' : Parse α} (hm : b → Gathers s m)
    (hm' : ¬b → Gathers s m') (hf : ∀ a, Spec s P (held ++ shown a) (f a) Q') :
    Spec s P held (if b then m >>= f else m' >>= f) Q' := by
  split
  · exact .bind (hm ‹_›) hf
  · exact .bind (hm' ‹_›) hf

/-- A part that ends a reading. -/
theorem Spec.give (hcarries : Carries s held (shown a)) :
    Spec s P held (Pure.pure a) fun _ _ => True := .pure hcarries fun _ _ => trivial

omit [Outlined α] in
theorem Spec.ret (h : Spec s P held (f a) Q') : Spec s P held (Pure.pure a >>= f) Q' := by
  rwa [pure_bind]

theorem From.ite {b : Prop} [Decidable b] {m m' : Parse α} (h : b → From s c held m Q)
    (h' : ¬b → From s c held m' Q) : From s c held (if b then m else m') Q := by
  split
  · exact h ‹_›
  · exact h' ‹_›

theorem Spec.ite {b : Prop} [Decidable b] {m m' : Parse α} (h : b → Spec s P held m Q)
    (h' : ¬b → Spec s P held m' Q) : Spec s P held (if b then m else m') Q :=
  fun c hP => .ite (h · c hP) (h' · c hP)

end Parse

end ShellFront
