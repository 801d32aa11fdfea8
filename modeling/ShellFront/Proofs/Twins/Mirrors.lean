import ShellFront.Proofs.Twins.Actions

/-!
# How the readings of productions tally

A production is read part by part. It is not known beforehand where its parts begin, only that they begin somewhere
after the production itself: wherever it has come, what it goes on with tallies.

## Contents
- `Continues`, `Keeps`: what a production goes on with, and its parts.
- `Mirrors`: productions.
- Marks, skipping and places.
-/

namespace ShellFront

open Outlined

namespace Parse

variable {α β : Type} {b : Seam} {r r' : Rules} {c c₁ : Cursor} {kind : TokenKind} {problem : Problem}

section

variable [Viewable α] [Viewable β] {n : Nat} {read : Bool} {K : TokenKind → Prop} {L : α → Prop}
  {L' : β → Prop} {Q R : α → Cursor → Prop} {Q' : β → Cursor → Prop} {m m' : Parse α}
  {f f' : α → Parse β} {g g' : Token → Parse α} {start start' : Span}

/-- Wherever a production has come since `n` tokens were left, two actions tally. -/
def Continues (b : Seam) (r : Rules) (n : Nat) (read : Bool) (m m' : Parse α) (L : α → Prop)
    (Q : α → Cursor → Prop) : Prop :=
  ∀ c, b.Past r n read c → Tallies b c m m' L Q

/-- A part of a production: its readings tally. -/
def Keeps (b : Seam) (r : Rules) (m m' : Parse α) (L : α → Prop) : Prop :=
  ∀ n, Continues b r n false m m' L fun _ _ => True

/-- A production that reads something from tokens of some kinds: its readings tally from wherever fewer than
    `n` tokens are left. -/
def Mirrors (b : Seam) (n : Nat) (K : TokenKind → Prop) (m m' : Parse α) : Prop :=
  ∀ c, b.Meets c → c.ahead.length < n → K c.kind →
    Tallies b c m m' (fun _ => False) fun _ c' => c'.ahead.length < c.ahead.length

/-- That a production reads something is known already, and so is that it gives up at a cut. -/
theorem Mirrors.of_forms_lt [Outlined α] (hforms : Forms b.script .nothing K m)
    (h : ∀ c, b.Meets c → c.ahead.length < n → b.Inside c → K c.kind →
      Tallies b c m m' (fun _ => False) fun _ _ => True) : Mirrors b n K m m' := by
  intro c hc hfuel hK mode st st' hallows hst hst' hreport
  have hdoes := hforms c hc.tokens hK ⟨mode, b.isBuiltin⟩ st (fun _ => .inl rfl) hst
  by_cases hin : b.Inside c
  · have htied := h c hc hfuel hin hK mode st st' hallows hst hst' hreport
    generalize m ⟨mode, b.isBuiltin⟩ st = x, m' ⟨mode, b.isBuiltin'⟩ st' = y at hdoes htied
    cases htied with
    | agree hlike hmeets hle hcursor hreport _ =>
        obtain ⟨o, -, hspans⟩ := hdoes.spans
        exact .agree hlike hmeets hle hcursor hreport hspans.length_lt
    | stray hloose _ => exact hloose.elim
    | fail hlike hmeets hle hcursor hreport hshallow => exact .fail hlike hmeets hle hcursor hreport hshallow
    | spent hspent => exact .spent hspent
  · have hlost := hc.lost hin
    generalize m ⟨mode, b.isBuiltin⟩ st = x at hdoes
    match x with
    | .ok a st₁ =>
        obtain ⟨o, -, hspans⟩ := hdoes.spans
        have hlt := hspans.length_lt
        rw [hlost.ahead] at hlt
        contradiction
    | .error _ st₁ =>
        obtain ⟨_, _, hread, -⟩ := hdoes
        exact .spent (hlost.stays hread.reaches).spent

/-- So it is enough to look at places that are inside. -/
theorem Mirrors.of_forms [Outlined α] (hforms : Forms b.script .nothing K m)
    (h : ∀ c, b.Fresh r c → b.Inside c → K c.kind →
      Tallies b c m m' (fun _ => False) fun _ _ => True) : Mirrors b r.fuel K m m' :=
  .of_forms_lt hforms fun c hc hfuel => h c ⟨hc, hfuel⟩

/-- A production whose parts are not known beforehand. -/
theorem Mirrors.of_tallies (h : ∀ c, b.Fresh r c → K c.kind → Tallies b c m m' (fun _ => False)
    fun _ c' => c'.ahead.length < c.ahead.length) : Mirrors b r.fuel K m m' :=
  fun c hc hfuel hK => h c ⟨hc, hfuel⟩ hK

/-- What a production gives tallies. -/
theorem Mirrors.tallies (h : Mirrors b n K m m') (hc : b.Meets c) (hfuel : c.ahead.length < n) (hK : K c.kind) :
    Tallies b c m m' (fun _ => False) fun _ _ => True :=
  .imp (h c hc hfuel hK) fun _ _ _ => trivial

/-- With less depth to go. -/
theorem Mirrors.inner (h : Mirrors b r.fuel K m m') : Mirrors b (r.fuel - 1) K m m' :=
  fun c hc hfuel => h c hc (by omega)

/-- A change of the mode that does not turn recovering on. -/
theorem Mirrors.within {change : Mode → Mode} (hchange : ∀ mode, (change mode).recovering = true →
    mode.recovering = true) (h : Mirrors b n K m m') : Mirrors b n K (within change m) (within change m') :=
  fun c hc hfuel hK => .within hchange (h c hc hfuel hK)

/-- The same for a part of a production, -/
theorem Keeps.within {change : Mode → Mode} (hchange : ∀ mode, (change mode).recovering = true →
    mode.recovering = true) (h : Keeps b r m m' L) : Keeps b r (within change m) (within change m') L :=
  fun n c hc => .within hchange (h n c hc)

/-- and for what a production goes on with. -/
theorem Continues.within {change : Mode → Mode} (hchange : ∀ mode, (change mode).recovering = true →
    mode.recovering = true) (h : Continues b r n read m m' L Q) :
    Continues b r n read (within change m) (within change m') L Q :=
  fun c hc => .within hchange (h c hc)

/-! ### One part after another -/

/-- A production begins with something that reads. -/
theorem Tallies.first (hc : b.Fresh r c)
    (hm : Tallies b c m m' (fun _ => False) fun _ c' => c'.ahead.length < c.ahead.length)
    (hf : ∀ a a', b.Like a a' → Continues b r c.ahead.length true (f a) (f' a') L' Q') :
    Tallies b c (m >>= f) (m' >>= f') L' Q' :=
  .bind hm fun a a' c₁ hlike hmeets _ hlt => hf a a' hlike c₁ (hc.past hmeets hlt)

/-- A production begins with a part of its own. -/
theorem Tallies.node (hc : b.Fresh r c) (hK : K c.kind) (hm : Mirrors b r.fuel K m m')
    (hf : ∀ a a', b.Like a a' → Continues b r c.ahead.length true (f a) (f' a') L' Q') :
    Tallies b c (m >>= f) (m' >>= f') L' Q' :=
  .first hc (hm c hc.meets hc.fuel hK) hf

/-- A production that is part of another one. -/
theorem Continues.node (hm : Mirrors b (r.fuel - 1) (fun _ => True) m m')
    (hf : ∀ a a', b.Like a a' → Continues b r n true (f a) (f' a') L' Q') :
    Continues b r n read (m >>= f) (m' >>= f') L' Q' := by
  intro c hc
  have hfuel := hc.fuel
  exact .bind (hm c hc.meets (by omega) trivial) fun a a' c₁ hlike hmeets _ hlt =>
    hf a a' hlike c₁ (hc.further_lt hmeets hlt)

/-- A part that may come to a cut: what follows it has to fade there. -/
theorem Continues.loosely (hm : Keeps b r m m' L) (hfade : ∀ a, L a → Fades b L' (f a))
    (hf : ∀ a a', b.Like a a' → Continues b r n read (f a) (f' a') L' Q') :
    Continues b r n read (m >>= f) (m' >>= f') L' Q' :=
  fun c hc => .loosely (hm _ c hc.here) hfade fun a a' c₁ hlike hmeets hle _ =>
    hf a a' hlike c₁ (hc.further hmeets hle)

/-- A part that does not come to a cut. -/
theorem Continues.part (hm : Keeps b r m m' fun _ => False)
    (hf : ∀ a a', b.Like a a' → Continues b r n read (f a) (f' a') L' Q') :
    Continues b r n read (m >>= f) (m' >>= f') L' Q' :=
  .loosely hm (fun _ h => h.elim) hf

/-- A part of which something more is known. -/
theorem Continues.partWith {P : α → Prop} (hm : Keeps b r m m' fun _ => False)
    (hP : ∀ c, Yields c (fun a _ => P a) m)
    (hf : ∀ a a', b.Like a a' → P a → Continues b r n read (f a) (f' a') L' Q') :
    Continues b r n read (m >>= f) (m' >>= f') L' Q' :=
  fun c hc => .bind (.learn (hm _ c hc.here) (hP c)) fun a a' c₁ hlike hmeets hle hpost =>
    hf a a' hlike hpost.2 c₁ (hc.further hmeets hle)

/-- One of two parts is read, and both are followed by the same. -/
theorem Continues.join {p : Prop} [Decidable p] {k k' : Parse α} (hm : p → Keeps b r m m' fun _ => False)
    (hk : ¬p → Keeps b r k k' fun _ => False)
    (hf : ∀ a a', b.Like a a' → Continues b r n read (f a) (f' a') L' Q') :
    Continues b r n read (if p then m >>= f else k >>= f) (if p then m' >>= f' else k' >>= f') L' Q' := by
  split
  · exact .part (hm ‹_›) hf
  · exact .part (hk ‹_›) hf

/-- A part ends. -/
theorem Continues.give {a a' : α} (ha : b.Like a a') :
    Continues b r n read (Pure.pure a) (Pure.pure a') L fun _ _ => True :=
  fun _ hc => .pure hc.meets ha trivial

/-- A part that has read something ends. -/
theorem Continues.took {a a' : α} (ha : b.Like a a') :
    Continues b r n true (Pure.pure a) (Pure.pure a') L fun _ c => c.ahead.length < n :=
  fun _ hc => .pure hc.meets ha (hc.lt rfl)

omit [Viewable α] in
theorem Continues.ret {a a' : α} (h : Continues b r n read (f a) (f' a') L' Q') :
    Continues b r n read (Pure.pure a >>= f) (Pure.pure a' >>= f') L' Q' :=
  fun c hc => .ret (h c hc)

theorem Continues.last (h : Continues b r n read (m >>= Pure.pure) (m' >>= Pure.pure) L Q) :
    Continues b r n read m m' L Q :=
  fun c hc => .last (h c hc)

theorem Continues.fail (hshallow : problem.isShallow = true) :
    Continues b r n read (fail problem) (fail problem) L Q :=
  fun _ hc => .fail hc.meets hshallow

theorem Continues.ite {p : Prop} [Decidable p] {k k' : Parse α} (h : p → Continues b r n read m m' L Q)
    (h' : ¬p → Continues b r n read k k' L Q) :
    Continues b r n read (if p then m else k) (if p then m' else k') L Q :=
  fun c hc => .ite (h · c hc) (h' · c hc)

/-! ### Marks -/

/-- A token is read, and its twin. -/
theorem Tallies.advance (hc : b.Meets c) (hkind : c.kind.isMark = true)
    (hg : Tallies b c.advance (g c.current) (g' (b.image c).current) L Q) :
    Tallies b c (Parse.advance >>= g) (Parse.advance >>= g') L Q := by
  have hend := (TokenKind.isMark_iff.mp hkind).2
  have himage := Seam.image_advance (Seam.inside_of_kind hc.tokens hend) hc.tokens hend
  intro mode st st' hallows hst hst' hreport
  subst hst
  have h := hg mode { st with cursor := st.cursor.advance } { st' with cursor := st'.cursor.advance } hallows rfl
    (by rw [hst']; exact himage) hreport
  rw [← hst'] at h
  exact Tied.le h st.cursor.length_ahead_advance

/-- The first token is read. -/
theorem Tallies.opens (hc : b.Fresh r c) (hkind : c.kind.isMark = true)
    (hg : ∀ t', b.Like c.current t' → Continues b r c.ahead.length true (g c.current) (g' t') L Q) :
    Tallies b c (Parse.advance >>= g) (Parse.advance >>= g') L Q := by
  have hend := (TokenKind.isMark_iff.mp hkind).2
  have hin := Seam.inside_of_kind hc.meets.tokens hend
  have hlt := (Cursor.advance_reads hc.meets.tokens hend).length_lt (by simp)
  exact .advance hc.meets hkind
    (hg _ (hin.current hc.meets.tokens) c.advance (hc.past (hc.meets.advance_mark hkind) hlt))

/-- A token is read on the way. -/
theorem Tallies.next (hc : b.Past r n read c) (hkind : c.kind.isMark = true)
    (hg : ∀ t', b.Like c.current t' → Continues b r n true (g c.current) (g' t') L Q) :
    Tallies b c (Parse.advance >>= g) (Parse.advance >>= g') L Q := by
  refine .opens hc.fresh hkind fun t' hlike c₁ hc₁ => hg t' hlike c₁ ?_
  exact hc.further_lt hc₁.meets (hc₁.lt rfl)

/-- A mark that must come next, and its twin. -/
theorem Tallies.demand (hc : b.Meets c) (hkind : kind.isMark = true) (hshallow : problem.isShallow = true)
    (hg : c.kind = kind → Tallies b c.advance (g c.current) (g' (b.image c).current) L Q) :
    Tallies b c (Parse.expect kind problem >>= g) (Parse.expect kind problem >>= g') L Q := by
  rw [Parse.expect, bind_assoc, bind_assoc]
  refine .check hc hkind ?_
  cases h : c.kind == kind with
  | true =>
      have h := eq_of_beq h
      exact .advance hc (h ▸ hkind) (hg h)
  | false => exact .bind (R := fun _ _ => False) (.fail hc hshallow) fun _ _ _ _ _ _ h => h.elim

/-- A mark that must come next does not come where only line breaks are left before a cut. -/
theorem Tallies.mark_spent {g : Token → Parse α} {m' : Parse α} (hspent : b.Spent c) (hkind : kind.isMark = true) :
    Tallies b c (Parse.expect kind problem >>= g) m' L Q := by
  intro mode st st' _ hst _ _
  subst hst
  obtain ⟨hbreak, hend⟩ := TokenKind.isMark_iff.mp hkind
  have hcheck : (st.cursor.kind == kind) = false := by
    rw [beq_eq_false_iff_ne]
    rcases hspent.kind with h | h
    · rw [h]
      exact hbreak.symm
    · rw [h]
      exact hend.symm
  rw [Parse.expect, bind_run]
  simp only [bind_run, Parse.check, hcheck, Bool.false_eq_true, if_false, fail_run]
  exact .spent hspent

/-- A mark that must come next. -/
theorem Tallies.expect (hc : b.Fresh r c) (hkind : kind.isMark = true) (hshallow : problem.isShallow = true)
    (hg : c.kind = kind → ∀ t', b.Like c.current t' →
      Continues b r c.ahead.length true (g c.current) (g' t') L Q) :
    Tallies b c (Parse.expect kind problem >>= g) (Parse.expect kind problem >>= g') L Q := by
  refine .demand hc.meets hkind hshallow fun h => ?_
  have hmark : c.kind.isMark = true := h ▸ hkind
  have hend := (TokenKind.isMark_iff.mp hmark).2
  have hin := Seam.inside_of_kind hc.meets.tokens hend
  have hlt := (Cursor.advance_reads hc.meets.tokens hend).length_lt (by simp)
  exact hg h _ (hin.current hc.meets.tokens) c.advance (hc.past (hc.meets.advance_mark hmark) hlt)

/-- A mark that has to come next. -/
theorem Continues.mark (hkind : kind.isMark = true) (hshallow : problem.isShallow = true)
    (hg : ∀ t t', b.Like t t' → Continues b r n true (g t) (g' t') L Q) :
    Continues b r n read (Parse.expect kind problem >>= g) (Parse.expect kind problem >>= g') L Q :=
  fun _ hc => .expect hc.fresh hkind hshallow fun _ t' hlike c₁ hc₁ =>
    hg _ t' hlike c₁ (hc.further_lt hc₁.meets (hc₁.lt rfl))

/-- A mark that may come next. -/
theorem Continues.accept {f f' : Bool → Parse α} (hkind : kind.isMark = true)
    (hyes : Continues b r n true (f true) (f' true) L Q) (hno : Continues b r n read (f false) (f' false) L Q) :
    Continues b r n read (Parse.accept kind >>= f) (Parse.accept kind >>= f') L Q := by
  intro c hc mode st st' hallows hst hst' hreport
  obtain ⟨hbreak, hend⟩ := TokenKind.isMark_iff.mp hkind
  have hsame : (st'.cursor.kind == kind) = (c.kind == kind) := by
    rw [hst']
    refine hc.meets.agrees (p := (· == kind)) ?_
    rw [beq_eq_false_iff_ne.mpr hbreak.symm, beq_eq_false_iff_ne.mpr hend.symm]
  rw [bind_run, bind_run]
  by_cases h : c.kind = kind
  · have h' : st'.cursor.kind = kind := eq_of_beq (hsame.trans (beq_of_eq h))
    have hnext : Tallies b c (Parse.advance >>= fun _ => f true) (Parse.advance >>= fun _ => f' true) L Q :=
      .next hc (h ▸ hkind) fun _ _ => hyes
    have htied := hnext mode st st' hallows hst hst' hreport
    rw [bind_run, bind_run] at htied
    subst hst
    simp only [Parse.accept, h, h', if_true]
    exact htied
  · have h' : ¬ st'.cursor.kind = kind := fun heq => h (eq_of_beq (hsame.symm.trans (beq_of_eq heq)))
    have htied := hno c hc mode st st' hallows hst hst' hreport
    subst hst
    simp only [Parse.accept, h, h', if_false]
    exact htied

/-- One way to go on behind a mark, another one where it does not stand. -/
theorem Continues.ifAccept {k k' : Parse α} (hkind : kind.isMark = true) (hyes : Continues b r n true m m' L Q)
    (hno : Continues b r n read k k' L Q) :
    Continues b r n read (Parse.accept kind >>= fun yes => if yes then m else k)
      (Parse.accept kind >>= fun yes => if yes then m' else k') L Q :=
  .accept hkind hyes hno

/-- The same, with nothing read. -/
theorem Continues.ifCheck {k k' : Parse α} (hkind : kind.isMark = true) (hyes : Continues b r n read m m' L Q)
    (hno : Continues b r n read k k' L Q) :
    Continues b r n read (Parse.check kind >>= fun yes => if yes then m else k)
      (Parse.check kind >>= fun yes => if yes then m' else k') L Q :=
  fun c hc => .check hc.meets hkind (.ite (fun _ => hyes c hc) fun _ => hno c hc)

/-! ### Skipping -/

/-- Skipping leads to the image of where it leads; it may come to a cut. -/
theorem skip_tallies {p : TokenKind → Bool} (hc : b.Meets c) :
    Tallies b c (move (Cursor.skipWhile p)) (move (Cursor.skipWhile p)) (fun _ => True)
      fun _ c' => c' = c.skipWhile p ∧ b.Inside c' := by
  obtain ⟨ts, hread, -⟩ := c.skipWhile_reads p
  have htokens := hread.tokens_eq.trans hc.tokens
  intro mode st st' _ hst hst' hreport
  subst hst
  rcases Seam.inside_or_lost htokens with hin | hlost
  · refine .agree rfl (hc.skipWhile hin) (Cursor.length_ahead_skipWhile p _) ?_ hreport ⟨rfl, hin⟩
    rw [hst']
    exact Seam.image_skipWhile hc.tokens hin
  · exact .stray trivial hlost

/-- Line breaks may lead to a cut. -/
theorem Continues.skipNewlines {f f' : Unit → Parse β} (hfade : Fades b L' (f ()))
    (hf : Continues b r n read (f ()) (f' ()) L' Q') :
    Continues b r n read (skipNewlines >>= f) (skipNewlines >>= f') L' Q' :=
  .loosely (fun _ _ hc => .imp (skip_tallies hc.meets) fun _ _ _ => trivial) (fun _ _ => hfade) fun _ _ _ => hf

/-- Separators are skipped, perhaps up to a cut. -/
theorem Continues.skipSeparators {f f' : Unit → Parse β} (hfade : Fades b L' (f ()))
    (hf : Continues b r n read (f ()) (f' ()) L' Q') :
    Continues b r n read (skipSeparators >>= f) (skipSeparators >>= f') L' Q' :=
  .loosely (fun _ _ hc => .imp (skip_tallies hc.meets) fun _ _ _ => trivial) (fun _ _ => hfade) fun _ _ _ => hf

/-! ### Places -/

/-- The places of what was read are alike. -/
theorem Tallies.spanFrom {f f' : Span → Parse β} (hc : b.Meets c) (hbegun : c.before ≠ [])
    (hstart : b.Like start start') (hf : ∀ span span', b.Like span span' → Tallies b c (f span) (f' span') L' Q') :
    Tallies b c (Parse.spanFrom start >>= f) (Parse.spanFrom start' >>= f') L' Q' := by
  intro mode st st' hallows hst hst' hreport
  have hspan : b.Like (start.cover c.previous.span) (start'.cover st'.cursor.previous.span) := by
    rw [hst']
    exact hstart.covers (Seam.image_previous hc.tokens hbegun).place
  have h := hf _ _ hspan mode st st' hallows hst hst' hreport
  subst hst
  exact h

/-- The span from a start to what was read last. -/
theorem Continues.spanFrom {f f' : Span → Parse β} (hstart : b.Like start start')
    (hf : ∀ span span', b.Like span span' → Continues b r n read (f span) (f' span') L' Q') :
    Continues b r n read (Parse.spanFrom start >>= f) (Parse.spanFrom start' >>= f') L' Q' :=
  fun c hc => .spanFrom hc.meets hc.begun hstart fun span span' hlike => hf span span' hlike c hc

/-- A production is finished. -/
theorem Continues.finish {make make' : Span → α} (hstart : b.Like start start')
    (hmake : ∀ span span', b.Like span span' → b.Like (make span) (make' span')) :
    Continues b r n read (Parse.spanFrom start >>= fun span => Pure.pure (make span))
      (Parse.spanFrom start' >>= fun span => Pure.pure (make' span)) L fun _ _ => True :=
  .spanFrom hstart fun span span' hlike => .give (hmake span span' hlike)

/-- A part that has read something is finished. -/
theorem Continues.closing {make make' : Span → α} (hstart : b.Like start start')
    (hmake : ∀ span span', b.Like span span' → b.Like (make span) (make' span')) :
    Continues b r n true (Parse.spanFrom start >>= fun span => Pure.pure (make span))
      (Parse.spanFrom start' >>= fun span => Pure.pure (make' span)) L fun _ c => c.ahead.length < n :=
  .spanFrom hstart fun span span' hlike => .took (hmake span span' hlike)

end

end Parse

end ShellFront
