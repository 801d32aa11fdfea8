import ShellFront.Proofs.Twins.Fading

/-!
# How two readings tally

An action is run on a script and on its twin. From a cursor and its image, the two runs **tally**: both end at a
cursor and its image, and what they give is alike. Past a cut only the first run counts: it has lost the other
one, and what comes next has to give up.

Both runs are of the same action, with rules that go to different depths. How deep they go does not matter, as
long as they go as deep as there are tokens.

## Contents
- `Tied`, `Tallies` and the rules for them.
- Modes and attempts.
-/

namespace ShellFront

open Outlined

/-- Whether a cause is another one than the end of the depth. -/
def Problem.isShallow : Problem → Bool
  | tooDeep => false
  | _ => true

/-- A shallow cause is not that the depth ended. -/
theorem Problem.ne_tooDeep {problem : Problem} (h : problem.isShallow = true) : problem ≠ .tooDeep := by
  rintro rfl
  contradiction

namespace Parse

variable {α β : Type} {b : Seam} {r r' : Rules} {c c₁ : Cursor} {kind : TokenKind} {problem : Problem}

/-- How the results of two runs are **tied**. Values in `L` may be given past a cut. -/
inductive Tied [Viewable α] (b : Seam) (c : Cursor) (L : α → Prop) (Q : α → Cursor → Prop) :
    EStateM.Result SyntaxError State α → EStateM.Result SyntaxError State α → Prop where
  | agree {a a' : α} {st st' : State} (hlike : b.Like a a') (hmeets : b.Meets st.cursor)
      (hle : st.cursor.ahead.length ≤ c.ahead.length) (hcursor : st'.cursor = b.image st.cursor)
      (hreport : b.Agrees st.report st'.report) (hpost : Q a st.cursor) :
      Tied b c L Q (.ok a st) (.ok a' st')
  /-- The first run has come to a cut. -/
  | stray {a : α} {st : State} {y : EStateM.Result SyntaxError State α} (hloose : L a)
      (hlost : b.Lost st.cursor) : Tied b c L Q (.ok a st) y
  | fail {e e' : SyntaxError} {st st' : State} (hlike : b.Like e e') (hmeets : b.Meets st.cursor)
      (hle : st.cursor.ahead.length ≤ c.ahead.length) (hcursor : st'.cursor = b.image st.cursor)
      (hreport : b.Agrees st.report st'.report) (hshallow : e.problem.isShallow = true) :
      Tied b c L Q (.error e st) (.error e' st')
  /-- The first run gave up before a cut. -/
  | spent {e : SyntaxError} {st : State} {y : EStateM.Result SyntaxError State α}
      (hspent : b.Spent st.cursor) : Tied b c L Q (.error e st) y

/-- From a cursor and its image, two actions **tally**. -/
def Tallies [Viewable α] (b : Seam) (c : Cursor) (m m' : Parse α) (L : α → Prop) (Q : α → Cursor → Prop) :
    Prop :=
  ∀ (mode : Mode) (st st' : State), b.Allows mode → st.cursor = c → st'.cursor = b.image c →
    b.Agrees st.report st'.report → Tied b c L Q (m ⟨mode, b.isBuiltin⟩ st) (m' ⟨mode, b.isBuiltin'⟩ st')

section

variable [Viewable α] [Viewable β] {L : α → Prop} {L' : β → Prop} {Q R : α → Cursor → Prop}
  {Q' : β → Cursor → Prop} {m m' : Parse α} {f f' : α → Parse β}
  {x y : EStateM.Result SyntaxError State α}

/-- What is known of the result may be weakened. -/
theorem Tied.imp (h : Tied b c L R x y) (hQ : ∀ a c', R a c' → Q a c') : Tied b c L Q x y := by
  cases h with
  | agree hlike hmeets hle hcursor hreport hpost => exact .agree hlike hmeets hle hcursor hreport (hQ _ _ hpost)
  | stray hloose hlost => exact .stray hloose hlost
  | fail hlike hmeets hle hcursor hreport hshallow => exact .fail hlike hmeets hle hcursor hreport hshallow
  | spent hspent => exact .spent hspent

/-- The readers may have started earlier. -/
theorem Tied.le (h : Tied b c₁ L Q x y) (hle : c₁.ahead.length ≤ c.ahead.length) : Tied b c L Q x y := by
  cases h with
  | agree hlike hmeets hle' hcursor hreport hpost =>
      exact .agree hlike hmeets (Nat.le_trans hle' hle) hcursor hreport hpost
  | stray hloose hlost => exact .stray hloose hlost
  | fail hlike hmeets hle' hcursor hreport hshallow =>
      exact .fail hlike hmeets (Nat.le_trans hle' hle) hcursor hreport hshallow
  | spent hspent => exact .spent hspent

theorem Tallies.imp (h : Tallies b c m m' L R) (hQ : ∀ a c', R a c' → Q a c') : Tallies b c m m' L Q :=
  fun mode st st' hallows hst hst' hreport => (h mode st st' hallows hst hst' hreport).imp hQ

/-- A run that faded is tied to any other. -/
theorem Faded.tied (h : Faded b L x) : Tied b c L Q x y :=
  match x, h with
  | .ok _ _, ⟨hloose, hlost⟩ => .stray hloose hlost
  | .error _ _, hlost => .spent (Seam.Lost.spent hlost)

/-- What fades at a cut tallies there. -/
theorem Tallies.of_fades (hlost : b.Lost c) (h : Fades b L m) : Tallies b c m m' L Q :=
  fun mode st _ _ hst _ _ => (h ⟨mode, b.isBuiltin⟩ st (hst ▸ hlost)).tied

/-- What is known of the first run alone. -/
theorem Tallies.learn {P : α → Cursor → Prop} (h : Tallies b c m m' L R) (hP : Yields c P m) :
    Tallies b c m m' L fun a c' => R a c' ∧ P a c' := by
  intro mode st st' hallows hst hst' hreport
  have hP := hP ⟨mode, b.isBuiltin⟩ st
  have h := h mode st st' hallows hst hst' hreport
  generalize m ⟨mode, b.isBuiltin⟩ st = x, m' ⟨mode, b.isBuiltin'⟩ st' = y at h hP
  cases h with
  | agree hlike hmeets hle hcursor hreport hpost =>
      exact .agree hlike hmeets hle hcursor hreport ⟨hpost, hP _ _ hst rfl⟩
  | stray hloose hlost => exact .stray hloose hlost
  | fail hlike hmeets hle hcursor hreport hshallow => exact .fail hlike hmeets hle hcursor hreport hshallow
  | spent hspent => exact .spent hspent

/-- **One action after another.** What follows has to fade where the first action may have come to a cut. -/
theorem Tallies.loosely (hm : Tallies b c m m' L R) (hfade : ∀ a, L a → Fades b L' (f a))
    (hf : ∀ a a' c₁, b.Like a a' → b.Meets c₁ → c₁.ahead.length ≤ c.ahead.length → R a c₁ →
      Tallies b c₁ (f a) (f' a') L' Q') : Tallies b c (m >>= f) (m' >>= f') L' Q' := by
  intro mode st st' hallows hst hst' hreport
  have h := hm mode st st' hallows hst hst' hreport
  rw [bind_run, bind_run]
  generalize m ⟨mode, b.isBuiltin⟩ st = x, m' ⟨mode, b.isBuiltin'⟩ st' = y at h
  cases h with
  | @agree a a' st₁ st₁' hlike hmeets hle hcursor hreport hpost =>
      exact (hf a a' st₁.cursor hlike hmeets hle hpost mode st₁ st₁' hallows rfl hcursor hreport).le hle
  | stray hloose hlost => exact (hfade _ hloose ⟨mode, b.isBuiltin⟩ _ hlost).tied
  | fail hlike hmeets hle hcursor hreport hshallow => exact .fail hlike hmeets hle hcursor hreport hshallow
  | spent hspent => exact .spent hspent

/-- One action after another, where the first one does not come to a cut. -/
theorem Tallies.bind (hm : Tallies b c m m' (fun _ => False) R)
    (hf : ∀ a a' c₁, b.Like a a' → b.Meets c₁ → c₁.ahead.length ≤ c.ahead.length → R a c₁ →
      Tallies b c₁ (f a) (f' a') L' Q') : Tallies b c (m >>= f) (m' >>= f') L' Q' :=
  .loosely hm (fun _ h => h.elim) hf

/-- A value that is given at once. -/
theorem Tallies.pure {a a' : α} (hc : b.Meets c) (ha : b.Like a a') (hQ : Q a c) :
    Tallies b c (Pure.pure a) (Pure.pure a') L Q := by
  intro mode st st' _ hst hst' hreport
  subst hst
  exact .agree ha hc (Nat.le_refl _) hst' hreport hQ

omit [Viewable α] in
theorem Tallies.ret {a a' : α} (h : Tallies b c (f a) (f' a') L' Q') :
    Tallies b c (Pure.pure a >>= f) (Pure.pure a' >>= f') L' Q' := by
  rwa [pure_bind, pure_bind]

theorem Tallies.last (h : Tallies b c (m >>= Pure.pure) (m' >>= Pure.pure) L Q) : Tallies b c m m' L Q := by
  rwa [bind_pure, bind_pure] at h

/-- The place may be asked for. -/
theorem Tallies.here {f f' : Cursor → Parse β} (hf : Tallies b c (f c) (f' (b.image c)) L' Q') :
    Tallies b c (here >>= f) (here >>= f') L' Q' := by
  intro mode st st' hallows hst hst' hreport
  have h := hf mode st st' hallows hst hst' hreport
  rw [← hst', ← hst] at h
  subst hst
  exact h

/-- So may the token that stands there. -/
theorem Tallies.look {f f' : Token → Parse β} (hf : Tallies b c (f c.current) (f' (b.image c).current) L' Q') :
    Tallies b c (Parse.peek >>= f) (Parse.peek >>= f') L' Q' := by
  intro mode st st' hallows hst hst' hreport
  have h := hf mode st st' hallows hst hst' hreport
  rw [← hst', ← hst] at h
  subst hst
  exact h

/-- Inside, the two tokens that stand there are alike. -/
theorem Tallies.peek {f f' : Token → Parse β} (hc : b.Meets c) (hin : b.Inside c)
    (hf : ∀ t', b.Like c.current t' → Tallies b c (f c.current) (f' t') L' Q') :
    Tallies b c (Parse.peek >>= f) (Parse.peek >>= f') L' Q' :=
  .look (hf _ (hin.current hc.tokens))

/-- A glance at the next token, which at a cut is the end of the input for one reader and a line break for the
    other. -/
theorem Tallies.glance {f f' : Token → Parse β} (hc : b.Meets c)
    (hf : ∀ t', b.Like c.current t' → Tallies b c (f c.current) (f' t') L' Q')
    (hcut : ∀ t', c.current.kind = .endOfInput → t'.kind = .newline →
      Tallies b c (f c.current) (f' t') L' Q') : Tallies b c (Parse.peek >>= f) (Parse.peek >>= f') L' Q' := by
  by_cases hin : b.Inside c
  · exact .peek hc hin hf
  · obtain ⟨hend, hbreak⟩ := hc.at_cut hin
    exact .look (hcut _ hend hbreak)

/-- The mode may be asked for: it is the same in both runs. -/
theorem Tallies.mode {f f' : Mode → Parse β}
    (hf : ∀ mode, b.Allows mode → Tallies b c (f mode) (f' mode) L' Q') :
    Tallies b c (mode >>= f) (mode >>= f') L' Q' :=
  fun mode st st' hallows hst hst' hreport => hf mode hallows mode st st' hallows hst hst' hreport

/-- The readers may know other commands. -/
theorem Tallies.read {f f' : Context → Parse β}
    (hf : ∀ mode, Tallies b c (f ⟨mode, b.isBuiltin⟩) (f' ⟨mode, b.isBuiltin'⟩) L' Q') :
    Tallies b c (read >>= f) (read >>= f') L' Q' :=
  fun mode st st' hallows hst hst' hreport => hf mode mode st st' hallows hst hst' hreport

/-- What is noted in the log does not count. -/
theorem Tallies.note {entry entry' : LogEntry} {f f' : Unit → Parse β}
    (hf : Tallies b c (f ()) (f' ()) L' Q') : Tallies b c (note entry >>= f) (note entry' >>= f') L' Q' :=
  fun mode st st' hallows hst hst' hreport =>
    hf mode { st with log := st.log.push entry } { st' with log := st'.log.push entry' } hallows hst hst' hreport

/-- A step that leads from an image to the image of where it leads. -/
theorem Tallies.move {step : Cursor → Cursor} {f f' : Unit → Parse β} (hc : b.Meets (step c))
    (hle : (step c).ahead.length ≤ c.ahead.length) (himage : step (b.image c) = b.image (step c))
    (hf : Tallies b (step c) (f ()) (f' ()) L' Q') : Tallies b c (move step >>= f) (move step >>= f') L' Q' := by
  refine .bind (R := fun _ c' => c' = step c) ?_ fun _ _ c₁ _ _ _ heq => heq ▸ hf
  intro mode st st' hallows hst hst' hreport
  subst hst
  exact .agree rfl hc hle (by rw [hst']; exact himage) hreport rfl

/-- Errors that are alike are reported alike. -/
theorem agrees_after {report report' : Report} {e e' : SyntaxError} (h : b.Agrees report report')
    (he : b.Like e e') : b.Agrees (report.after e) (report'.after e') := by
  have hd : e.diagnostic.view b.left = e'.diagnostic.view b.right := he.diagnostic
  rw [Seam.Agrees] at h
  rw [Seam.Agrees, Report.after, Report.after, he.found.kind]
  split
  · exact h
  · rw [Report.toList_add, Report.toList_add, List.map_append, List.map_append, h, List.append_assoc,
      List.map_singleton, List.map_singleton, hd]

/-- The errors at a token and at its twin are alike. -/
theorem Tallies.refuse {f f' : SyntaxError → Parse β} (hc : b.Meets c) (hin : b.Inside c)
    (hf : ∀ e e', b.Like e e' → e.problem = problem → Tallies b c (f e) (f' e') L' Q') :
    Tallies b c (refuse problem >>= f) (refuse problem >>= f') L' Q' := by
  intro mode st st' hallows hst hst' hreport
  subst hst
  have he : b.Like (⟨problem, st.cursor.current, st.cursor.blamed⟩ : SyntaxError)
      ⟨problem, st'.cursor.current, st'.cursor.blamed⟩ := by
    rw [hst']
    exact .error (hin.current hc.tokens) (hin.blamed hc)
  rw [bind_run, bind_run, refuse_run, refuse_run]
  exact hf _ _ he rfl mode _ _ hallows rfl hst' (agrees_after hreport he)

/-- Giving up because of the current token. -/
theorem Tallies.fail (hc : b.Meets c) (hshallow : problem.isShallow = true) :
    Tallies b c (fail problem) (fail problem) L Q := by
  intro mode st st' hallows hst hst' hreport
  subst hst
  rw [fail_run, fail_run]
  by_cases hin : b.Inside st.cursor
  · have he : b.Like (⟨problem, st.cursor.current, st.cursor.blamed⟩ : SyntaxError)
        ⟨problem, st'.cursor.current, st'.cursor.blamed⟩ := by
      rw [hst']
      exact .error (hin.current hc.tokens) (hin.blamed hc)
    exact .fail he hc (Nat.le_refl _) hst' (agrees_after hreport he) hshallow
  · exact .spent (hc.lost hin).spent

/-- Giving up because of a token that was read before. -/
theorem Tallies.failAt {token token' : Token} (hc : b.Meets c) (htoken : b.Like token token')
    (hshallow : problem.isShallow = true) :
    Tallies b c (failAt token problem) (failAt token' problem) L Q := by
  intro mode st st' hallows hst hst' hreport
  subst hst
  have he : b.Like (⟨problem, token, token.span⟩ : SyntaxError) ⟨problem, token', token'.span⟩ :=
    .error htoken htoken.place
  rw [failAt_run, failAt_run]
  exact .fail he hc (Nat.le_refl _) hst' (agrees_after hreport he) hshallow

/-- Giving up with an error that is known. -/
theorem Tallies.throw {e e' : SyntaxError} (hc : b.Meets c) (he : b.Like e e') (hshallow : e.problem.isShallow = true) :
    Tallies b c (throw e : Parse α) (throw e') L Q := by
  intro mode st st' _ hst hst' hreport
  subst hst
  exact .fail he hc (Nat.le_refl _) hst' hreport hshallow

/-- **What is done about an error.** A run that gave up before a cut has to give up again. -/
theorem Tallies.attempt {f f' : Except SyntaxError α → Parse β} (hm : Tallies b c m m' (fun _ => False) R)
    (hok : ∀ a a' c₁, b.Like a a' → b.Meets c₁ → c₁.ahead.length ≤ c.ahead.length → R a c₁ →
      Tallies b c₁ (f (.ok a)) (f' (.ok a')) L' Q')
    (herror : ∀ e e' c₁, b.Like e e' → e.problem.isShallow = true → b.Meets c₁ →
      c₁.ahead.length ≤ c.ahead.length → Tallies b c₁ (f (.error e)) (f' (.error e')) L' Q')
    (hspent : ∀ mode e st, b.Allows mode → b.Spent st.cursor →
      ∃ e' st', f (.error e) ⟨mode, b.isBuiltin⟩ st = .error e' st' ∧ b.Spent st'.cursor) :
    Tallies b c (attempt m >>= f) (attempt m' >>= f') L' Q' := by
  intro mode st st' hallows hst hst' hreport
  have h := hm mode st st' hallows hst hst' hreport
  rw [bind_run, bind_run, Parse.attempt, Parse.attempt]
  generalize m ⟨mode, b.isBuiltin⟩ st = x, m' ⟨mode, b.isBuiltin'⟩ st' = y at h
  cases h with
  | @agree a a' st₁ st₁' hlike hmeets hle hcursor hreport hpost =>
      exact (hok a a' _ hlike hmeets hle hpost mode st₁ st₁' hallows rfl hcursor hreport).le hle
  | stray hloose _ => exact hloose.elim
  | @fail e e' st₁ st₁' hlike hmeets hle hcursor hreport hshallow =>
      exact (herror e e' _ hlike hshallow hmeets hle mode st₁ st₁' hallows rfl hcursor hreport).le hle
  | @spent e st₁ y hspent' =>
      obtain ⟨e', st₂, hrun, hspent₂⟩ := hspent mode e st₁ hallows hspent'
      dsimp only
      rw [hrun]
      exact .spent hspent₂

/-- What is read tentatively is taken back by both or by neither. -/
theorem Tallies.tentatively {f f' : Option α → Parse β}
    (hm : Tallies b c m m' (fun _ => False) R)
    (hspent : ∀ ctx st e st', ctx.mode.recovering = false → st.cursor = c → m ctx st = .error e st' →
      ¬ b.Spent st'.cursor)
    (hsome : ∀ a a' c₁, b.Like a a' → b.Meets c₁ → c₁.ahead.length ≤ c.ahead.length → R a c₁ →
      Tallies b c₁ (f (some a)) (f' (some a')) L' Q')
    (hnone : Tallies b c (f none) (f' none) L' Q') :
    Tallies b c (Grammar.tentatively m >>= f) (Grammar.tentatively m' >>= f') L' Q' := by
  intro mode st st' hallows hst hst' hreport
  have h := hm mode.tentative st st' (fun _ => rfl) hst hst' hreport
  have hspent := hspent ⟨mode.tentative, b.isBuiltin⟩ st
  rw [bind_run, bind_run, Grammar.tentatively, Grammar.tentatively, Parse.within, Parse.within]
  generalize m ⟨mode.tentative, b.isBuiltin⟩ st = x, m' ⟨mode.tentative, b.isBuiltin'⟩ st' = y at h hspent
  cases h with
  | @agree a a' st₁ st₁' hlike hmeets hle hcursor hreport hpost =>
      exact (hsome a a' _ hlike hmeets hle hpost mode st₁ st₁' hallows rfl hcursor hreport).le hle
  | stray hloose _ => exact hloose.elim
  | @fail e e' st₁ st₁' =>
      exact hnone mode { st₁ with cursor := st.cursor, report := st.report }
        { st₁' with cursor := st'.cursor, report := st'.report } hallows hst hst' hreport
  | spent hspent' => exact absurd hspent' (hspent _ _ rfl hst rfl)

/-- A mark is there for both runs or for neither. -/
theorem Tallies.check {f f' : Bool → Parse β} (hc : b.Meets c)
    (hkind : kind.isMark = true)
    (hf : Tallies b c (f (c.kind == kind)) (f' (c.kind == kind)) L' Q') :
    Tallies b c (check kind >>= f) (check kind >>= f') L' Q' := by
  intro mode st st' hallows hst hst' hreport
  have h := hf mode st st' hallows hst hst' hreport
  have hsame : (st'.cursor.kind == kind) = (c.kind == kind) := by
    rw [hst']
    refine hc.agrees (p := (· == kind)) ?_
    obtain ⟨hbreak, hend⟩ := TokenKind.isMark_iff.mp hkind
    rw [beq_eq_false_iff_ne.mpr hbreak.symm, beq_eq_false_iff_ne.mpr hend.symm]
  rw [← hsame] at h
  rw [bind_run, bind_run]
  subst hst
  simp only [Parse.check]
  rw [← hsame]
  exact h

/-- Inside, any kind of token is there for both runs or for neither. -/
theorem Tallies.checkInside {f f' : Bool → Parse β} (hc : b.Meets c) (hin : b.Inside c)
    (hf : Tallies b c (f (c.kind == kind)) (f' (c.kind == kind)) L' Q') :
    Tallies b c (Parse.check kind >>= f) (Parse.check kind >>= f') L' Q' := by
  intro mode st st' hallows hst hst' hreport
  have h := hf mode st st' hallows hst hst' hreport
  rw [← hin.kind hc.tokens, ← hst', hst', hin.kind hc.tokens] at h
  rw [bind_run, bind_run]
  subst hst
  simp only [Parse.check]
  rw [hst', hin.kind hc.tokens]
  exact h

/-- Two ways to go on. -/
theorem Tallies.ite {p : Prop} [Decidable p] {n n' : Parse α} (h : p → Tallies b c m m' L Q)
    (h' : ¬p → Tallies b c n n' L Q) : Tallies b c (if p then m else n) (if p then m' else n') L Q := by
  split
  · exact h ‹_›
  · exact h' ‹_›

/-- A change of the mode that does not turn recovering on. -/
theorem Tallies.within {change : Mode → Mode} (hchange : ∀ mode, (change mode).recovering = true →
    mode.recovering = true) (h : Tallies b c m m' L Q) :
    Tallies b c (within change m) (within change m') L Q := by
  refine fun mode st st' hallows hst hst' hreport =>
    h (change mode) st st' (fun hcut => ?_) hst hst' hreport
  exact Bool.eq_false_iff.mpr fun h => absurd (hchange _ h) (by rw [hallows hcut]; decide)

end

end Parse

end ShellFront
