import ShellFront.Proofs.Twins.Loops

/-!
# Outcomes of one run

Further rules for what an action `Yields` from a cursor: one for each small action, with what it finds and where it
leads, one for items that are collected, and rules for an action that is run in a context of its own.

## Contents
- `Parse.Yields.peek`, `Parse.Yields.advance`, …: small actions and what follows them.
- `Parse.Yields.collect`, for every item alike.
- `Parse.under` and `Parse.Yields.of_under`: one context.
-/

namespace ShellFront

namespace Parse

variable {α β γ : Type} {m : Parse α} {f : α → Parse β} {c : Cursor} {ctx : Context} {P Q : α → Cursor → Prop}

namespace Yields

variable {P' : β → Cursor → Prop}

/-! ## Small actions -/

/-- An action that gives up yields nothing, so whatever is claimed. -/
theorem fail {problem : Problem} : Yields c P (Parse.fail problem) := by
  intro ctx st a st' _ hrun
  rw [fail_run] at hrun
  contradiction

theorem failAt {token : Token} {problem : Problem} : Yields c P (Parse.failAt token problem) := by
  intro ctx st a st' _ hrun
  rw [Parse.failAt, bind_run, reportError_run] at hrun
  contradiction

theorem peek {f : Token → Parse β} (hf : Yields c P' (f c.current)) : Yields c P' (Parse.peek >>= f) := by
  intro ctx st b st' hst hrun
  subst hst
  exact hf ctx st b st' rfl hrun

theorem advance {f : Token → Parse β} (hf : Yields c.advance P' (f c.current)) :
    Yields c P' (Parse.advance >>= f) := by
  intro ctx st b st' hst hrun
  subst hst
  exact hf ctx { st with cursor := st.cursor.advance } b st' rfl hrun

theorem check {kind : TokenKind} {f : Bool → Parse β} (hf : Yields c P' (f (c.kind == kind))) :
    Yields c P' (Parse.check kind >>= f) := by
  intro ctx st b st' hst hrun
  subst hst
  exact hf ctx st b st' rfl hrun

/-- What follows may use whether the mark was there. -/
theorem accept {kind : TokenKind} {f : Bool → Parse β} (hyes : c.kind = kind → Yields c.advance P' (f true))
    (hno : c.kind ≠ kind → Yields c P' (f false)) : Yields c P' (Parse.accept kind >>= f) := by
  intro ctx st b st' hst hrun
  subst hst
  by_cases h : st.cursor.kind = kind
  · rw [bind_run, Parse.accept, if_pos h] at hrun
    exact hyes h ctx { st with cursor := st.cursor.advance } b st' rfl hrun
  · rw [bind_run, Parse.accept, if_neg h] at hrun
    exact hno h ctx st b st' rfl hrun

/-- What follows may use that the mark was there. -/
theorem expect {kind : TokenKind} {problem : Problem} {f : Token → Parse β}
    (hf : c.kind = kind → Yields c.advance P' (f c.current)) : Yields c P' (Parse.expect kind problem >>= f) := by
  refine .bind (P := fun t c₁ => c.kind = kind ∧ t = c.current ∧ c₁ = c.advance)
    (.check (.ite (fun h => ?_) fun _ => .fail)) ?_
  · rintro ctx st _ _ rfl hrun
    obtain ⟨rfl, rfl⟩ := EStateM.Result.ok.inj hrun
    exact ⟨eq_of_beq h, rfl, rfl⟩
  · rintro _ _ ⟨h, rfl, rfl⟩
    exact hf h

theorem spanFrom {start : Span} {f : Span → Parse β} (hf : ∀ span, Yields c P' (f span)) :
    Yields c P' (Parse.spanFrom start >>= f) :=
  fun ctx st b st' hst hrun => hf _ ctx st b st' hst hrun

/-- Two claims about one action hold together. -/
theorem and (h : Yields c P m) (h' : Yields c Q m) : Yields c (fun a c => P a c ∧ Q a c) m :=
  fun ctx st a st' hst hrun => ⟨h ctx st a st' hst hrun, h' ctx st a st' hst hrun⟩

/-- A claim may be weakened. -/
theorem imp (h : Yields c P m) (hPQ : ∀ a c, P a c → Q a c) : Yields c Q m :=
  fun ctx st a st' hst hrun => hPQ _ _ (h ctx st a st' hst hrun)

end Yields

/-! ## Items -/

theorem forall_mem_push {P : α → Prop} {as : Array α} {a : α} (has : ∀ b ∈ as.toList, P b) (ha : P a) :
    ∀ b ∈ (as.push a).toList, P b := by
  rw [Array.toList_push]
  exact List.forall_mem_append.mpr ⟨has, List.forall_mem_singleton.mpr ha⟩

/-- What holds of each item holds of all that are collected. -/
theorem Yields.collect {P : α → Prop} {r : Rules} {item : Parse (Option α)}
    (h : ∀ c, Yields c (fun a? _ => ∀ a, a? = some a → P a) item) :
    Yields c (fun as _ => ∀ a ∈ as, P a) (r.collect item) := by
  refine .loop (I := fun as _ => ∀ a ∈ as.toList, P a) (fun as c₁ has => ?_) (by simp)
  refine .bind (h c₁) fun a? _ ha => ?_
  cases a? with
  | some a => exact .pure (forall_mem_push has (ha a rfl))
  | none => exact .pure has

/-- Items are collected up to a place where there is none. -/
theorem Yields.collect_stops {stops : Cursor → Prop} {r : Rules} {item : Parse (Option α)}
    (h : ∀ c, Yields c (fun a? c' => a? = none → stops c') item) :
    Yields c (fun _ c' => stops c') (r.collect item) := by
  refine .loop (I := fun _ _ => True) (fun as c₁ _ => .bind (h c₁) fun a? c₂ hstops => ?_) trivial
  cases a? with
  | some a => exact .pure trivial
  | none => exact .pure (hstops rfl)

/-! ## One context -/

/-- An action in a context of its own. -/
def under (ctx : Context) (m : Parse α) : Parse α := fun _ st => m ctx st

/-- A changed mode is a changed context. -/
theorem under_within (ctx : Context) (change : Mode → Mode) (m : Parse α) :
    under ctx (within change m) = under { ctx with mode := change ctx.mode } m := rfl

/-- A loop runs each of its turns in the context of the loop. -/
theorem under_loop (ctx : Context) (r : Rules) (b : β) (turn : β → Parse (Turn β γ)) :
    under ctx (r.loop b turn) = r.loop b fun b => under ctx (turn b) := by
  unfold Rules.loop
  generalize r.fuel + 1 = n
  induction n generalizing b with
  | zero => rfl
  | succ n ih =>
      refine congrArg (under ctx (turn b) >>= ·) ?_
      funext t
      cases t with
      | again b => exact ih b
      | done c => rfl

theorem under_collect (ctx : Context) (r : Rules) (item : Parse (Option α)) :
    under ctx (r.collect item) = r.collect (under ctx item) := by
  unfold Rules.collect
  rw [under_loop]
  refine congrArg (r.loop _) (funext fun items => congrArg (under ctx item >>= ·) (funext fun a? => ?_))
  cases a? <;> rfl

namespace Yields

variable {P' : β → Cursor → Prop}

/-- What holds in every context holds. -/
theorem of_under (h : ∀ ctx, Yields c P (under ctx m)) : Yields c P m :=
  fun ctx st a st' hst hrun => h ctx ctx st a st' hst hrun

/-- A claim about all contexts holds in each of them. -/
theorem under (h : Yields c P m) : Yields c P (Parse.under ctx m) :=
  fun _ st a st' hst hrun => h ctx st a st' hst hrun

theorem bindIn (hm : Yields c P (Parse.under ctx m))
    (hf : ∀ a c₁, P a c₁ → Yields c₁ P' (Parse.under ctx (f a))) : Yields c P' (Parse.under ctx (m >>= f)) :=
  .bind hm hf

theorem skipIn (hf : ∀ a c₁, Yields c₁ P' (Parse.under ctx (f a))) :
    Yields c P' (Parse.under ctx (m >>= f)) := .skip hf

theorem modeIn {f : Mode → Parse β} (hf : Yields c P' (Parse.under ctx (f ctx.mode))) :
    Yields c P' (Parse.under ctx (Parse.mode >>= f)) := hf

theorem peekIn {f : Token → Parse β} (hf : Yields c P' (Parse.under ctx (f c.current))) :
    Yields c P' (Parse.under ctx (Parse.peek >>= f)) := .peek hf

theorem hereIn {f : Cursor → Parse β} (hf : Yields c P' (Parse.under ctx (f c))) :
    Yields c P' (Parse.under ctx (Parse.here >>= f)) := .here hf

theorem spanIn {start : Span} {f : Span → Parse β} (hf : ∀ span, Yields c P' (Parse.under ctx (f span))) :
    Yields c P' (Parse.under ctx (Parse.spanFrom start >>= f)) := .spanFrom hf

/-- An attempt gives what it attempts, if it gives anything. -/
theorem tentatively {P : α → Prop}
    (h : Yields c (fun a _ => P a) (Parse.under { ctx with mode := ctx.mode.tentative } m)) :
    Yields c (fun a? _ => ∀ a, a? = some a → P a) (Parse.under ctx (Grammar.tentatively m)) := by
  intro _ st a? st' hst hrun
  unfold Parse.under Grammar.tentatively at hrun
  split at hrun
  · next a _ ha =>
      obtain ⟨rfl, rfl⟩ := EStateM.Result.ok.inj hrun
      rintro _ ⟨rfl⟩
      exact h ctx st a _ hst ha
  · obtain ⟨rfl, rfl⟩ := EStateM.Result.ok.inj hrun
    intro a hnone
    contradiction

end Yields

end Parse

end ShellFront
