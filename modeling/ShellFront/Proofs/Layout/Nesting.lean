import ShellFront.Token

/-!
# Nested brackets

Tokens are read from left to right with a stack of the brackets that are open. A closer has to close the
innermost one; where it does not, the tokens are not nested and there is no stack. `Watch` says which
brackets count: all of them, braces only, or none. A reader that skips broken statements keeps braces
together but no other brackets, so both views are needed.

A stack can be followed from any place on: what is open before stays below. So whether some tokens are nested
by themselves does not depend on where they stand.

## Contents
- `Symbol.partner?`, `Watch`, `Watch.step`, `Watch.follow`.
- `Nested`, `Paired`.
- `Nested.exists_paired`, `Watch.follow_unique`: a brace has one partner.
- `Nested.braces`: what is nested for all brackets is nested for braces.
-/

namespace ShellFront

/-! ## Following brackets -/

/-- The closer of an opener. Substitutions end with a parenthesis. -/
def Symbol.partner? : Symbol → Option Symbol
  | openParen | openSubstitution | openProcessIn | openProcessOut => some closeParen
  | openBracket => some closeBracket
  | openBrace => some closeBrace
  | _ => none

/-- Which brackets count. -/
inductive Watch where
  | nothing
  | braces
  | all
deriving DecidableEq

namespace Watch

/-- Whether a symbol is a bracket that counts. -/
def sees : Watch → Symbol → Bool
  | nothing, _ => false
  | braces, s => s == .openBrace || s == .closeBrace
  | all, s => s.isOpener || s.isCloser

/-- The stack after a closer, which has to close the innermost bracket. -/
def close (s : Symbol) : List Symbol → Option (List Symbol)
  | [] => none
  | opener :: rest => if opener.partner? = some s then some rest else none

/-- The stack after a bracket. -/
def stepBracket (stack : List Symbol) (s : Symbol) : Option (List Symbol) :=
  if s.isOpener then some (s :: stack) else close s stack

/-- The stack after one token. -/
def step (w : Watch) (stack : List Symbol) : TokenKind → Option (List Symbol)
  | .symbol s => if w.sees s then stepBracket stack s else some stack
  | _ => some stack

/-- The stack after some tokens. -/
def follow (w : Watch) (stack : List Symbol) (ts : List Token) : Option (List Symbol) :=
  ts.foldlM (fun stack t => w.step stack t.kind) stack

end Watch

/-- All brackets are closed in order, and none is closed that was not opened. -/
def Nested (ts : List Token) : Prop := Watch.all.follow [] ts = some []

instance (ts : List Token) : Decidable (Nested ts) :=
  inferInstanceAs (Decidable (Watch.all.follow [] ts = some []))

/-- An opening brace and the closing one that matches it: what stands between them is nested. -/
def Paired (tokens : List Token) (opener closer : Token) : Prop :=
  ∃ before inside after, tokens = before ++ opener :: (inside ++ closer :: after) ∧
    opener.kind = .symbol .openBrace ∧ closer.kind = .symbol .closeBrace ∧ Nested inside

namespace TokenKind

/-- Whether a kind of token can stand in a script and is no bracket. -/
def isInert : TokenKind → Bool
  | invalid | endOfInput => false
  | symbol s => !(s.isOpener || s.isCloser)
  | _ => true

theorem ne_endOfInput_of_inert {kind : TokenKind} (h : kind.isInert = true) : kind ≠ .endOfInput := by
  rintro rfl
  contradiction

end TokenKind

namespace Watch

variable {w : Watch} {stack base : List Symbol} {ts us : List Token}

/-! ## One token -/

theorem sees_closer {s : Symbol} (hsees : w.sees s = true) (hopener : s.isOpener = false) :
    s.isCloser = true := by
  cases w with
  | nothing => contradiction
  | braces =>
      simp only [sees, Bool.or_eq_true, beq_iff_eq] at hsees
      rcases hsees with rfl | rfl
      · contradiction
      · rfl
  | all =>
      rw [sees, hopener, Bool.false_or] at hsees
      exact hsees

/-- Openers and their partners count together. -/
theorem sees_partner {opener closer : Symbol} (h : opener.partner? = some closer) :
    w.sees closer = w.sees opener := by
  unfold Symbol.partner? at h
  split at h <;> first | contradiction | (obtain rfl := Option.some.inj h; cases w <;> rfl)

theorem isOpener_of_partner {opener closer : Symbol} (h : opener.partner? = some closer) :
    opener.isOpener = true ∧ closer.isOpener = false := by
  unfold Symbol.partner? at h
  split at h <;> first | contradiction | (obtain rfl := Option.some.inj h; exact ⟨rfl, rfl⟩)

theorem step_symbol (s : Symbol) :
    w.step stack (.symbol s) = if w.sees s then stepBracket stack s else some stack := rfl

theorem step_inert {kind : TokenKind} (h : kind.isInert = true) : w.step stack kind = some stack := by
  cases kind with
  | symbol s =>
      rw [TokenKind.isInert, Bool.not_eq_true'] at h
      obtain ⟨hopener, hcloser⟩ := Bool.or_eq_false_iff.mp h
      have hsees : ¬ w.sees s = true := fun hsees =>
        absurd (sees_closer hsees hopener) (by rw [hcloser]; decide)
      rw [step_symbol, if_neg hsees]
  | _ => rfl

/-- An opener that counts is put on the stack. -/
theorem step_opener {s : Symbol} (h : s.isOpener = true) (base : List Symbol) :
    w.step (base.filter w.sees) (.symbol s) = some ((s :: base).filter w.sees) := by
  rw [step_symbol, List.filter_cons]
  split
  · rw [stepBracket, if_pos h]
  · rfl

/-- A closer takes its partner off the stack. -/
theorem step_closer {opener closer : Symbol} (h : opener.partner? = some closer) (base : List Symbol) :
    w.step ((opener :: base).filter w.sees) (.symbol closer) = some (base.filter w.sees) := by
  rw [step_symbol, sees_partner h, List.filter_cons]
  split
  · have hcloser : ¬ closer.isOpener = true := by rw [(isOpener_of_partner h).2]; decide
    rw [stepBracket, if_neg hcloser, close, if_pos h]
  · rfl

theorem stepBracket_append {s : Symbol} {stack' : List Symbol} (h : stepBracket stack s = some stack')
    (base : List Symbol) : stepBracket (stack ++ base) s = some (stack' ++ base) := by
  rw [stepBracket] at h ⊢
  split at h
  · next hopener =>
      rw [if_pos hopener, ← Option.some.inj h]
      rfl
  · next hopener =>
      rw [if_neg hopener]
      cases stack with
      | nil => contradiction
      | cons o rest =>
          rw [close] at h
          rw [List.cons_append, close]
          split at h
          · next hpartner => rw [if_pos hpartner, ← Option.some.inj h]
          · contradiction

/-- What is open below does not matter to a token. -/
theorem step_append {kind : TokenKind} {stack' : List Symbol} (h : w.step stack kind = some stack')
    (base : List Symbol) : w.step (stack ++ base) kind = some (stack' ++ base) := by
  cases kind with
  | symbol s =>
      rw [step_symbol] at h ⊢
      split at h
      · next hsees =>
          rw [if_pos hsees]
          exact stepBracket_append h base
      · next hsees => rw [if_neg hsees, ← Option.some.inj h]
  | _ => exact congrArg (fun x => some (x ++ base)) (Option.some.inj h)

/-! ## Many tokens -/

theorem follow_nil : w.follow stack [] = some stack := rfl

theorem follow_cons (t : Token) :
    w.follow stack (t :: ts) = (w.step stack t.kind).bind fun stack' => w.follow stack' ts := rfl

theorem follow_append : w.follow stack (ts ++ us) =
    (w.follow stack ts).bind fun stack' => w.follow stack' us := by
  rw [follow, List.foldlM_append]
  rfl

/-- Tokens are followed one after the other. -/
theorem follow_append_of {stack' : List Symbol} (h : w.follow stack ts = some stack') :
    w.follow stack (ts ++ us) = w.follow stack' us := by
  rw [follow_append, h]
  rfl

/-- What was followed to the end was followed up to any place. -/
theorem exists_follow {final : List Symbol} (h : w.follow stack (ts ++ us) = some final) :
    ∃ stack', w.follow stack ts = some stack' ∧ w.follow stack' us = some final := by
  rw [follow_append] at h
  exact Option.bind_eq_some_iff.mp h

theorem exists_step {t : Token} {final : List Symbol} (h : w.follow stack (t :: ts) = some final) :
    ∃ stack', w.step stack t.kind = some stack' ∧ w.follow stack' ts = some final :=
  Option.bind_eq_some_iff.mp h

/-- **What is open below does not matter.** -/
theorem follow_base {stack' : List Symbol} (h : w.follow stack ts = some stack') (base : List Symbol) :
    w.follow (stack ++ base) ts = some (stack' ++ base) := by
  induction ts generalizing stack with
  | nil => rw [← Option.some.inj h, follow_nil]
  | cons t ts ih =>
      obtain ⟨next, hstep, hrest⟩ := exists_step h
      rw [follow_cons, step_append hstep]
      exact ih hrest

theorem follow_nested (h : w.follow [] ts = some []) : w.follow base ts = some base := by
  have := follow_base h base
  rwa [List.nil_append] at this

theorem follow_inert (h : ∀ t ∈ ts, t.kind.isInert = true) : w.follow stack ts = some stack := by
  induction ts with
  | nil => rfl
  | cons t ts ih =>
      obtain ⟨ht, hts⟩ := List.forall_mem_cons.mp h
      rw [follow_cons, step_inert ht]
      exact ih hts

/-- Where no brackets count, all tokens are nested. -/
theorem follow_nothing (ts : List Token) : nothing.follow stack ts = some stack := by
  induction ts with
  | nil => rfl
  | cons t ts ih =>
      rw [follow_cons]
      cases t.kind <;> exact ih

/-! ## Partners -/

theorem step_closeBrace (h : w.sees .closeBrace = true) {stack' : List Symbol}
    (hstep : w.step stack (.symbol .closeBrace) = some stack') : stack = .openBrace :: stack' := by
  rw [step_symbol, if_pos h, stepBracket, if_neg (by decide)] at hstep
  cases stack with
  | nil => contradiction
  | cons o rest =>
      rw [close] at hstep
      split at hstep
      · next hpartner =>
          rw [← Option.some.inj hstep]
          cases o <;> first | rfl | contradiction
      · contradiction

/-- A closing brace stands where something is open. -/
theorem follow_closeBrace (h : w.sees .closeBrace = true) {t : Token} (ht : t.kind = .symbol .closeBrace) :
    w.follow [] (t :: ts) = none := by
  rw [follow_cons, ht]
  cases hstep : w.step [] (.symbol .closeBrace) with
  | none => rfl
  | some stack' => exact nomatch step_closeBrace h hstep

/-- **The partner of a brace is the only one.** -/
theorem follow_unique (h : w.sees .closeBrace = true) {inside inside' after after' : List Token}
    {closer closer' : Token} (heq : inside ++ closer :: after = inside' ++ closer' :: after')
    (hcloser : closer.kind = .symbol .closeBrace) (hcloser' : closer'.kind = .symbol .closeBrace)
    (hinside : w.follow [] inside = some []) (hinside' : w.follow [] inside' = some []) :
    inside = inside' ∧ closer = closer' ∧ after = after' := by
  -- If one of them came first, the other stretch would close what it did not open.
  rcases List.append_eq_append_iff.mp heq with ⟨more, hmore, hrest⟩ | ⟨more, hmore, hrest⟩
  · cases more with
    | nil =>
        rw [List.append_nil] at hmore
        rw [List.nil_append, List.cons.injEq] at hrest
        exact ⟨hmore.symm, hrest⟩
    | cons t more =>
        rw [List.cons_append, List.cons.injEq] at hrest
        rw [hmore, follow_append_of hinside, ← hrest.1, follow_closeBrace h hcloser] at hinside'
        contradiction
  · cases more with
    | nil =>
        rw [List.append_nil] at hmore
        rw [List.nil_append, List.cons.injEq] at hrest
        exact ⟨hmore, hrest.1.symm, hrest.2.symm⟩
    | cons t more =>
        rw [List.cons_append, List.cons.injEq] at hrest
        rw [hmore, follow_append_of hinside', ← hrest.1, follow_closeBrace h hcloser'] at hinside
        contradiction

/-- A step that does not close a brace is one on what is above it. -/
theorem step_above {above next : List Symbol} {kind : TokenKind}
    (hclose : ¬ (above = [] ∧ kind = .symbol .closeBrace))
    (hstep : w.step (above ++ .openBrace :: base) kind = some next) :
    ∃ above', w.step above kind = some above' ∧ next = above' ++ .openBrace :: base := by
  cases habove : w.step above kind with
  | some above' =>
      have hsame := (step_append habove (.openBrace :: base)).symm.trans hstep
      exact ⟨above', rfl, (Option.some.inj hsame).symm⟩
  | none =>
      -- with something above, the closer would have had the same innermost bracket
      exfalso
      cases kind with
      | symbol s =>
          rw [step_symbol] at habove hstep
          split at habove
          · next hsees =>
              rw [if_pos hsees] at hstep
              rw [stepBracket] at habove hstep
              split at habove
              · contradiction
              · next hopener =>
                  rw [if_neg hopener] at hstep
                  cases above with
                  | nil =>
                      rw [List.nil_append, close] at hstep
                      split at hstep
                      · next hpartner =>
                          have hbrace : s = .closeBrace := (Option.some.inj hpartner).symm
                          exact hclose ⟨rfl, by rw [hbrace]⟩
                      · contradiction
                  | cons o rest =>
                      rw [close] at habove
                      rw [List.cons_append, close] at hstep
                      split at hstep
                      · next hpartner =>
                          rw [if_pos hpartner] at habove
                          contradiction
                      · contradiction
          · contradiction
      | _ => contradiction

/-- A brace on the stack that is gone in the end was closed. -/
theorem exists_closer {above final : List Symbol}
    (h : w.follow (above ++ .openBrace :: base) ts = some final) (hlength : final.length ≤ base.length) :
    ∃ inside closer after, ts = inside ++ closer :: after ∧ closer.kind = .symbol .closeBrace ∧
      w.follow above inside = some [] := by
  induction ts generalizing above with
  | nil =>
      obtain rfl := Option.some.inj h
      simp only [List.length_append, List.length_cons] at hlength
      omega
  | cons t ts ih =>
      obtain ⟨next, hstep, hrest⟩ := exists_step h
      by_cases hclose : above = [] ∧ t.kind = .symbol .closeBrace
      · obtain ⟨rfl, ht⟩ := hclose
        exact ⟨[], t, ts, rfl, ht, rfl⟩
      · -- the token keeps the brace, so its step is one on what is above
        obtain ⟨above', habove, rfl⟩ := step_above hclose hstep
        obtain ⟨inside, closer, after, rfl, hcloser, hinside⟩ := ih hrest
        refine ⟨t :: inside, closer, after, rfl, hcloser, ?_⟩
        rw [follow_cons, habove]
        exact hinside

end Watch

/-! ## Nested tokens -/

open Watch

variable {tokens : List Token}

/-- **An opening brace has a partner.** -/
theorem Nested.exists_paired {before rest : List Token} {opener : Token}
    (h : Nested (before ++ opener :: rest)) (hopener : opener.kind = .symbol .openBrace) :
    ∃ inside closer after, rest = inside ++ closer :: after ∧ closer.kind = .symbol .closeBrace ∧
      Nested inside := by
  obtain ⟨base, -, hrest⟩ := exists_follow h
  obtain ⟨stack, hstep, hrest⟩ := exists_step hrest
  rw [hopener, step_symbol, if_pos (by decide), stepBracket, if_pos (by decide)] at hstep
  obtain rfl := Option.some.inj hstep
  have hrest : Watch.all.follow ([] ++ .openBrace :: base) rest = some [] := hrest
  exact exists_closer hrest (Nat.zero_le _)

theorem Watch.step_braces {stack stack' : List Symbol} {kind : TokenKind}
    (h : Watch.all.step stack kind = some stack') :
    Watch.braces.step (stack.filter Watch.braces.sees) kind = some (stack'.filter Watch.braces.sees) := by
  cases kind with
  | symbol s =>
      rw [step_symbol] at h
      split at h
      · next hsees =>
          rw [stepBracket] at h
          split at h
          · next hopener =>
              rw [← Option.some.inj h]
              exact step_opener hopener stack
          · next hopener =>
              cases stack with
              | nil => contradiction
              | cons o rest =>
                  rw [close] at h
                  split at h
                  · next hpartner =>
                      rw [← Option.some.inj h]
                      exact step_closer hpartner rest
                  · contradiction
      · next hsees =>
          -- braces are brackets, so what is no bracket is no brace
          have hinert : (TokenKind.symbol s).isInert = true := by
            rw [TokenKind.isInert, Bool.not_eq_true']
            exact Bool.eq_false_iff.mpr hsees
          rw [step_inert hinert, Option.some.inj h]
  | _ =>
      obtain rfl := Option.some.inj h
      rfl

theorem Watch.follow_braces {stack stack' : List Symbol} (h : Watch.all.follow stack tokens = some stack') :
    Watch.braces.follow (stack.filter Watch.braces.sees) tokens =
      some (stack'.filter Watch.braces.sees) := by
  induction tokens generalizing stack with
  | nil => rw [← Option.some.inj h, follow_nil]
  | cons t ts ih =>
      obtain ⟨next, hstep, hrest⟩ := exists_step h
      rw [follow_cons, step_braces hstep]
      exact ih hrest

/-- Braces among nested brackets are nested. -/
theorem Nested.braces (h : Nested tokens) : Watch.braces.follow [] tokens = some [] := follow_braces h

/-! ### Stretches of tokens -/

/-- A nested stretch does not open a brace that is closed after it. -/
theorem Watch.follow_opener_ne {before inside more : List Token} {opener : Token}
    (hopener : opener.kind = .symbol .openBrace) (hinside : Watch.braces.follow [] (inside ++ more) = some []) :
    Watch.braces.follow [] (before ++ opener :: inside) ≠ some [] := by
  intro h
  obtain ⟨base, -, hrest⟩ := exists_follow h
  obtain ⟨stack, hstep, hrest⟩ := exists_step hrest
  rw [hopener, step_symbol, if_pos (by decide), stepBracket, if_pos (by decide)] at hstep
  obtain rfl := Option.some.inj hstep
  obtain ⟨above, habove, -⟩ := exists_follow hinside
  have hsome := follow_base habove (.openBrace :: base)
  rw [List.nil_append, hrest, Option.some.injEq] at hsome
  exact List.append_ne_nil_of_right_ne_nil above (by simp) hsome.symm

/-- A nested stretch does not close a brace that was opened before it. -/
theorem Watch.follow_closer_ne {more inside after : List Token} {closer : Token}
    (hcloser : closer.kind = .symbol .closeBrace) (hinside : Watch.braces.follow [] (more ++ inside) = some []) :
    Watch.braces.follow [] (inside ++ closer :: after) ≠ some [] := by
  intro h
  obtain ⟨above, habove, hrest⟩ := exists_follow h
  obtain ⟨base, -, hend⟩ := exists_follow hinside
  have hsome := follow_base habove base
  rw [List.nil_append, hend, Option.some.injEq] at hsome
  obtain ⟨rfl, -⟩ := List.append_eq_nil_iff.mp hsome.symm
  rw [follow_closeBrace rfl hcloser] at hrest
  contradiction

/-- A stretch that holds an opener holds its closer, and the tokens after it hold both or neither. -/
theorem Watch.closer_follows {seg after m inside ys : List Token} {opener closer : Token}
    (hopener : opener.kind = .symbol .openBrace) (hinside : Watch.braces.follow [] inside = some [])
    (hseg : Watch.braces.follow [] seg = some [])
    (h : seg ++ after = m ++ opener :: (inside ++ closer :: ys)) :
    (opener ∈ seg ∧ closer ∈ seg) ∨ (opener ∈ after ∧ closer ∈ after) := by
  rcases List.append_eq_append_iff.mp h with ⟨more, rfl, hafter⟩ | ⟨more, rfl, hrest⟩
  · exact .inr ⟨by simp [hafter], by simp [hafter]⟩
  cases more with
  | nil =>
      rw [List.nil_append] at hrest
      exact .inr ⟨by simp [← hrest], by simp [← hrest]⟩
  | cons t more =>
      rw [List.cons_append, List.cons.injEq] at hrest
      obtain ⟨rfl, hrest⟩ := hrest
      rcases List.append_eq_append_iff.mp hrest with ⟨k, rfl, hk⟩ | ⟨k, rfl, hk⟩
      · cases k with
        | nil =>
            rw [List.append_nil] at hseg
            rw [← List.append_nil inside] at hinside
            exact absurd hseg (follow_opener_ne hopener hinside)
        | cons u k =>
            rw [List.cons_append, List.cons.injEq] at hk
            obtain ⟨rfl, -⟩ := hk
            exact .inl ⟨by simp, by simp⟩
      · exact absurd hseg (follow_opener_ne hopener hinside)

/-- A closer whose opener stands before a nested stretch stands after it, or before it too. -/
theorem Watch.closer_beyond {seg after k ys : List Token} {m : List Token} {closer : Token}
    (hcloser : closer.kind = .symbol .closeBrace) (hinside : Watch.braces.follow [] (m ++ k) = some [])
    (hseg : Watch.braces.follow [] seg = some []) (h : seg ++ after = k ++ closer :: ys) :
    closer ∈ after := by
  rcases List.append_eq_append_iff.mp h with ⟨more, rfl, hafter⟩ | ⟨more, rfl, hrest⟩
  · simp [hafter]
  cases more with
  | nil =>
      rw [List.nil_append] at hrest
      simp [← hrest]
  | cons t more =>
      rw [List.cons_append, List.cons.injEq] at hrest
      obtain ⟨rfl, -⟩ := hrest
      exact absurd hseg (follow_closer_ne hcloser hinside)

/-- **A nested stretch keeps braces together**: it holds both braces of a pair or neither. -/
theorem Paired.together {before seg after : List Token} {opener closer : Token}
    (h : Paired (before ++ (seg ++ after)) opener closer) (hseg : Watch.braces.follow [] seg = some []) :
    (opener ∈ seg ∧ closer ∈ seg) ∨
      ((opener ∈ before ∨ opener ∈ after) ∧ (closer ∈ before ∨ closer ∈ after)) := by
  obtain ⟨xs, inside, ys, htokens, hopener, hcloser, hnested⟩ := h
  have hinside := hnested.braces
  have hafter {m : List Token} (hm : seg ++ after = m ++ opener :: (inside ++ closer :: ys)) :=
    (closer_follows hopener hinside hseg hm).imp id fun ⟨ho, hc⟩ =>
      (⟨.inr ho, .inr hc⟩ : (opener ∈ before ∨ opener ∈ after) ∧ (closer ∈ before ∨ closer ∈ after))
  rcases List.append_eq_append_iff.mp htokens with ⟨m, rfl, hm⟩ | ⟨m, rfl, hm⟩
  · exact hafter hm
  cases m with
  | nil => exact hafter (m := []) hm.symm
  | cons t m =>
      -- the opener stands before the stretch, so its closer does not stand in it
      rw [List.cons_append, List.cons.injEq] at hm
      obtain ⟨rfl, hm⟩ := hm
      refine .inr ⟨.inl (by simp), ?_⟩
      rcases List.append_eq_append_iff.mp hm with ⟨k, rfl, hk⟩ | ⟨k, rfl, hk⟩
      · cases k with
        | nil => exact .inr (closer_beyond (k := []) hcloser (by rwa [List.append_nil]) hseg hk.symm)
        | cons u k =>
            rw [List.cons_append, List.cons.injEq] at hk
            obtain ⟨rfl, -⟩ := hk
            exact .inl (by simp)
      · exact .inr (closer_beyond hcloser hinside hseg hk)

end ShellFront
