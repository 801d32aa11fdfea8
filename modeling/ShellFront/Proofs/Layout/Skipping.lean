import ShellFront.Proofs.Layout.Readings
import ShellFront.Proofs.Parse.Recovery

/-!
# Recovery keeps braces together

Recovery follows the brackets that a broken statement opened, and gives up parentheses at line breaks. Of
braces it never loses count: the braces among its groups are those that a watch on braces has open. It stops
only where none is, so what it skips is nested when the braces of the script are.

## Contents
- `Groups.braces`, `Groups.repair_braces`, `openedBy_braces`: the braces among the groups.
- `skipStatement_nested`, `resynchronize_nested`: what is skipped is nested.
-/

namespace ShellFront

/-! ## Braces among groups -/

namespace Groups

/-- The braces among open groups. -/
def braces (groups : Groups) : List Symbol := groups.filter (· == .openBrace)

variable {groups : Groups} {s : Symbol} {kind : TokenKind}

theorem braces_cons_of_ne (h : s ≠ .openBrace) : braces (s :: groups) = groups.braces :=
  List.filter_cons_of_neg (by simpa using h)

theorem braces_abandon (groups : Groups) : groups.abandon.braces = groups.braces := by
  induction groups with
  | nil => rfl
  | cons s groups ih =>
      by_cases hs : s = .openBrace
      · rw [hs]
        rfl
      · rw [abandon, List.dropWhile_cons_of_pos (by simpa using hs), braces_cons_of_ne hs]
        exact ih

theorem braces_eq_nil (h : groups.contains .openBrace = false) : groups.braces = [] := by
  refine List.filter_eq_nil_iff.mpr fun s hs heq => ?_
  rw [eq_of_beq heq] at hs
  rw [List.contains_iff_mem.mpr hs] at h
  contradiction

/-- The innermost braces are what is left when all groups inside of them are given up. -/
theorem braces_of_contains (h : groups.contains .openBrace = true) :
    groups.braces = .openBrace :: braces groups.abandon.tail := by
  induction groups with
  | nil => contradiction
  | cons s groups ih =>
      by_cases hs : s = .openBrace
      · rw [hs]
        rfl
      · rw [List.contains_cons, Bool.or_eq_true] at h
        have hrest := ih (h.resolve_left fun heq => hs (eq_of_beq heq).symm)
        rw [braces_cons_of_ne hs, hrest, abandon, abandon,
          List.dropWhile_cons_of_pos (by simpa using hs)]

theorem braces_tail (h : groups.hidesNewline = true) : braces groups.tail = groups.braces := by
  cases groups with
  | nil => rfl
  | cons s groups =>
      have hs : s ≠ .openBrace := by simpa [hidesNewline] using h
      rw [braces_cons_of_ne hs, List.tail_cons]

/-- **Recovery never loses count of braces.** -/
theorem repair_braces (h : kind = .symbol .closeBrace → groups.contains .openBrace = true) :
    Watch.braces.step groups.braces kind = some (groups.repair kind).braces := by
  cases kind with
  | newline =>
      rw [repair, braces_abandon]
      rfl
  | symbol s =>
      by_cases hclose : s = .closeBrace
      · rw [hclose, repair, braces_of_contains (h (by rw [hclose]))]
        rfl
      by_cases hopen : s = .openBrace
      · rw [hopen]
        rfl
      -- any other bracket is of no account to braces
      have hsees : ¬ Watch.braces.sees s = true := by simp [Watch.sees, hopen, hclose]
      rw [Watch.step_symbol, if_neg hsees, repair_symbol hclose]
      split
      · rw [braces_cons_of_ne hopen]
      · split
        · next hhides => rw [braces_tail ((Bool.and_eq_true _ _).mp hhides).2]
        · rfl
  | _ => rfl

end Groups

/-- The braces that some tokens leave open are those among the groups that recovery finds. -/
theorem openedBy_braces {ts : List Token} {stack : List Symbol}
    (h : Watch.braces.follow [] ts = some stack) : stack = (openedBy ts).1.braces := by
  induction ts using List.reverseRecOn generalizing stack with
  | nil => exact (Option.some.inj h).symm
  | append_singleton ts t ih =>
      obtain ⟨mid, hmid, hstep⟩ := Watch.exists_follow h
      obtain rfl := ih hmid
      obtain ⟨next, hnext, hend⟩ := Watch.exists_step hstep
      obtain rfl := Option.some.inj hend
      have hopen : t.kind = .symbol .closeBrace → (openedBy ts).1.contains .openBrace = true := by
        intro hkind
        rw [hkind] at hnext
        by_contra hnone
        have hnil := Groups.braces_eq_nil (Bool.eq_false_iff.mpr hnone)
        rw [hnil] at hnext
        contradiction
      rw [Groups.repair_braces hopen] at hnext
      rw [openedBy, List.foldl_append]
      exact (Option.some.inj hnext).symm

/-- When a line break has closed all groups, none is open. -/
theorem openedBy_resumed {ts : List Token} (h : (openedBy ts).2 = true) : (openedBy ts).1 = [] := by
  induction ts using List.reverseRecOn with
  | nil => rfl
  | append_singleton ts t _ =>
      rw [openedBy, List.foldl_append] at h ⊢
      simp only [List.foldl_cons, List.foldl_nil, Bool.and_eq_true] at h ⊢
      exact List.isEmpty_iff.mp h.2

namespace Cursor

variable {s : Script} {c start now : Cursor} {us : List Token}

/-! ## What is skipped -/

/-- Only the last token is the end of the input. -/
theorem kind_ne_of_ahead (hc : c.tokens = s.tokens) (hahead : c.ahead ≠ []) : c.kind ≠ .endOfInput := by
  have hbody := congrArg List.dropLast hc
  rw [Script.tokens, List.dropLast_concat, tokens, rest, List.dropLast_append_of_ne_nil (by simp),
    List.dropLast_cons_of_ne_nil hahead] at hbody
  exact s.kinds c.current (hbody ▸ by simp)

/-- Where skipping stops no brace is open. -/
theorem braces_of_endsSkip {groups : Groups} {kind : TokenKind} (h : endsSkip groups kind = true)
    (hkind : kind ≠ .endOfInput) : groups.braces = [] := by
  unfold endsSkip at h
  split at h
  · contradiction
  · exact Groups.braces_eq_nil (Bool.not_eq_true' _ ▸ h)
  · rw [← Groups.braces_abandon, List.isEmpty_iff.mp h]
    rfl
  · rw [List.isEmpty_iff.mp h]
    rfl
  · contradiction

/-- Tokens that are skipped close the braces of the statement and no others. -/
theorem skipStatement_nested {base : List Symbol} (atStart : Bool) (groups : Groups) (before : List Token)
    (current : Token) (ahead : List Token) (hc : tokens ⟨before, current, ahead⟩ = s.tokens)
    (hstart : atStart = true → current.kind ≠ .symbol .closeBrace)
    (hrest : Watch.braces.follow (groups.braces ++ base) (current :: ahead) = some [])
    (hread : Reads ⟨before, current, ahead⟩ us (skipStatement atStart groups before current ahead)) :
    Watch.braces.follow groups.braces us = some [] := by
  fun_induction skipStatement atStart groups before current ahead generalizing us with
  | case1 atStart groups before current =>
      -- nothing is skipped any more, and at the end of the input no brace is left to close
      obtain rfl := hread.unique (.refl _)
      have hkind : current.kind = .endOfInput := kind_of_ahead_nil hc rfl
      rw [Watch.follow_cons, hkind] at hrest
      rw [Watch.follow_nil, (List.append_eq_nil_iff.mp (Option.some.inj hrest)).1]
  | case2 atStart groups before current t ts hends =>
      obtain rfl := hread.unique (.refl _)
      have hkind := kind_ne_of_ahead hc (List.cons_ne_nil t ts)
      rw [Watch.follow_nil, braces_of_endsSkip ((Bool.and_eq_true _ _).mp hends).2 hkind]
  | case3 atStart groups before current t ts hends ih =>
      have hfirst : Reads ⟨before, current, t :: ts⟩ [current] ⟨current :: before, t, ts⟩ := ⟨rfl, rfl⟩
      obtain ⟨vs, hskip, -⟩ := skipStatement_reads false (groups.repair current.kind) (current :: before) t ts
      obtain rfl := hread.unique (hfirst.trans hskip)
      -- a closing brace is skipped only where one was opened since the statement began
      have hopen : current.kind = .symbol .closeBrace → groups.contains .openBrace = true := by
        intro hkind
        have hnot : atStart = false := Bool.eq_false_iff.mpr fun h => hstart h hkind
        rw [hnot, hkind] at hends
        simpa [endsSkip] using hends
      have hstep := Groups.repair_braces hopen
      rw [Watch.follow_cons, Watch.step_append hstep] at hrest
      rw [List.singleton_append, Watch.follow_cons, hstep]
      exact ih (hfirst.tokens_eq.trans hc) (fun h => absurd h Bool.false_ne_true) hrest hskip

/-- **What recovery skips is nested** as far as braces are concerned. -/
theorem resynchronize_nested (hs : Watch.braces.follow [] s.tokens = some []) (hc : start.tokens = s.tokens)
    (hkind : start.kind ≠ .symbol .closeBrace) (hnow : Strays .braces start now)
    (hread : start.Reads us (resynchronize start now)) : Watch.braces.follow [] us = some [] := by
  obtain ⟨ts, stack, hts, hfollow⟩ := hnow
  obtain rfl := openedBy_braces hfollow
  rw [hts.resynchronize_eq] at hread
  split at hread
  · next hresumed =>
      obtain rfl := hread.unique hts
      rw [hfollow, openedBy_resumed hresumed]
      rfl
  · -- The rest of the script closes what the statement and everything around it left open.
    have htokens : s.tokens = start.before.reverse ++ (ts ++ now.rest) := by
      rw [← hc, tokens, hts.rest]
    rw [htokens] at hs
    obtain ⟨base, -, hrest⟩ := Watch.exists_follow hs
    have hbase := Watch.follow_base hfollow base
    rw [List.nil_append] at hbase
    rw [Watch.follow_append_of hbase] at hrest
    obtain ⟨vs, hskip, -⟩ :=
      skipStatement_reads ts.isEmpty (openedBy ts).1 now.before now.current now.ahead
    obtain rfl := hread.unique (hts.trans hskip)
    rw [Watch.follow_append_of hfollow]
    refine skipStatement_nested _ _ _ _ _ (hts.tokens_eq.trans hc) (fun hempty => ?_) hrest hskip
    rw [List.isEmpty_iff.mp hempty] at hts
    rw [hts.eq_of_nil]
    exact hkind

end Cursor

end ShellFront
