import ShellFront.Parse.Recovery
import ShellFront.Proofs.Parse.Coverage

/-!
# What recovery skips

After an error, recovery skips tokens from the first token of the statement on. The node it leaves behind
covers all of them but line breaks at the end, so no token is lost, and what comes next either has a
separator before it or ends the list of statements.

## Contents
- What was read `since` a place, and `trimNewlines`.
- `skipStatement_reads`, `openedBy_newline`.
- `resynchronize_skips`.
-/

namespace ShellFront

namespace Cursor

variable {s : Script} {c start now : Cursor} {ts : List Token}

/-! ## What was read -/

theorem Reads.since (h : start.Reads ts c) : c.since start = ts.reverse := by
  have hlength : c.index - start.index = ts.reverse.length := by
    rw [index, index, h.before, List.length_append, Nat.add_sub_cancel]
  rw [Cursor.since, hlength, h.before, List.take_left]

/-- Line breaks are taken off, but something is left of what was there. -/
theorem trimNewlines_split (ts : List Token) :
    ∃ newlines, ts = newlines ++ trimNewlines ts ∧ (∀ t ∈ newlines, t.kind = .newline) ∧
      (ts ≠ [] → trimNewlines ts ≠ []) := by
  fun_induction trimNewlines ts with
  | case1 t u ts hkind ih =>
      obtain ⟨newlines, hsplit, hall, hne⟩ := ih
      refine ⟨t :: newlines, by rw [List.cons_append, ← hsplit], ?_, fun _ => hne (by simp)⟩
      exact List.forall_mem_cons.mpr ⟨hkind, hall⟩
  | case2 t u ts hkind => exact ⟨[], rfl, by simp, id⟩
  | case3 ts => exact ⟨[], rfl, by simp, id⟩

/-- A line break that something stands before is taken off. -/
theorem trimNewlines_newline {t u : Token} (hkind : t.kind = .newline) (ts : List Token) :
    (trimNewlines (t :: u :: ts)).length < (t :: u :: ts).length := by
  obtain ⟨newlines, hsplit, -⟩ := trimNewlines_split (u :: ts)
  have := congrArg List.length hsplit
  rw [trimNewlines, if_pos hkind]
  simp only [List.length_append, List.length_cons] at this ⊢
  omega

/-! ## Where skipping stops -/

/-- Skipping goes on to the last token, or to one that ends the statement. -/
theorem skipStatement_reads (atStart : Bool) (groups : Groups) (before : List Token) (current : Token)
    (ahead : List Token) :
    let resumed := skipStatement atStart groups before current ahead
    ∃ ts, Reads ⟨before, current, ahead⟩ ts resumed ∧ (atStart = true → ahead ≠ [] → ts ≠ []) ∧
      (resumed.ahead = [] ∨ ∃ groups', endsSkip groups' resumed.kind = true) := by
  fun_induction skipStatement atStart groups before current ahead with
  | case1 => exact ⟨[], .refl _, fun _ h => absurd rfl h, .inl rfl⟩
  | case2 atStart groups before current t ts hends =>
      rw [Bool.and_eq_true] at hends
      exact ⟨[], .refl _, fun h => by simp [h] at hends, .inr ⟨groups, hends.2⟩⟩
  | case3 atStart groups before current t ts hends ih =>
      obtain ⟨us, hread, -, hstop⟩ := ih
      have hfirst : Reads ⟨before, current, t :: ts⟩ [current] ⟨current :: before, t, ts⟩ := ⟨rfl, rfl⟩
      exact ⟨current :: us, hfirst.trans hread, by simp, hstop⟩

theorem endsSkip_kind {groups : Groups} {kind : TokenKind} (h : endsSkip groups kind = true) :
    kind.isTerminator = true ∨ kind = .symbol .closeBrace := by
  unfold endsSkip at h
  split at h <;> simp_all [TokenKind.isTerminator]

/-- A statement that has already ended was ended by a line break. -/
theorem openedBy_newline {ts : List Token} (h : (openedBy ts).2 = true) :
    ∃ init t, ts = init ++ [t] ∧ t.kind = .newline := by
  obtain rfl | ⟨init, t, rfl⟩ := List.eq_nil_or_concat ts
  · contradiction
  · refine ⟨init, t, List.concat_eq_append .., ?_⟩
    rw [openedBy, List.concat_eq_append, List.foldl_append] at h
    simp only [List.foldl_cons, List.foldl_nil, Bool.and_eq_true] at h
    exact eq_of_beq h.1.1

/-! ## What is skipped -/

/-- Some of the tokens were read from a place where a statement began, and what comes next is not glued to
    them. -/
structure Skips (start : Cursor) (span : Span) (resumed : Cursor) : Prop where
  split : ∃ seg newlines, start.Reads (seg ++ newlines) resumed ∧ Fills seg span ∧
    (∀ t ∈ newlines, t.kind = .newline) ∧
    (newlines ≠ [] ∨ resumed.kind.isTerminator = true ∨ resumed.kind = .symbol .closeBrace)

theorem Reads.resynchronize_eq (h : start.Reads ts now) :
    resynchronize start now = if (openedBy ts).2 then now
      else skipStatement ts.isEmpty (openedBy ts).1 now.before now.current now.ahead := by
  rw [resynchronize, h.since, List.reverse_reverse]

/-- The place where parsing goes on after an error is further on. -/
theorem resynchronize_reads (hc : start.tokens = s.tokens) (hend : start.kind ≠ .endOfInput)
    (hreach : start.Reaches now) :
    ∃ ts, ts ≠ [] ∧ start.Reads ts (resynchronize start now) ∧
      ((∃ init t, ts = init ++ [t] ∧ t.kind = .newline) ∨
        (resynchronize start now).kind.isTerminator = true ∨
        (resynchronize start now).kind = .symbol .closeBrace) := by
  obtain ⟨us, hread⟩ := hreach
  have hnow : now.tokens = s.tokens := hread.tokens_eq.trans hc
  rw [hread.resynchronize_eq]
  -- Either the statement had ended, or tokens are skipped until something ends it.
  split
  · obtain ⟨init, t, rfl, hkind⟩ := openedBy_newline ‹_›
    exact ⟨init ++ [t], by simp, hread, .inl ⟨init, t, rfl, hkind⟩⟩
  · obtain ⟨vs, hskip, hfirst, hstop⟩ :=
      skipStatement_reads us.isEmpty (openedBy us).1 now.before now.current now.ahead
    refine ⟨us ++ vs, fun hnil => ?_, hread.trans hskip, .inr ?_⟩
    · obtain ⟨rfl, rfl⟩ := List.append_eq_nil_iff.mp hnil
      refine hfirst rfl (fun hahead => hend ?_) rfl
      rw [kind, (List.cons_eq_cons.mp hread.rest).1]
      exact kind_of_ahead_nil hnow hahead
    · rcases hstop with hahead | ⟨groups', hends⟩
      · have hlast := kind_of_ahead_nil (s := s) ((hread.trans hskip).tokens_eq.trans hc) hahead
        exact .inl (by rw [hlast]; rfl)
      · exact endsSkip_kind hends

/-- Parsing never goes back after an error. -/
theorem resynchronize_reaches (start now : Cursor) : now.Reaches (resynchronize start now) := by
  rw [resynchronize]
  dsimp only
  split
  · exact .refl now
  · obtain ⟨ts, hread, -⟩ := skipStatement_reads (now.since start).reverse.isEmpty
      (openedBy (now.since start).reverse).1 now.before now.current now.ahead
    exact ⟨ts, hread⟩

/-- **Recovery leaves no token out.** -/
theorem resynchronize_skips (hc : start.tokens = s.tokens) (hkind : start.kind.isTerminator = false)
    (hreach : start.Reaches now) :
    let resumed := resynchronize start now
    start.Skips (start.current.span.cover
      ((resumed.coveredSince start).getLast?.getD start.current).span) resumed := by
  have hend : start.kind ≠ .endOfInput := fun h => by simp [h, TokenKind.isTerminator] at hkind
  have hnewline : start.current.kind ≠ .newline := fun h => by
    simp [kind, h, TokenKind.isTerminator] at hkind
  obtain ⟨ts, hne, hread, hstop⟩ := resynchronize_reads hc hend hreach
  -- what was skipped is a segment that ends with a token of its own, and line breaks
  obtain ⟨newlines, hsplit, hnewlines, hsome⟩ := trimNewlines_split ts.reverse
  have hsome := hsome (List.reverse_eq_nil_iff.not.mpr hne)
  have hseg : (trimNewlines ts.reverse).reverse ≠ [] := List.reverse_eq_nil_iff.not.mpr hsome
  have hts : ts = (trimNewlines ts.reverse).reverse ++ newlines.reverse := by
    rw [← List.reverse_append, ← hsplit, List.reverse_reverse]
  have hcovered : (resynchronize start now).coveredSince start = (trimNewlines ts.reverse).reverse := by
    rw [coveredSince, hread.since]
    split
    · exact absurd ‹_› hseg
    · rfl
  have hfirst := hread.head hne
  rw [hts, List.head?_append_of_ne_nil _ hseg] at hfirst
  obtain ⟨last, hlast⟩ := Option.ne_none_iff_exists'.mp (List.getLast?_eq_none_iff.not.mpr hseg)
  have hmem : last ∈ start.rest := hread.mem_rest <| by
    rw [hts]
    exact List.mem_append_left _ (List.mem_of_getLast? hlast)
  have hle := start_le_of_mem_rest hc hmem
  intro resumed
  refine ⟨_, newlines.reverse, hts ▸ hread, ⟨start.current, last, hfirst, hlast, ?_, ?_⟩,
    fun t ht => hnewlines t (List.mem_reverse.mp ht), ?_⟩
  · rw [hcovered, hlast, Option.getD_some, Span.cover_start, Int.min_eq_left hle.1]
  · rw [hcovered, hlast, Option.getD_some, Span.cover_stop, Int.max_eq_right hle.2]
  · -- Had no line break been taken off, the one at the end would be the first token of the statement.
    refine hstop.imp_left ?_
    rintro ⟨init, t, htail, hbreak⟩ hnil
    rw [List.reverse_eq_nil_iff.mp hnil, List.nil_append, htail, List.reverse_append] at hsplit
    have hback := hread.head hne
    rw [htail] at hback
    cases hinit : init.reverse with
    | nil =>
        rw [List.reverse_eq_nil_iff.mp hinit] at hback
        exact hnewline (Option.some_inj.mp hback ▸ hbreak)
    | cons u more =>
        have hlt := trimNewlines_newline (u := u) hbreak more
        rw [hinit] at hsplit
        exact absurd (congrArg List.length hsplit) (Nat.ne_of_gt hlt)

end Cursor

end ShellFront
