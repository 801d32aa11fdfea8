import ShellFront.Parse.Basic
import ShellFront.Proofs.Parse.Recovery

/-!
# Where errors are placed

An error is placed at the current token, or, where a statement ends, at the last token before it that is no line break.
That place never moves back while a cursor moves on: `Cursor.blamed_le`. So what a reader reports on its way comes in
the order of the source as long as each error **lies** between the place blamed where the reader was and the one
blamed where it is, and this passes from one stretch of the way to the next: `Proceeds`.

## Contents
- `Cursor.blamed_token`, `Cursor.le_blamed`, `Cursor.blamed_le`.
- `Script.Starts`, `Cursor.Lies`: places of errors, and that they are tokens of the script.
- `Report.after`, `Parse.Proceeds`: errors that are reported in order.
-/

namespace ShellFront

/-! ## The place that is blamed -/

namespace Cursor

variable {s : Script} {c c' c'' : Cursor} {t : Token} {ts : List Token}

/-- What is left after line breaks were taken off ends with no line break, unless it is the first token of all. -/
theorem trimNewlines_head (h : (trimNewlines ts).head? = some t) : t.kind ≠ .newline ∨ ts.getLast? = some t := by
  fun_induction trimNewlines ts with
  | case1 _ u us _ ih => exact (ih h).imp_right fun hlast => by rwa [List.getLast?_cons_cons]
  | case2 _ u us hkind => exact .inl (Option.some.inj h ▸ hkind)
  | case3 ts hfew =>
      rcases ts with - | ⟨x, - | ⟨y, more⟩⟩
      · contradiction
      · exact .inr h
      · exact absurd rfl (hfew x y more)

/-- No token is taken off but line breaks, and never the first token of all. -/
theorem mem_trimNewlines (ht : t ∈ ts) (hkeep : t.kind ≠ .newline ∨ ts.getLast? = some t) : t ∈ trimNewlines ts := by
  fun_induction trimNewlines ts with
  | case1 x u us hkind ih =>
      rw [List.getLast?_cons_cons] at hkeep
      refine ih ?_ hkeep
      rcases hkeep with hne | hlast
      · exact (List.mem_cons.mp ht).resolve_left fun h => hne (h ▸ hkind)
      · exact List.mem_of_getLast? hlast
  | case2 => exact ht
  | case3 => exact ht

theorem blamed_current (h : c.kind.isTerminator = false) : c.blamed = c.current.span := by
  rw [blamed, if_neg (by rw [h]; decide)]

/-- A token that was read is not the end of the script. -/
theorem mem_body_of_mem_before (hc : c.tokens = s.tokens) (ht : t ∈ c.before) : t ∈ s.body := by
  have hbody := congrArg List.dropLast hc
  rw [tokens, rest, List.dropLast_append_of_ne_nil (List.cons_ne_nil _ _), Script.tokens, List.dropLast_concat] at hbody
  rw [← hbody]
  exact List.mem_append_left _ (List.mem_reverse.mpr ht)

/-- The place that is blamed is that of a token up to the current one: of one that is neither a line break nor the end
    of the input, or of the very first one. -/
theorem blamed_token (hc : c.tokens = s.tokens) : ∃ t ∈ c.current :: c.before, c.blamed = t.span ∧
    ((t.kind ≠ .newline ∧ t.kind ≠ .endOfInput) ∨ (c.current :: c.before).getLast? = some t) := by
  rw [blamed]
  split
  · cases htrim : (trimNewlines c.before).head? with
    | none =>
        -- line breaks are trimmed down to the first token, which stays
        have hbefore : c.before = [] := by
          by_contra hne
          have hlast : c.before.getLast? = some (c.before.getLast hne) := List.getLast?_eq_some_getLast hne
          have hmem := mem_trimNewlines (List.getLast_mem hne) (.inr hlast)
          rw [List.head?_eq_none_iff.mp htrim] at hmem
          contradiction
        exact ⟨c.current, List.mem_cons_self, rfl, .inr (by rw [hbefore]; rfl)⟩
    | some t =>
        obtain ⟨newlines, hsplit, -⟩ := trimNewlines_split c.before
        have hmem : t ∈ c.before := by
          rw [hsplit]
          exact List.mem_append_right _ (List.mem_of_head? htrim)
        refine ⟨t, List.mem_cons_of_mem _ hmem, rfl, ?_⟩
        rcases trimNewlines_head htrim with hne | hlast
        · exact .inl ⟨hne, s.kinds t (mem_body_of_mem_before hc hmem)⟩
        · exact .inr (by rw [List.getLast?_cons, hlast]; rfl)
  · next hkind =>
      refine ⟨c.current, List.mem_cons_self, rfl, .inl ⟨fun h => hkind ?_, fun h => hkind ?_⟩⟩
      · rw [kind, h]
        rfl
      · rw [kind, h]
        rfl

/-- A token that was read is blamed, or one that comes later, unless it is a line break after another token. -/
theorem le_blamed (hc : c.tokens = s.tokens) (ht : t ∈ c.before)
    (hkeep : t.kind ≠ .newline ∨ c.before.getLast? = some t) : t.span.start ≤ c.blamed.start := by
  rw [blamed]
  split
  · -- The token is among those left, and the latest of them is blamed.
    have hmem := mem_trimNewlines ht hkeep
    obtain ⟨newlines, hsplit, -⟩ := trimNewlines_split c.before
    obtain ⟨u, us, htrim⟩ := List.exists_cons_of_ne_nil (List.ne_nil_of_mem hmem)
    rw [htrim] at hmem
    rw [htrim, List.head?_cons, Option.getD_some]
    rcases List.mem_cons.mp hmem with rfl | hmem
    · exact Int.le_refl _
    · have htokens : s.tokens = us.reverse ++ ([u] ++ newlines.reverse ++ c.rest) := by
        rw [← hc, tokens, hsplit, htrim]
        simp
      have hle := s.stop_le_start htokens (List.mem_reverse.mpr hmem) (y := u) (by simp)
      have := s.start_le_stop (t := t) (by rw [htokens]; simp [hmem])
      omega
  · have hle := s.stop_le_start (hc.symm : s.tokens = c.before.reverse ++ c.rest) (List.mem_reverse.mpr ht)
      (y := c.current) List.mem_cons_self
    have := s.start_le_stop (t := t) (by rw [← hc, tokens]; simp [ht])
    omega

/-- **The place that is blamed never moves back.** -/
theorem blamed_le (hc : c.tokens = s.tokens) (h : c.Reaches c') : c.blamed.start ≤ c'.blamed.start := by
  obtain ⟨ts, hread⟩ := h
  rcases ts with - | ⟨u, us⟩
  · obtain rfl : c' = c := by
      cases c
      cases c'
      cases hread.before
      cases hread.rest
      rfl
    exact Int.le_refl _
  · obtain ⟨t, ht, hblamed, hkeep⟩ := blamed_token hc
    have hu : u = c.current := (List.cons_eq_cons.mp hread.rest).1.symm
    have hbefore : c'.before = us.reverse ++ (c.current :: c.before) := by
      rw [hread.before, hu, List.reverse_cons, List.append_assoc, List.singleton_append]
    rw [hblamed]
    refine le_blamed (hread.tokens_eq.trans hc) ?_ (hkeep.imp And.left fun hlast => ?_)
    · rw [hbefore]
      exact List.mem_append_right _ ht
    · rw [hbefore, List.getLast?_append, hlast]
      rfl

end Cursor

/-! ## Where errors lie -/

/-- A script has a first token, which is no line break. -/
def Script.Starts (s : Script) : Prop := ∃ t, s.body.head? = some t ∧ t.kind ≠ .newline

namespace Cursor

variable {s : Script} {c c₁ c₂ c₃ : Cursor} {place : Span}

/-- In a script that starts with something, the place that is blamed is that of a token that is neither a line break
    nor the end of the input. -/
theorem blamed_real (hc : c.tokens = s.tokens) (hs : s.Starts) :
    ∃ t ∈ s.body, t.kind ≠ .newline ∧ c.blamed = t.span := by
  obtain ⟨first, hfirst, hsolid⟩ := hs
  obtain ⟨body, hbody⟩ := List.head?_eq_some_iff.mp hfirst
  obtain ⟨t, ht, hblamed, hkeep⟩ := blamed_token hc
  have htokens : s.tokens = (c.current :: c.before).reverse ++ c.ahead := by
    rw [← hc, tokens, rest]
    simp
  rcases hkeep with ⟨hnewline, hend⟩ | hlast
  · have hmem : t ∈ s.tokens := by
      rw [htokens]
      exact List.mem_append_left _ (List.mem_reverse.mpr ht)
    refine ⟨t, (List.mem_append.mp hmem).resolve_right fun h => hend ?_, hnewline, hblamed⟩
    rw [List.mem_singleton.mp h]
    exact s.last_kind
  · have hhead : s.tokens.head? = some t := by
      rw [htokens, List.head?_append_of_ne_nil _ (by simp), List.head?_reverse, hlast]
    rw [Script.tokens, hbody, List.cons_append, List.head?_cons, Option.some_inj] at hhead
    subst hhead
    exact ⟨first, by rw [hbody]; exact List.mem_cons_self, hsolid, hblamed⟩

/-- A place **lies** between two cursors: between the places that are blamed at them, and at a token. -/
structure Lies (s : Script) (c : Cursor) (place : Span) (c' : Cursor) : Prop where
  le_start : c.blamed.start ≤ place.start
  start_le : place.start ≤ c'.blamed.start
  real : s.Starts → ∃ t ∈ s.body, t.kind ≠ .newline ∧ place = t.span

theorem Lies.widen (h : Lies s c₁ place c₂) (hc : c.tokens = s.tokens) (hreach : c.Reaches c₁) (hc₂ : c₂.tokens = s.tokens)
    (hreach' : c₂.Reaches c₃) : Lies s c place c₃ where
  le_start := Int.le_trans (blamed_le hc hreach) h.le_start
  start_le := Int.le_trans h.start_le (blamed_le hc₂ hreach')
  real := h.real

/-- The place that is blamed somewhere lies between there and every place further on. -/
theorem lies_blamed (hc : c.tokens = s.tokens) (hreach : c.Reaches c₁) : Lies s c c.blamed c₁ where
  le_start := Int.le_refl _
  start_le := blamed_le hc hreach
  real := blamed_real hc

theorem lies_current (h : c.kind.isTerminator = false) (hc : c.tokens = s.tokens) (hreach : c.Reaches c₁) :
    Lies s c c.current.span c₁ :=
  blamed_current h ▸ lies_blamed hc hreach

end Cursor

/-! ## Errors in order -/

/-- A report after an error, which is left out when the lexer reported it. -/
def Report.after (r : Report) (e : SyntaxError) : Report :=
  if e.found.kind = .invalid then r else r.add e.diagnostic

namespace Parse

variable {s : Script} {st st₁ st₂ : State} {e : SyntaxError}

/-- A reader **proceeds** from one state to another: it moves on, and reports errors in the order of the source that
    lie on its way. -/
structure Proceeds (s : Script) (st st' : State) : Prop where
  tokens : st.cursor.tokens = s.tokens
  reaches : st.cursor.Reaches st'.cursor
  errors : ∃ es : List SyntaxError, st'.report.toList = st.report.toList ++ es.map SyntaxError.diagnostic ∧
    (∀ e ∈ es, st.cursor.Lies s e.span st'.cursor) ∧ es.Pairwise fun e e' => e.span.start ≤ e'.span.start

namespace Proceeds

/-- Nothing is reported on the way. -/
theorem of_same (htokens : st.cursor.tokens = s.tokens) (hreach : st.cursor.Reaches st₁.cursor)
    (hreport : st₁.report = st.report) : Proceeds s st st₁ :=
  ⟨htokens, hreach, [], by rw [hreport, List.map_nil, List.append_nil], by simp, .nil⟩

theorem trans (h : Proceeds s st st₁) (h' : Proceeds s st₁ st₂) : Proceeds s st st₂ := by
  obtain ⟨htokens, hreach, es, hes, hlie, hordered⟩ := h
  obtain ⟨htokens', hreach', fs, hfs, hlie', hordered'⟩ := h'
  have htokens₂ := hreach'.tokens_eq.trans htokens'
  refine ⟨htokens, hreach.trans hreach', es ++ fs, by rw [hfs, hes, List.map_append, List.append_assoc], ?_, ?_⟩
  · refine List.forall_mem_append.mpr ⟨fun e he => ?_, fun f hf => ?_⟩
    · exact (hlie e he).widen htokens (.refl _) htokens' hreach'
    · exact (hlie' f hf).widen htokens hreach htokens₂ (.refl _)
  · -- What is reported later lies behind the place where what is reported before lies ahead of.
    exact List.pairwise_append.mpr ⟨hordered, hordered', fun e he f hf =>
      Int.le_trans (hlie e he).start_le (hlie' f hf).le_start⟩

theorem precede (h : Proceeds s st₁ st₂) (hreach : st.cursor.Reaches st₁.cursor) (hreport : st₁.report = st.report) :
    Proceeds s st st₂ :=
  (of_same (hreach.tokens_eq.symm.trans h.tokens) hreach hreport).trans h

theorem follow (h : Proceeds s st st₁) (hreach : st₁.cursor.Reaches st₂.cursor) (hreport : st₂.report = st₁.report) :
    Proceeds s st st₂ :=
  h.trans (of_same (h.reaches.tokens_eq.trans h.tokens) hreach hreport)

/-- One error that lies on the way. -/
theorem of_after (htokens : st.cursor.tokens = s.tokens) (hreach : st.cursor.Reaches st₁.cursor)
    (hreport : st₁.report = st.report.after e) (hlies : e.found.kind ≠ .invalid → st.cursor.Lies s e.span st₁.cursor) :
    Proceeds s st st₁ := by
  rw [Report.after] at hreport
  split at hreport
  · exact .of_same htokens hreach hreport
  · next hvalid =>
      refine ⟨htokens, hreach, [e], by rw [hreport, Report.toList_add, List.map_singleton], ?_, List.pairwise_singleton _ _⟩
      exact List.forall_mem_singleton.mpr (hlies hvalid)

end Proceeds

end Parse

end ShellFront
