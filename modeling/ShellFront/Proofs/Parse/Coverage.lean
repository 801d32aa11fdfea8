import ShellFront.Proofs.Parse.Reading
import ShellFront.Proofs.Tree.Outlined

/-!
# Statements cover their tokens

Where statements stand, nothing between them is lost: `Covers tokens statements` says that every token that
is no separator lies in exactly one statement, that statements follow one another in order, and that a
separator stands before every statement but the first, unless it could not be read.

A list of statements is read from left to right, so this is derived from a `Tiling`, which grows by one
separator or one statement at a time.

## Contents
- `Covers`, `Outline.Braced`, `Outline.Settled`.
- `Fills`, `Tiling`, `Tiling.covers`.
-/

namespace ShellFront

/-! ## Covered tokens -/

/-- Statements **cover** tokens. -/
structure Covers (tokens : List Token) (statements : List Outline) : Prop where
  /-- Every token but separators and the end of the input lies in exactly one statement. -/
  once : ∀ t ∈ tokens, ¬ t.kind.isTerminator →
    statements.countP (fun o => o.span.contains t.span) = 1
  nonempty : ∀ o ∈ statements, o.span.start < o.span.stop
  /-- Statements follow one another without overlap. -/
  ordered : statements.Pairwise fun o next => o.span.stop ≤ next.span.start
  /-- A separator stands between two statements unless the second could not be read. -/
  separated : statements.IsChain fun o next => next.kind = .errorNode ∨
    ∃ t ∈ tokens, t.kind.isSeparator ∧ o.span.stop ≤ t.span.start ∧ t.span.stop ≤ next.span.start

namespace Outline

/-- A block among tokens is **braced**: it runs from an opening brace to a closing one, and its statements
    cover what stands between them. -/
def Braced (tokens : List Token) (block : Outline) : Prop :=
  ∃ before opener inside closer after, tokens = before ++ opener :: (inside ++ closer :: after) ∧
    opener.kind = .symbol .openBrace ∧ closer.kind = .symbol .closeBrace ∧
    block.span.start = opener.span.start ∧ block.span.stop = closer.span.stop ∧
    Covers inside block.children

/-- A tree is **settled** when its blocks, those of closures apart, are braced. The node itself counts as
    a block of the tree that it will stand in. -/
structure Settled (s : Script) (t : Outline) : Prop where
  self : t.kind = .block → t.Braced s.tokens
  below : t.Everywhere fun u => u.kind ≠ .closure → ∀ b ∈ u.children, b.kind = .block → b.Braced s.tokens

variable {s : Script}

/-- Whatever holds settled parts and is no block is settled. -/
theorem settled_mk {kind : NodeKind} {span : Span} {attributes : List (String × Attribute)}
    {children : List Outline} (hkind : kind ≠ .block) (hchildren : ∀ c ∈ children, c.Settled s) :
    (mk kind span attributes children).Settled s where
  self := fun h => absurd h hkind
  below := everywhere_mk.mpr ⟨fun _ b hb => (hchildren b hb).self, fun c hc => (hchildren c hc).below⟩

/-- A block that is braced and holds settled statements is settled. -/
theorem settled_block {span : Span} {statements : List Outline}
    (hbraced : (branch .block span statements).Braced s.tokens)
    (hstatements : ∀ o ∈ statements, o.Settled s) :
    (branch .block span statements).Settled s where
  self := fun _ => hbraced
  below := everywhere_mk.mpr
    ⟨fun _ b hb => (hstatements b hb).self, fun o ho => (hstatements o ho).below⟩

/-- The body of a closure need not be braced. -/
theorem settled_closure {span span' : Span} {attributes : List (String × Attribute)}
    {params statements : List Outline} (hparams : ∀ p ∈ params, p.Settled s)
    (hstatements : ∀ o ∈ statements, o.Settled s) :
    (mk .closure span attributes (params ++ [branch .block span' statements])).Settled s where
  self := nofun
  below := by
    have hbody : (branch .block span' statements).Everywhere
        fun u => u.kind ≠ .closure → ∀ b ∈ u.children, b.kind = .block → b.Braced s.tokens :=
      everywhere_mk.mpr ⟨fun _ b hb => (hstatements b hb).self, fun o ho => (hstatements o ho).below⟩
    refine everywhere_mk.mpr ⟨fun h => absurd rfl h, fun c hc => ?_⟩
    rcases List.mem_append.mp hc with hc | hc
    · exact (hparams c hc).below
    · exact List.mem_singleton.mp hc ▸ hbody

/-- What shows no block is settled. -/
theorem Plain.settled {t : Outline} (h : t.Plain) : t.Settled s := by
  induction t with
  | mk kind span attributes children ih =>
      obtain ⟨hkind, hchildren⟩ := everywhere_mk.mp h
      exact settled_mk hkind.2 fun c hc => ih c hc (hchildren c hc)

end Outline

/-! ## Tilings -/

/-- A span lies over just some tokens. -/
def Fills (seg : List Token) (span : Span) : Prop :=
  ∃ first last, seg.head? = some first ∧ seg.getLast? = some last ∧
    span.start = first.span.start ∧ span.stop = last.span.stop

/-- Tokens **tiled** by statements and separators. The tiling is `fresh` when no statement was read since
    the last separator. -/
inductive Tiling : Bool → List Token → List Outline → Prop where
  | nil : Tiling true [] []
  | separator {fresh : Bool} {read : List Token} {os : List Outline} {t : Token}
      (h : Tiling fresh read os) (ht : t.kind.isSeparator) : Tiling true (read ++ [t]) os
  | statement {fresh : Bool} {read seg : List Token} {os : List Outline} {o : Outline}
      (h : Tiling fresh read os) (hseg : Fills seg o.span) (hfresh : fresh = true ∨ o.kind = .errorNode) :
      Tiling false (read ++ seg) (os ++ [o])

/-- Separators may follow at any place. -/
theorem Tiling.separators {fresh : Bool} {read ts : List Token} {os : List Outline}
    (h : Tiling fresh read os) (hts : ∀ t ∈ ts, t.kind.isSeparator) :
    Tiling (fresh || !ts.isEmpty) (read ++ ts) os := by
  induction ts generalizing fresh read with
  | nil => simpa using h
  | cons t ts ih =>
      have hrest := ih (h.separator (hts t List.mem_cons_self)) fun u hu =>
        hts u (List.mem_cons_of_mem _ hu)
      simpa using hrest

/-- What was read under one span fills it. -/
theorem Cursor.Spans.fills {c₀ c : Cursor} {span : Span} (h : c₀.Spans span c) :
    ∃ ts, ts ≠ [] ∧ c₀.Reads ts c ∧ Fills ts span := by
  obtain ⟨ts, hne, hread⟩ := h.reads
  exact ⟨ts, hne, hread, _, _, hread.head hne, hread.last hne, h.start_eq, h.stop_eq⟩

/-! ### What a tiling says of its tokens -/

/-- A filled span begins with the first of its tokens and ends with the last one. -/
theorem Fills.contains {seg : List Token} {span : Span} (h : Fills seg span)
    (hordered : seg.Pairwise fun t u => t.span.stop ≤ u.span.start)
    (hle : ∀ t ∈ seg, t.span.start < t.span.stop) {t : Token} (ht : t ∈ seg) :
    span.start ≤ t.span.start ∧ t.span.stop ≤ span.stop := by
  obtain ⟨first, last, hfirst, hlast, hstart, hstop⟩ := h
  obtain ⟨tail, rfl⟩ := List.head?_eq_some_iff.mp hfirst
  obtain ⟨init, hinit⟩ := List.getLast?_eq_some_iff.mp hlast
  have hle' := hle t ht
  have hfirst' := hle first List.mem_cons_self
  refine ⟨?_, ?_⟩
  · rcases List.mem_cons.mp ht with rfl | ht
    · exact Int.le_of_eq hstart
    · have := (List.pairwise_cons.mp hordered).1 t ht
      omega
  · rw [hinit] at ht hordered hle
    have hlast' := hle last (by simp)
    rcases List.mem_append.mp ht with ht | ht
    · have := (List.pairwise_append.mp hordered).2.2 t ht last (by simp)
      omega
    · rw [List.mem_singleton.mp ht]
      exact Int.le_of_eq hstop.symm

theorem Fills.ends {seg : List Token} {span : Span} (h : Fills seg span) :
    (∃ t ∈ seg, span.start = t.span.start) ∧ ∃ t ∈ seg, span.stop = t.span.stop := by
  obtain ⟨first, last, hfirst, hlast, hstart, hstop⟩ := h
  exact ⟨⟨first, List.mem_of_head? hfirst, hstart⟩, ⟨last, List.mem_of_getLast? hlast, hstop⟩⟩

/-- What a tiling keeps as it grows: it covers its tokens, its statements end with tokens, and when it is
    fresh a separator stands after all of them. -/
structure Tiling.Sound (fresh : Bool) (read : List Token) (os : List Outline) : Prop where
  covers : Covers read os
  ends : ∀ o ∈ os, ∃ t ∈ read, o.span.stop = t.span.stop
  fresh_iff : fresh = true → os = [] ∨
    ∃ t ∈ read, t.kind.isSeparator ∧ ∀ o ∈ os, o.span.stop ≤ t.span.start

/-- More tokens do no harm to what stands between statements. -/
theorem Covers.separated_append {read more : List Token} {os : List Outline} (h : Covers read os) :
    os.IsChain fun o next => next.kind = .errorNode ∨ ∃ t ∈ read ++ more, t.kind.isSeparator ∧
      o.span.stop ≤ t.span.start ∧ t.span.stop ≤ next.span.start :=
  h.separated.imp fun _ _ => Or.imp_right fun ⟨t, ht, hbetween⟩ =>
    ⟨t, List.mem_append_left _ ht, hbetween⟩

theorem Tiling.Sound.separator {fresh : Bool} {read : List Token} {os : List Outline} {t : Token}
    (h : Tiling.Sound fresh read os) (ht : t.kind.isSeparator)
    (hordered : (read ++ [t]).Pairwise fun t u => t.span.stop ≤ u.span.start) :
    Tiling.Sound true (read ++ [t]) os := by
  have hafter : ∀ u ∈ read, u.span.stop ≤ t.span.start := fun u hu =>
    (List.pairwise_append.mp hordered).2.2 u hu t (by simp)
  have hterminator : t.kind.isTerminator := by rw [TokenKind.isTerminator_eq, ht, Bool.true_or]
  refine ⟨⟨?_, h.covers.nonempty, h.covers.ordered, h.covers.separated_append⟩, ?_, ?_⟩
  · intro u hu hkind
    rcases List.mem_append.mp hu with hu | hu
    · exact h.covers.once u hu hkind
    · exact absurd (List.mem_singleton.mp hu ▸ hterminator) hkind
  · intro o ho
    obtain ⟨u, hu, hstop⟩ := h.ends o ho
    exact ⟨u, List.mem_append_left _ hu, hstop⟩
  · refine fun _ => .inr ⟨t, by simp, ht, fun o ho => ?_⟩
    obtain ⟨u, hu, hstop⟩ := h.ends o ho
    exact hstop ▸ hafter u hu

theorem Tiling.Sound.statement {fresh : Bool} {read seg : List Token} {os : List Outline} {o : Outline}
    (h : Tiling.Sound fresh read os) (hseg : Fills seg o.span)
    (hfresh : fresh = true ∨ o.kind = .errorNode)
    (hordered : (read ++ seg).Pairwise fun t u => t.span.stop ≤ u.span.start)
    (hle : ∀ t ∈ read ++ seg, t.span.start < t.span.stop) :
    Tiling.Sound false (read ++ seg) (os ++ [o]) := by
  obtain ⟨-, hordered', hbefore⟩ := List.pairwise_append.mp hordered
  have hle' : ∀ t ∈ seg, t.span.start < t.span.stop := fun t ht => hle t (List.mem_append_right _ ht)
  obtain ⟨⟨first, hfirst, hstart⟩, ⟨last, hlast, hstop⟩⟩ := hseg.ends
  have hinside := fun t ht => hseg.contains hordered' hle' (t := t) ht
  -- The earlier statements end before the new one begins.
  have hold : ∀ o' ∈ os, ∀ t ∈ seg, o'.span.stop ≤ t.span.start := by
    intro o' ho' t ht
    obtain ⟨u, hu, hstop'⟩ := h.ends o' ho'
    exact hstop' ▸ hbefore u hu t ht
  refine ⟨⟨?_, ?_, ?_, ?_⟩, ?_, nofun⟩
  · intro t ht hkind
    have hlt := hle t ht
    rw [List.countP_append, List.countP_singleton]
    -- A token read before lies in an earlier statement only; a new one in the new statement only.
    rcases List.mem_append.mp ht with ht | ht
    · have := hbefore t ht first hfirst
      have hnot : o.span.contains t.span = false := by
        simp only [Span.contains, Bool.and_eq_false_iff, decide_eq_false_iff_not]
        omega
      rw [h.covers.once t ht hkind, hnot]
      rfl
    · have hnone : os.countP (fun o' => o'.span.contains t.span) = 0 := by
        refine List.countP_eq_zero.mpr fun o' ho' => ?_
        have := hold o' ho' t ht
        simp only [Span.contains, Bool.and_eq_true, decide_eq_true_eq]
        omega
      have hin : o.span.contains t.span = true := by
        simp only [Span.contains, Bool.and_eq_true, decide_eq_true_eq]
        exact hinside t ht
      rw [hnone, hin]
      rfl
  · intro o' ho'
    rcases List.mem_append.mp ho' with ho' | ho'
    · exact h.covers.nonempty o' ho'
    · have := hinside first hfirst
      have := hle' first hfirst
      rw [List.mem_singleton.mp ho']
      omega
  · refine List.pairwise_append.mpr ⟨h.covers.ordered, List.pairwise_singleton .., ?_⟩
    intro o' ho' o'' ho''
    rw [List.mem_singleton.mp ho'', hstart]
    exact hold o' ho' first hfirst
  · refine List.isChain_append.mpr ⟨h.covers.separated_append, .singleton o, ?_⟩
    intro o' ho' o'' ho''
    cases ho''
    have ho' := List.mem_of_getLast? ho'
    -- A fresh tiling has its separator after `o'`; one that is not goes on with an error only.
    rcases hfresh with hfresh | hkind
    · rcases h.fresh_iff hfresh with hnil | ⟨t, ht, hkind, hafter⟩
      · exact absurd (hnil ▸ ho') (by simp)
      · exact .inr ⟨t, List.mem_append_left _ ht, hkind, hafter o' ho',
          hstart ▸ hbefore t ht first hfirst⟩
    · exact .inl hkind
  · intro o' ho'
    rcases List.mem_append.mp ho' with ho' | ho'
    · obtain ⟨u, hu, hstop'⟩ := h.ends o' ho'
      exact ⟨u, List.mem_append_left _ hu, hstop'⟩
    · exact ⟨last, List.mem_append_right _ hlast, List.mem_singleton.mp ho' ▸ hstop⟩

/-- **The statements of a tiling cover its tokens.** -/
theorem Tiling.covers {fresh : Bool} {read : List Token} {os : List Outline} (h : Tiling fresh read os)
    (hordered : read.Pairwise fun t u => t.span.stop ≤ u.span.start)
    (hle : ∀ t ∈ read, t.span.start < t.span.stop) : Covers read os := by
  suffices hsound : Tiling.Sound fresh read os from hsound.covers
  induction h with
  | nil => exact ⟨⟨by simp, by simp, .nil, .nil⟩, by simp, fun _ => .inl rfl⟩
  | separator _ ht ih =>
      exact (ih (List.pairwise_append.mp hordered).1
        fun t ht => hle t (List.mem_append_left _ ht)).separator ht hordered
  | statement _ hseg hfresh ih =>
      exact (ih (List.pairwise_append.mp hordered).1
        fun t ht => hle t (List.mem_append_left _ ht)).statement hseg hfresh hordered hle

/-- The end of the input needs no statement. -/
theorem Covers.concat {tokens : List Token} {os : List Outline} {last : Token} (h : Covers tokens os)
    (hlast : last.kind = .endOfInput) : Covers (tokens ++ [last]) os where
  once := fun t ht hkind => by
    rcases List.mem_append.mp ht with ht | ht
    · exact h.once t ht hkind
    · rw [List.mem_singleton.mp ht, hlast] at hkind
      exact absurd rfl hkind
  nonempty := h.nonempty
  ordered := h.ordered
  separated := h.separated_append

end ShellFront
