import ShellFront.Parse.Cursor
import ShellFront.Proofs.Token.Lossless

/-!
# Cursors that move through a script

A `Script` is a list of tokens as the lexer makes them: none is empty, they follow one another in order, and
the last one, and no other, is the end of the input. Every reader of tokens moves a cursor forwards through
one script. `Cursor.Reads` says which tokens it reads on the way, and `Cursor.Opens` and `Cursor.Spans` say
how the span of what is being read lies over them.

## Contents
- `Script`, `tokenize_script`.
- `Cursor.Reads`, `Cursor.Reaches`, `Cursor.Passes`, and how places in a script are ordered.
- `Cursor.Opens`, `Cursor.Spans`: spans over what was read.
-/

namespace ShellFront

/-! ## Scripts -/

/-- Tokens as the lexer makes them. -/
structure Script where
  body : List Token
  last : Token
  last_kind : last.kind = .endOfInput
  last_le : last.span.start ≤ last.span.stop
  kinds : ∀ t ∈ body, t.kind ≠ .endOfInput
  nonempty : ∀ t ∈ body, t.span.start < t.span.stop
  ordered : (body ++ [last]).Pairwise fun t u => t.span.stop ≤ u.span.start

namespace Script

variable (s : Script)

/-- All tokens of a script. -/
def tokens : List Token := s.body ++ [s.last]

variable {s}

/-- No token ends before it begins. -/
theorem start_le_stop {t : Token} (ht : t ∈ s.tokens) : t.span.start ≤ t.span.stop := by
  rcases List.mem_append.mp ht with ht | ht
  · exact Int.le_of_lt (s.nonempty t ht)
  · rw [List.mem_singleton.mp ht]
    exact s.last_le

/-- A token before some place ends before a token after it begins. -/
theorem stop_le_start {xs ys : List Token} (h : s.tokens = xs ++ ys) {x y : Token} (hx : x ∈ xs)
    (hy : y ∈ ys) : x.span.stop ≤ y.span.start := by
  have hordered : s.tokens.Pairwise _ := s.ordered
  rw [h] at hordered
  exact (List.pairwise_append.mp hordered).2.2 x hx y hy

/-- Tokens before another one do not overlap, and none of them is empty. -/
theorem segment {before ts after : List Token} {t : Token} (h : s.tokens = before ++ (ts ++ t :: after)) :
    ts.Pairwise (fun t u => t.span.stop ≤ u.span.start) ∧ ∀ u ∈ ts, u.span.start < u.span.stop := by
  have hordered : s.tokens.Pairwise _ := s.ordered
  have hbody : s.body = before ++ (ts ++ (t :: after).dropLast) := by
    have := congrArg List.dropLast h
    rwa [tokens, List.dropLast_concat, List.dropLast_append_of_ne_nil (by simp),
      List.dropLast_append_of_ne_nil (by simp)] at this
  rw [h] at hordered
  refine ⟨(List.pairwise_append.mp (List.pairwise_append.mp hordered).2.1).1, fun u hu => ?_⟩
  exact s.nonempty u (by rw [hbody]; simp [hu])

end Script

/-- Tokens that are strung along a text do not overlap. -/
theorem Strung.pairwise {text : List Char} {tokens : List Token} {offset : Int}
    (h : Strung text tokens offset) (hle : ∀ t ∈ tokens, t.span.start ≤ t.span.stop) :
    tokens.Pairwise fun t u => t.span.stop ≤ u.span.start := by
  have hchain : tokens.IsChain fun t u => t.span.stop ≤ u.span.start ∧ u.span.start ≤ u.span.stop :=
    h.chain.imp_of_mem_imp fun t u _ hu hjoined => ⟨hjoined.le, hle u hu⟩
  have htrans : IsTrans Token fun t u => t.span.stop ≤ u.span.start ∧ u.span.start ≤ u.span.stop :=
    ⟨fun _ _ _ htu huv => ⟨by omega, huv.2⟩⟩
  exact hchain.pairwise.imp And.left

/-- **The tokens of a text are a script.** -/
theorem tokenize_script (source file : String) :
    ∃ s : Script, (tokenize source file).tokens = s.tokens ∧
      (tokenize source file).report.places = invalidPlaces s.body := by
  obtain ⟨body, place, htokens, -, hplaced, hstrung, hreport⟩ := tokenize_shape source file
  have hle : ∀ t ∈ body ++ [.endMark file place], t.span.start ≤ t.span.stop := by
    intro t ht
    rcases List.mem_append.mp ht with ht | ht
    · exact Int.le_of_lt (hplaced t ht).nonempty
    · rw [List.mem_singleton.mp ht]
      exact Int.le_refl _
  exact ⟨⟨body, .endMark file place, rfl, Int.le_refl _, fun t ht => (hplaced t ht).kind,
    fun t ht => (hplaced t ht).nonempty, hstrung.pairwise hle⟩, htokens, hreport⟩

/-! ## Kinds of tokens -/

namespace TokenKind

/-- What can be read over: neither the end of a script nor an error of the lexer. -/
def Solid : TokenKind → Prop
  | invalid | endOfInput => False
  | _ => True

/-- What something can begin with. -/
def Begins : TokenKind → Prop
  | invalid | endOfInput | symbol .closeBrace => False
  | _ => True

variable {kind : TokenKind}

theorem Solid.ne_invalid (h : kind.Solid) : kind ≠ .invalid := by
  rintro rfl
  exact h

theorem Solid.ne_endOfInput (h : kind.Solid) : kind ≠ .endOfInput := by
  rintro rfl
  exact h

/-- Nothing begins with the brace that closes a block. -/
theorem Begins.ne_closeBrace (h : kind.Begins) : kind ≠ .symbol .closeBrace := by
  rintro rfl
  exact h

/-- What begins something can be read over. -/
theorem Begins.solid (h : kind.Begins) : kind.Solid := by
  unfold Begins at h
  unfold Solid
  split <;> first | contradiction | trivial

/-- A statement is ended by a separator or by the end of the input. -/
theorem isTerminator_eq (kind : TokenKind) :
    kind.isTerminator = (kind.isSeparator || kind == .endOfInput) := by
  cases kind with
  | symbol s => cases s <;> rfl
  | _ => rfl

/-- A class of kinds that leaves out what nothing can begin with. -/
theorem begins_of {p : TokenKind → Bool}
    (hp : p .invalid = false ∧ p .endOfInput = false ∧ p (.symbol .closeBrace) = false) (h : p kind) :
    kind.Begins := by
  unfold Begins
  split <;> simp_all

end TokenKind

namespace Cursor

/-! ## Reading -/

/-- All tokens that a cursor moves through. -/
def tokens (c : Cursor) : List Token := c.before.reverse ++ c.rest

/-- Reading some tokens leads from one cursor to another. -/
structure Reads (c : Cursor) (ts : List Token) (c' : Cursor) : Prop where
  before : c'.before = ts.reverse ++ c.before
  rest : c.rest = ts ++ c'.rest

/-- A cursor is further on than another, or at the same place. -/
def Reaches (c c' : Cursor) : Prop := ∃ ts, c.Reads ts c'

/-- A cursor is further on than another, and no `invalid` token stands between them. -/
def Passes (c c' : Cursor) : Prop := ∃ ts, (∀ t ∈ ts, t.kind ≠ .invalid) ∧ c.Reads ts c'

variable {s : Script} {c c₁ c₂ c₃ : Cursor} {ts us : List Token}

theorem Reads.refl (c : Cursor) : c.Reads [] c := ⟨rfl, rfl⟩

/-- Tokens that are read one after the other. -/
theorem Reads.trans (h : c₁.Reads ts c₂) (h' : c₂.Reads us c₃) : c₁.Reads (ts ++ us) c₃ where
  before := by rw [h'.before, h.before, List.reverse_append, List.append_assoc]
  rest := by rw [h.rest, h'.rest, List.append_assoc]

/-- Moving leaves the list of tokens as it is. -/
theorem Reads.tokens_eq (h : c₁.Reads ts c₂) : c₂.tokens = c₁.tokens := by
  rw [tokens, tokens, h.before, h.rest, List.reverse_append, List.reverse_reverse, List.append_assoc]

/-- What is read was still to be read. -/
theorem Reads.mem_rest (h : c₁.Reads ts c₂) {t : Token} (ht : t ∈ ts) : t ∈ c₁.rest :=
  h.rest ▸ List.mem_append_left _ ht

theorem Reads.reaches (h : c₁.Reads ts c₂) : c₁.Reaches c₂ := ⟨ts, h⟩

theorem Reaches.refl (c : Cursor) : c.Reaches c := ⟨[], .refl c⟩

theorem Reaches.trans (h : c₁.Reaches c₂) (h' : c₂.Reaches c₃) : c₁.Reaches c₃ :=
  let ⟨_, hts⟩ := h
  let ⟨_, hus⟩ := h'
  (hts.trans hus).reaches

/-- The list of tokens stays the same on the way. -/
theorem Reaches.tokens_eq (h : c₁.Reaches c₂) : c₂.tokens = c₁.tokens :=
  let ⟨_, hts⟩ := h
  hts.tokens_eq

theorem Passes.refl (c : Cursor) : c.Passes c := ⟨[], by simp, .refl c⟩

theorem Passes.trans (h : c₁.Passes c₂) (h' : c₂.Passes c₃) : c₁.Passes c₃ := by
  obtain ⟨ts, hts, hread⟩ := h
  obtain ⟨us, hus, hread'⟩ := h'
  refine ⟨ts ++ us, fun t ht => ?_, hread.trans hread'⟩
  rcases List.mem_append.mp ht with ht | ht
  · exact hts t ht
  · exact hus t ht

theorem Passes.reaches (h : c₁.Passes c₂) : c₁.Reaches c₂ :=
  let ⟨_, _, hread⟩ := h
  hread.reaches

/-- Only the end of the input has nothing after it. -/
theorem kind_of_ahead_nil (hc : c.tokens = s.tokens) (hahead : c.ahead = []) : c.kind = .endOfInput := by
  rw [tokens, rest, hahead] at hc
  rw [kind, List.singleton_inj.mp (List.append_inj' hc rfl).2]
  exact s.last_kind

/-- The cursor of a script reads its current token unless that is the end of the input. -/
theorem advance_reads (hc : c.tokens = s.tokens) (hkind : c.kind ≠ .endOfInput) :
    c.Reads [c.current] c.advance := by
  rcases c with ⟨before, current, _ | ⟨t, ts⟩⟩
  · exact absurd (kind_of_ahead_nil hc rfl) hkind
  · rw [advance, if_neg hkind]
    exact ⟨rfl, rfl⟩

/-- The token after the current one comes next. -/
theorem current_advance (hkind : c.kind ≠ .endOfInput) : c.advance.current = c.next := by
  rcases c with ⟨before, current, _ | ⟨t, ts⟩⟩ <;> rw [advance, if_neg hkind] <;> rfl

/-- A single token that can be read over. -/
theorem advance_passes (hc : c.tokens = s.tokens) (hkind : c.kind.Solid) : c.Passes c.advance :=
  ⟨[c.current], List.forall_mem_singleton.mpr hkind.ne_invalid, advance_reads hc hkind.ne_endOfInput⟩

/-- Skipping reads tokens of the class skipped. -/
theorem skipWhile_reads (p : TokenKind → Bool) (c : Cursor) :
    ∃ ts, c.Reads ts (c.skipWhile p) ∧ ∀ t ∈ ts, p t.kind := by
  fun_induction skipWhile p c with
  | case1 before current => exact ⟨[], .refl _, by simp⟩
  | case2 before current t ts hp ih =>
      obtain ⟨us, hread, hall⟩ := ih
      refine ⟨current :: us, ?_, List.forall_mem_cons.mpr ⟨hp, hall⟩⟩
      have hfirst : Reads ⟨before, current, t :: ts⟩ [current] ⟨current :: before, t, ts⟩ := ⟨rfl, rfl⟩
      exact hfirst.trans hread
  | case3 before current t ts hp => exact ⟨[], .refl _, by simp⟩

/-- Nothing is skipped where the current token is of another class. -/
theorem skipWhile_of_not {p : TokenKind → Bool} (h : p c.kind = false) : c.skipWhile p = c := by
  rcases c with ⟨before, current, _ | ⟨t, ts⟩⟩
  · rw [skipWhile]
  · rw [skipWhile]
    exact if_neg (Bool.eq_false_iff.mp h)

/-- What is skipped are whole tokens. -/
theorem skipWhile_passes {p : TokenKind → Bool} (hp : p .invalid = false) (c : Cursor) :
    c.Passes (c.skipWhile p) := by
  obtain ⟨ts, hread, hall⟩ := skipWhile_reads p c
  refine ⟨ts, fun t ht hkind => ?_, hread⟩
  have := hall t ht
  rw [hkind, hp] at this
  contradiction

/-! ## The order of places -/

/-- All tokens: those read, the current one and those after it. -/
theorem tokens_eq_ahead (hc : c.tokens = s.tokens) :
    s.tokens = (c.before.reverse ++ [c.current]) ++ c.ahead := by
  rw [← hc, tokens, rest, List.append_assoc, List.singleton_append]

theorem mem_tokens_of_mem_rest (hc : c.tokens = s.tokens) {t : Token} (ht : t ∈ c.rest) : t ∈ s.tokens :=
  hc ▸ List.mem_append_right _ ht

/-- A token that is still to be read begins where the current one does, or later. -/
theorem start_le_of_mem_rest (hc : c.tokens = s.tokens) {t : Token} (ht : t ∈ c.rest) :
    c.current.span.start ≤ t.span.start ∧ c.current.span.stop ≤ t.span.stop := by
  have hcurrent := s.start_le_stop (mem_tokens_of_mem_rest hc (t := c.current) List.mem_cons_self)
  have hle := s.start_le_stop (mem_tokens_of_mem_rest hc ht)
  rcases List.mem_cons.mp ht with rfl | ht
  · exact ⟨Int.le_refl _, Int.le_refl _⟩
  · have := s.stop_le_start (tokens_eq_ahead hc)
      (List.mem_append_right c.before.reverse List.mem_cons_self) ht
    omega

/-- Whoever goes on stands at a later token. -/
theorem current_start_le (hc : c₁.tokens = s.tokens) (h : c₁.Reaches c₂) :
    c₁.current.span.start ≤ c₂.current.span.start := by
  obtain ⟨ts, hread⟩ := h
  refine (start_le_of_mem_rest hc ?_).1
  rw [hread.rest]
  exact List.mem_append_right _ List.mem_cons_self

/-- The first of some tokens that are read is the current one. -/
theorem Reads.head (h : c₁.Reads ts c₂) (hne : ts ≠ []) : ts.head? = some c₁.current := by
  have hrest := congrArg List.head? h.rest
  rw [List.head?_append_of_ne_nil _ hne] at hrest
  exact hrest.symm

/-- The last of some tokens that were read is the previous one. -/
theorem Reads.last (h : c₁.Reads ts c₂) (hne : ts ≠ []) : ts.getLast? = some c₂.previous := by
  have hback : ts.reverse ≠ [] := List.reverse_eq_nil_iff.not.mpr hne
  obtain ⟨t, us, hts⟩ := List.exists_cons_of_ne_nil hback
  rw [previous, h.before, hts, List.getLast?_eq_head?_reverse, hts]
  rfl

/-- The token read last is one of those that were read. -/
theorem Reads.previous_mem (h : c₁.Reads ts c₂) (hne : ts ≠ []) : c₂.previous ∈ ts :=
  List.mem_of_getLast? (h.last hne)

/-- What was read last ends later for whoever goes on. -/
theorem previous_stop_le (hc : c₁.tokens = s.tokens) (hne : c₁.before ≠ []) (h : c₁.Reaches c₂) :
    c₁.previous.span.stop ≤ c₂.previous.span.stop := by
  obtain ⟨ts, hread⟩ := h
  obtain ⟨p, bs, hp⟩ := List.exists_cons_of_ne_nil hne
  have hprevious : c₁.previous = p := by rw [previous, hp]; rfl
  by_cases hts : ts = []
  · have : c₂.previous = p := by rw [previous, hread.before, hts, hp]; rfl
    exact Int.le_of_eq (by rw [hprevious, this])
  · have hmem := hread.mem_rest (hread.previous_mem hts)
    have hstart := s.stop_le_start (x := p) hc.symm (by rw [hp]; simp) hmem
    have := s.start_le_stop (mem_tokens_of_mem_rest hc hmem)
    rw [hprevious]
    omega

/-! ## Spans over what was read -/

/-- Something that is being read **opened** at `c₀`: by now its first token was read, and `start` begins
    with that token and reaches no further than what was read. -/
structure Opens (c₀ : Cursor) (start : Span) (c : Cursor) : Prop where
  reads : ∃ ts, ts ≠ [] ∧ c₀.Reads ts c
  kind : c₀.kind ≠ .symbol .closeBrace
  start_eq : start.start = c₀.current.span.start
  stop_le : start.stop ≤ c.previous.span.stop

/-- A span lies over just the tokens read from `c₀` on. -/
structure Spans (c₀ : Cursor) (span : Span) (c : Cursor) : Prop extends Opens c₀ span c where
  stop_eq : span.stop = c.previous.span.stop

variable {c₀ : Cursor} {start span : Span}

theorem Opens.reaches (h : c₀.Opens start c) : c₀.Reaches c :=
  let ⟨_, _, hread⟩ := h.reads
  hread.reaches

/-- Whatever is opened, something was read. -/
theorem Opens.before_ne (h : c₀.Opens start c) : c.before ≠ [] := by
  obtain ⟨ts, hne, hread⟩ := h.reads
  rw [hread.before]
  exact List.append_ne_nil_of_left_ne_nil (List.reverse_eq_nil_iff.not.mpr hne) _

/-- Reading on keeps it open. -/
theorem Opens.reach (h : c₀.Opens start c₁) (hc : c₁.tokens = s.tokens) (hreach : c₁.Reaches c₂) :
    c₀.Opens start c₂ := by
  obtain ⟨ts, hne, hread⟩ := h.reads
  obtain ⟨us, hread'⟩ := hreach
  exact ⟨⟨ts ++ us, List.append_ne_nil_of_left_ne_nil hne us, hread.trans hread'⟩, h.kind, h.start_eq,
    Int.le_trans h.stop_le (previous_stop_le hc h.before_ne hread'.reaches)⟩

/-- The first token opens what it begins, and spans itself. -/
theorem advance_spans (hc : c₀.tokens = s.tokens) (hkind : c₀.kind.Begins) :
    c₀.Spans c₀.current.span c₀.advance := by
  have hread := advance_reads hc hkind.solid.ne_endOfInput
  have hprevious : c₀.advance.previous = c₀.current := List.mem_singleton.mp (hread.previous_mem (by simp))
  exact ⟨⟨⟨_, by simp, hread⟩, hkind.ne_closeBrace, rfl, Int.le_of_eq (by rw [hprevious])⟩,
    by rw [hprevious]⟩

/-- The cover of the start and what was read last spans all that was read. -/
theorem Opens.spans (h : c₀.Opens start c) (hc : c.tokens = s.tokens) :
    c₀.Spans (start.cover c.previous.span) c := by
  obtain ⟨ts, hne, hread⟩ := h.reads
  have hc₀ : c₀.tokens = s.tokens := hread.tokens_eq ▸ hc
  have hle := (start_le_of_mem_rest hc₀ (hread.mem_rest (hread.previous_mem hne))).1
  have hstart : (start.cover c.previous.span).start = c₀.current.span.start := by
    rw [Span.cover_start, h.start_eq, Int.min_eq_left hle]
  have hstop : (start.cover c.previous.span).stop = c.previous.span.stop := by
    rw [Span.cover_stop, Int.max_eq_right h.stop_le]
  exact ⟨⟨h.reads, h.kind, hstart, Int.le_of_eq hstop⟩, hstop⟩

/-- Only where a span begins and ends counts. -/
theorem Spans.congr {span' : Span} (h : c₀.Spans span c) (hstart : span'.start = span.start)
    (hstop : span'.stop = span.stop) : c₀.Spans span' c :=
  ⟨⟨h.reads, h.kind, hstart.trans h.start_eq, hstop ▸ h.stop_le⟩, hstop.trans h.stop_eq⟩

/-- A span covers itself. -/
theorem spans_cover_self : c₀.Spans (span.cover span) c ↔ c₀.Spans span c := by
  have hstart : (span.cover span).start = span.start := by rw [Span.cover_start, Int.min_self]
  have hstop : (span.cover span).stop = span.stop := by rw [Span.cover_stop, Int.max_self]
  exact ⟨fun h => h.congr hstart.symm hstop.symm, fun h => h.congr hstart hstop⟩

/-- The cover of two spans that follow one another spans both. -/
theorem Opens.cover (h : c₀.Opens start c₁) (hc : c₁.tokens = s.tokens) (h' : c₁.Spans span c₂) :
    c₀.Spans (start.cover span) c₂ := by
  have hc₀ : c₀.tokens = s.tokens := h.reaches.tokens_eq ▸ hc
  have hopens := h.reach hc h'.reaches
  have hle := current_start_le hc₀ h.reaches
  have hstart : (start.cover span).start = c₀.current.span.start := by
    rw [Span.cover_start, h.start_eq, h'.start_eq, Int.min_eq_left hle]
  have hstop : (start.cover span).stop = c₂.previous.span.stop := by
    rw [Span.cover_stop, h'.stop_eq, Int.max_eq_right hopens.stop_le]
  exact ⟨⟨hopens.reads, h.kind, hstart, Int.le_of_eq hstop⟩, hstop⟩

end Cursor

end ShellFront
