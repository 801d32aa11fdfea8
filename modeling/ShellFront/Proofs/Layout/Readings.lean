import ShellFront.Proofs.Layout.Leaves
import ShellFront.Proofs.Layout.Stretches
import ShellFront.Proofs.Parse.StatementLists

/-!
# Readings that lay out trees

A production of the grammar reads tokens from a cursor on and holds the parts that it has read so far. Its
`Trail` says which tokens these are, which brackets among them are still open, and that the parts held are
laid over them. When the brackets are closed and a node is made of the parts, the node is `Formed`.

An action that gives up only has to leave brackets in order: recovery and further attempts start from there.

## Contents
- `TokenKind.isFirm`, what a node can end with.
- `Cursor.Trail`, `Cursor.Formed`, `Cursor.Strays`.
- `Watch.Allows`: what recovery needs.
- `Parse.Does`, `Parse.Goes`, `Parse.Lays`, `Parse.Forms` and the rules for them.
-/

namespace ShellFront

open Outlined Parse

/-- Whether a token of some kind calls for nothing after it. A pipe and a colon do, and so does a line break
    inside of something. -/
def TokenKind.isFirm : TokenKind → Bool
  | newline | symbol .colon => false
  | kind => !kind.isPipe

namespace TokenKind

/-- Whether a kind of token is neither a bracket nor calls for more. -/
def isSturdy (kind : TokenKind) : Bool := kind.isInert && kind.isFirm

variable {kind : TokenKind}

theorem begins_of_inert (h : kind.isInert = true) : kind.Begins := begins_of ⟨rfl, rfl, rfl⟩ h

theorem inert_of_sturdy (h : kind.isSturdy = true) : kind.isInert = true := ((Bool.and_eq_true _ _).mp h).1

theorem firm_of_sturdy (h : kind.isSturdy = true) : kind.isFirm = true := ((Bool.and_eq_true _ _).mp h).2

end TokenKind

/-- When a watch says something about a reading: always when it is strict; when it recovers from errors, no
    brackets may count, or only braces, and those of the script have to be nested. -/
def Watch.Allows (w : Watch) (s : Script) (mode : Mode) : Prop :=
  mode.recovering = true → w = .nothing ∨ (w = .braces ∧ Watch.braces.follow [] s.tokens = some [])

namespace Cursor

/-! ## Trails -/

/-- The **trail** of a production that began at `c₀`: the parts held are laid over the tokens read, of which
    the brackets in `stack` are still open. A `firm` trail does not end with a token that calls for more. -/
structure Trail (s : Script) (w : Watch) (c₀ : Cursor) (firm : Bool) (stack : List Symbol)
    (held : List Outline) (c : Cursor) : Prop where
  tokens : c.tokens = s.tokens
  read : ∃ ts, c₀.Reads ts c ∧ w.follow [] ts = some (stack.filter w.sees) ∧ Laid ts held ∧
    (firm = true → ts ≠ [] → c.previous.kind.isFirm = true)
  seated : ∀ o ∈ held, o.Seated s w

/-- One outline was **formed** of all tokens read since `c₀`. -/
structure Formed (s : Script) (w : Watch) (c₀ : Cursor) (os : List Outline) (c : Cursor) : Prop where
  trail : Trail s w c₀ true [] os c
  spans : ∃ o, os = [o] ∧ c₀.Spans o.span c

/-- An action gave up at `c`, and no bracket was closed that it had not opened. -/
def Strays (w : Watch) (c₀ c : Cursor) : Prop := ∃ ts stack, c₀.Reads ts c ∧ w.follow [] ts = some stack

variable {s : Script} {w : Watch} {c₀ c c' : Cursor} {firm firm' : Bool} {stack stack' : List Symbol}
  {held more : List Outline} {ts us : List Token} {o : Outline} {span start : Span}

theorem Reads.unique (h : c₀.Reads ts c) (h' : c₀.Reads us c) : ts = us :=
  List.append_cancel_right (h.rest.symm.trans h'.rest)

theorem Reads.within (h : c₀.Reads ts c) (hc : c.tokens = s.tokens) :
    ∃ before t after, s.tokens = before ++ (ts ++ t :: after) := by
  refine ⟨c₀.before.reverse, c.current, c.ahead, ?_⟩
  rw [← hc, h.tokens_eq, Cursor.tokens, h.rest]
  rfl

theorem Strays.trans (h : Strays w c₀ c) (h' : Strays w c c') : Strays w c₀ c' := by
  obtain ⟨ts, stack, hread, hfollow⟩ := h
  obtain ⟨us, stack', hread', hfollow'⟩ := h'
  have hbase := Watch.follow_base hfollow' stack
  exact ⟨ts ++ us, _, hread.trans hread', (Watch.follow_append_of hfollow).trans hbase⟩

theorem Strays.refl (c : Cursor) : Strays w c c := ⟨[], [], .refl c, rfl⟩

theorem Trail.strays (h : Trail s w c₀ firm stack held c) : Strays w c₀ c :=
  let ⟨ts, hread, hfollow, _⟩ := h.read
  ⟨ts, _, hread, hfollow⟩

theorem Trail.reaches (h : Trail s w c₀ firm stack held c) : c₀.Reaches c :=
  let ⟨_, hread, _⟩ := h.read
  hread.reaches

theorem Trail.nil (hc : c.tokens = s.tokens) : Trail s w c true [] [] c :=
  ⟨hc, ⟨[], .refl c, rfl, .nil, fun _ h => absurd rfl h⟩, by simp⟩

/-- **A trail grows by what is read next.** -/
theorem Trail.push (h : Trail s w c₀ firm stack held c) (hread : c.Reads us c')
    (hfollow : w.follow (stack.filter w.sees) us = some (stack'.filter w.sees)) (hlaid : Laid us more)
    (hseated : ∀ o ∈ more, o.Seated s w)
    (hfirm : firm' = true → us ≠ [] ∧ c'.previous.kind.isFirm = true ∨ us = [] ∧ firm = true) :
    Trail s w c₀ firm' stack' (held ++ more) c' := by
  obtain ⟨ts, hts, hstack, hheld, hlast⟩ := h.read
  refine ⟨hread.tokens_eq.trans h.tokens, ⟨ts ++ us, hts.trans hread, ?_, hheld.append hlaid, ?_⟩, ?_⟩
  · rw [Watch.follow_append_of hstack, hfollow]
  · intro hfirm' hne
    rcases hfirm hfirm' with ⟨-, hprevious⟩ | ⟨rfl, hfirm''⟩
    · exact hprevious
    · rw [List.append_nil] at hne
      rw [hread.eq_of_nil]
      exact hlast hfirm'' hne
  · exact List.forall_mem_append.mpr ⟨h.seated, hseated⟩

/-- Tokens may be read that no part stands for. -/
theorem Trail.pass (h : Trail s w c₀ firm stack held c) (hread : c.Reads us c')
    (hfollow : w.follow (stack.filter w.sees) us = some (stack'.filter w.sees))
    (hfirm : firm' = true → us ≠ [] ∧ c'.previous.kind.isFirm = true ∨ us = [] ∧ firm = true) :
    Trail s w c₀ firm' stack' held c' := by
  rw [← List.append_nil held]
  exact h.push hread hfollow .nil (by simp) hfirm

/-- A part is read after others. -/
theorem Trail.append (h : Trail s w c₀ firm stack held c) (h' : Trail s w c firm' [] more c') :
    Trail s w c₀ (firm && firm') stack (held ++ more) c' := by
  obtain ⟨us, hread, hfollow, hlaid, hlast⟩ := h'.read
  refine h.push hread (Watch.follow_nested hfollow) hlaid h'.seated fun hfirm => ?_
  obtain ⟨hfirm, hfirm'⟩ := (Bool.and_eq_true _ _).mp hfirm
  by_cases hne : us = []
  · exact .inr ⟨hne, hfirm⟩
  · exact .inl ⟨hne, hlast hfirm' hne⟩

/-- What was formed ends firmly, whatever stands before it. -/
theorem Trail.node (h : Trail s w c₀ firm stack held c) (h' : Formed s w c more c') :
    Trail s w c₀ true stack (held ++ more) c' := by
  obtain ⟨us, hread, hfollow, hlaid, hlast⟩ := h'.trail.read
  obtain ⟨o, -, hspans⟩ := h'.spans
  obtain ⟨us', hne, hread', -⟩ := hspans.fills
  have hne : us ≠ [] := hread.unique hread' ▸ hne
  exact h.push hread (Watch.follow_nested hfollow) hlaid h'.trail.seated
    fun _ => .inl ⟨hne, hlast rfl hne⟩

theorem Trail.weaken (h : Trail s w c₀ firm stack held c) (hfirm : firm' = true → firm = true) :
    Trail s w c₀ firm' stack held c :=
  h.pass (.refl c) rfl fun h' => .inr ⟨rfl, hfirm h'⟩

/-- A part that stands for nothing in the end. -/
theorem Trail.drop (h : Trail s w c₀ firm stack (o :: held) c) : Trail s w c₀ firm stack held c := by
  obtain ⟨ts, hread, hfollow, hlaid, hlast⟩ := h.read
  exact ⟨h.tokens, ⟨ts, hread, hfollow, hlaid.sublist (List.sublist_cons_self o held), hlast⟩,
    fun o' ho' => h.seated o' (List.mem_cons_of_mem o ho')⟩

/-! ### One more token -/

theorem advance_previous (hc : c.tokens = s.tokens) (hkind : c.kind ≠ .endOfInput) :
    c.advance.previous = c.current :=
  List.mem_singleton.mp ((advance_reads hc hkind).previous_mem (by simp))

theorem Trail.inert (h : Trail s w c₀ firm stack held c) (hkind : c.kind.isInert = true) :
    Trail s w c₀ c.kind.isFirm stack held c.advance := by
  have hprevious := advance_previous h.tokens (TokenKind.ne_endOfInput_of_inert hkind)
  refine h.pass (advance_reads h.tokens (TokenKind.ne_endOfInput_of_inert hkind))
    (Watch.follow_inert (List.forall_mem_singleton.mpr hkind)) fun hfirm => .inl ⟨by simp, ?_⟩
  rwa [hprevious]

/-- A token that a leaf stands for. -/
theorem Trail.leaf (h : Trail s w c₀ firm stack held c) (hkind : c.kind.isInert = true)
    (ho : o.Leaf c.current.span) : Trail s w c₀ c.kind.isFirm stack (held ++ [o]) c.advance := by
  have hread := advance_reads h.tokens (TokenKind.ne_endOfInput_of_inert hkind)
  have hprevious := advance_previous h.tokens (TokenKind.ne_endOfInput_of_inert hkind)
  have hinert : w.follow [] [c.current] = some [] :=
    Watch.follow_inert (List.forall_mem_singleton.mpr hkind)
  have hfills : Fills [c.current] o.span := by
    rw [ho.span]
    exact ⟨_, _, rfl, rfl, rfl, rfl⟩
  refine h.push hread (Watch.follow_nested hinert) (.single hfills) ?_
    fun hfirm => .inl ⟨by simp, by rwa [hprevious]⟩
  obtain ⟨kind, span, attributes, children⟩ := o
  have hchildren : children = [] := ho.children
  subst hchildren
  rw [List.forall_mem_singleton]
  exact .node ho.kind (hread.within (hread.tokens_eq.trans h.tokens)) hfills hinert .nil (by simp)

theorem Trail.opener (h : Trail s w c₀ firm stack held c) {opener : Symbol} (hkind : c.kind = .symbol opener)
    (hopener : opener.isOpener = true) : Trail s w c₀ true (opener :: stack) held c.advance := by
  have hend : c.kind ≠ .endOfInput := by rw [hkind]; nofun
  have hcurrent : c.current.kind = .symbol opener := hkind
  refine h.pass (advance_reads h.tokens hend) ?_ fun _ => .inl ⟨by simp, ?_⟩
  · rw [Watch.follow_cons, hcurrent, Watch.step_opener hopener]
    rfl
  · rw [advance_previous h.tokens hend, hcurrent]
    cases opener <;> first | rfl | contradiction

theorem Trail.closer {opener closer : Symbol} (h : Trail s w c₀ firm (opener :: stack) held c)
    (hkind : c.kind = .symbol closer) (hpartner : opener.partner? = some closer) :
    Trail s w c₀ true stack held c.advance := by
  have hend : c.kind ≠ .endOfInput := by rw [hkind]; nofun
  have hcurrent : c.current.kind = .symbol closer := hkind
  refine h.pass (advance_reads h.tokens hend) ?_ fun _ => .inl ⟨by simp, ?_⟩
  · rw [Watch.follow_cons, hcurrent, Watch.step_closer hpartner]
    rfl
  · rw [advance_previous h.tokens hend, hcurrent]
    unfold Symbol.partner? at hpartner
    split at hpartner <;> first | contradiction | (obtain rfl := Option.some.inj hpartner; rfl)

/-- Tokens that are skipped are no brackets. -/
theorem Trail.skip {p : TokenKind → Bool} (h : Trail s w c₀ firm stack held c)
    (hp : ∀ kind, p kind = true → kind.isInert = true) : Trail s w c₀ false stack held (c.skipWhile p) := by
  obtain ⟨us, hread, hus⟩ := c.skipWhile_reads p
  exact h.pass hread (Watch.follow_inert fun t ht => hp _ (hus t ht)) nofun

/-! ### Nodes -/

/-- **A node is formed of the parts held.** -/
theorem Trail.formed {kind : NodeKind} {attributes : List (String × Attribute)}
    (h : Trail s w c₀ true [] held c) (hspans : c₀.Spans span c)
    (hkind : kind ≠ .block ∧ kind ≠ .closure) : Formed s w c₀ [.mk kind span attributes held] c := by
  obtain ⟨ts, hread, hfollow, hlaid, hlast⟩ := h.read
  obtain ⟨ts', -, hread', hfills⟩ := hspans.fills
  obtain rfl := hread.unique hread'
  refine ⟨⟨h.tokens, ⟨ts, hread, hfollow, .single hfills, hlast⟩, ?_⟩, _, rfl, hspans⟩
  rw [List.forall_mem_singleton]
  exact .node hkind (hread.within h.tokens) hfills hfollow hlaid h.seated

theorem Trail.formedAs {α : Type} [Outlined α] {a : α} {kind : NodeKind}
    {attributes : List (String × Attribute)} {children : List Outline}
    (h : Trail s w c₀ true [] held c) (hspans : c₀.Spans span c)
    (hshown : shown a = [.mk kind span attributes children]) (hkind : kind ≠ .block ∧ kind ≠ .closure)
    (hheld : children = held) : Formed s w c₀ (shown a) c := by
  rw [hshown, hheld]
  exact h.formed hspans hkind

/-- A leaf stands for the one token read. -/
theorem formed_leaf (hc : c.tokens = s.tokens) (hkind : c.kind.isSturdy = true) (ho : o.Leaf c.current.span) :
    Formed s w c [o] c.advance := by
  have hinert := TokenKind.inert_of_sturdy hkind
  have htrail := (Trail.nil (w := w) hc).leaf hinert ho
  rw [TokenKind.firm_of_sturdy hkind] at htrail
  exact ⟨htrail, o, rfl, ho.span ▸ advance_spans hc (TokenKind.begins_of_inert hinert)⟩

theorem Formed.spans_of (h : Formed s w c₀ [o] c) : c₀.Spans o.span c := by
  obtain ⟨o', ho, hspans⟩ := h.spans
  rwa [List.singleton_inj.mp ho]

/-- What was formed opened with its first token. -/
theorem Formed.opens_current (h : Formed s w c₀ held c) : c₀.Opens c₀.current.span c := by
  obtain ⟨o, -, hspans⟩ := h.spans
  obtain ⟨ts, hne, hread⟩ := hspans.reads
  have hc₀ : c₀.tokens = s.tokens := hread.tokens_eq.symm.trans h.trail.tokens
  have hle := start_le_of_mem_rest hc₀ (hread.mem_rest (hread.previous_mem hne))
  exact ⟨⟨ts, hne, hread⟩, hspans.kind, rfl, hle.2⟩

theorem Formed.spans_node {n : Node} (h : Formed s w c₀ (shown n) c) : c₀.Spans n.span c := by
  have hspans : c₀.Spans n.outline.span c := h.spans_of
  rwa [n.outline_span] at hspans

end Cursor

end ShellFront
