import ShellFront.Proofs.Layout.Statements
import ShellFront.Proofs.Parse.Scripts

/-!
# How scripts are laid out

The rules of the grammar are neat to every depth, so the statements of a script are laid over its tokens and
every node of them stands over a stretch of tokens. The spans of a tree nest for that reason, whatever was
read; and where the brackets of a script are nested, recovery takes no pair of braces apart.

## Contents
- `Rules.upTo_neat`, `parse_laid`.
- `parse_spans_nest`.
- `Outline.Stands.pair`, `Outline.Stands.together`, `parse_keeps_braces`.
-/

namespace ShellFront

open Outlined Parse

variable {s : Script} {w : Watch} {source file : String}

/-! ## Reading a script -/

namespace Rules

theorem exhausted_neat (s : Script) (w : Watch) : exhausted.Neat s w where
  expression := fun c _ _ => .fail (.refl c)
  binary := fun _ c _ _ => .fail (.refl c)
  unary := fun c _ _ => .fail (.refl c)
  access := fun c _ _ => .fail (.refl c)
  statement := fun c _ _ => .fail (.refl c)
  assigned := fun c _ _ => .fail (.refl c)
  pattern := fun c _ _ => .fail (.refl c)

/-- **The rules are neat to every depth.** -/
theorem upTo_neat (s : Script) (w : Watch) (n : Nat) : (upTo n).Neat s w := by
  induction n with
  | zero => exact exhausted_neat s w
  | succ n ih =>
      exact ⟨Grammar.expression_forms ih, Grammar.binary_forms ih, Grammar.unary_forms ih,
        Grammar.access_forms ih, Grammar.statement_forms ih, Grammar.assigned_forms ih,
        Grammar.pattern_forms ih⟩

end Rules

/-- The statements of a script are read in both modes. -/
theorem script_reads (htokens : (tokenize source file).tokens = s.tokens) (failFast : Bool)
    (isBuiltin : String → Bool) :
    ∃ list st', scriptStatements source file ⟨.top (!failFast), isBuiltin⟩ (.first source file) = .ok list st' := by
  obtain ⟨list, st', hlenient, -⟩ := script_lenient htokens ⟨.top true, isBuiltin⟩
  cases failFast with
  | false => exact ⟨list, st', hlenient⟩
  | true =>
      obtain ⟨kept, -, st₁, hstrict, -⟩ := (hlenient ▸ script_runs htokens ⟨.top true, isBuiltin⟩).strict
      exact ⟨kept, st₁, hstrict⟩

/-- All nodes of a program but the program itself are those of its statements. -/
theorem Program.mem_walk_tail {p : Program} {u : Outline} :
    u ∈ p.outline.walk.tail ↔ ∃ o ∈ shown p.statements, u ∈ o.preorder := by
  rw [Outline.walk_eq_preorder, Program.outline, Node.outlines_eq]
  exact Outline.mem_preorders

theorem Program.walk_eq (p : Program) : p.outline.walk = p.outline :: p.outline.walk.tail := by
  rw [Outline.walk_eq_preorder, Program.outline]
  rfl

/-- **The statements of a script are laid over its tokens**, and every node of them stands over tokens. -/
theorem parse_laid (htokens : (tokenize source file).tokens = s.tokens) (failFast : Bool)
    (isBuiltin : String → Bool) (hallows : w.Allows s (.top (!failFast))) :
    let program := (parse source file failFast isBuiltin).program
    program.span = scriptSpan source file ∧
      (∃ ts t after, s.tokens = ts ++ t :: after ∧ Laid ts (shown program.statements)) ∧
      ∀ u ∈ program.outline.walk.tail, ∃ seg, u.Stands s w seg := by
  obtain ⟨hbefore, hfirst⟩ := first_cursor htokens
  obtain ⟨list, st', hrun⟩ := script_reads htokens failFast isBuiltin
  have hlist : Does s w _ (State.first source file).cursor (scriptStatements source file) fun list c' =>
      ∃ last, (State.first source file).cursor.Trail s w false [] (shown list) last ∧
        (false = true → last = c') :=
    Grammar.statementList_does (Rules.upTo_neat s w _) hfirst (.inr hbefore)
  have hlands := hlist ⟨.top (!failFast), isBuiltin⟩ _ hallows rfl
  rw [hrun] at hlands
  obtain ⟨last, htrail, -⟩ := hlands
  obtain ⟨ts, hread, -, hlaid, -⟩ := htrail.read
  dsimp only
  rw [(parse_of_run failFast hrun).1]
  refine ⟨rfl, ⟨ts, last.current, last.ahead, ?_, hlaid⟩, fun u hu => ?_⟩
  · rw [← hfirst, Cursor.tokens, hbefore, hread.rest]
    rfl
  · obtain ⟨o, ho, hu⟩ := Program.mem_walk_tail.mp hu
    exact htrail.seated o ho u hu

/-! ## Spans -/

theorem Cursor.last_of_before_nil {c : Cursor} (hc : c.tokens = s.tokens) (hbefore : c.before = []) :
    c.last = s.last := by
  have hlast : c.tokens.getLast? = some s.last := by rw [hc, Script.tokens, List.getLast?_concat]
  rw [Cursor.tokens, hbefore, Cursor.rest] at hlast
  rw [Cursor.last]
  simpa [List.getLast?_cons] using hlast

/-- Tokens lie between the ends of a script. -/
theorem scriptSpan_contains (source file : String) {t : Token} (ht : t ∈ (tokenize source file).tokens) :
    (scriptSpan source file).start ≤ t.span.start ∧ t.span.stop ≤ (scriptSpan source file).stop := by
  obtain ⟨s, htokens, -⟩ := tokenize_script source file
  obtain ⟨hbefore, hfirst⟩ := first_cursor htokens
  rw [scriptSpan, Cursor.last_of_before_nil hfirst hbefore]
  constructor
  · obtain ⟨body, place, hbody, -, hplaced, -⟩ := tokenize_shape source file
    rw [hbody] at ht
    rcases List.mem_append.mp ht with ht | ht
    · exact (hplaced t ht).start
    · obtain rfl := List.mem_singleton.mp ht
      exact Int.natCast_nonneg _
  · rw [htokens] at ht
    rcases List.mem_append.mp ht with hmem | hmem
    · exact Int.le_trans (Script.stop_le_start (s := s) rfl hmem List.mem_cons_self) s.last_le
    · exact Int.le_of_eq (congrArg (fun t : Token => t.span.stop) (List.mem_singleton.mp hmem))

/-- The statements of a script lie inside of it and follow one another. -/
theorem Program.nests {p : Program} {ts after : List Token} {t : Token}
    (hspan : p.span = scriptSpan source file) (htokens : (tokenize source file).tokens = s.tokens)
    (hts : s.tokens = ts ++ t :: after) (hlaid : Laid ts (shown p.statements)) : p.outline.Nests := by
  have hchildren : p.outline.children = shown p.statements := Node.outlines_eq _
  have hordered := (Script.segment (show s.tokens = [] ++ (ts ++ t :: after) from hts)).1
  refine ⟨fun o ho => ?_, fun _ => ?_, nofun⟩
  · rw [hchildren] at ho
    obtain ⟨seg, hmem, hseg⟩ := hlaid.exists_fills ho
    obtain ⟨⟨first, hfirst, hstart⟩, last, hlast, hstop⟩ := hseg.ends
    have hscript {u : Token} (hu : u ∈ seg) : u ∈ (tokenize source file).tokens := by
      rw [htokens, hts]
      exact List.mem_append_left _ (hmem u hu)
    have hle := (scriptSpan_contains source file (hscript hfirst)).1
    have hge := (scriptSpan_contains source file (hscript hlast)).2
    rw [← hspan] at hle hge
    have hwhole : p.outline.span = p.span := rfl
    rw [hwhole]
    simp only [Span.contains, Bool.and_eq_true, decide_eq_true_eq]
    omega
  · rw [hchildren]
    exact (hlaid.ordered hordered).isChain

/-- **Spans nest and follow the source.** Whatever was read, and however: no node but the program can be
    empty, children lie inside of their node, and they follow one another, save in a closure, whose body has
    the place of the closure. -/
theorem parse_spans_nest (source file : String) (failFast : Bool) (isBuiltin : String → Bool) :
    let program := (parse source file failFast isBuiltin).program
    (∀ u ∈ program.outline.walk.tail, u.span.start < u.span.stop) ∧
      ∀ u ∈ program.outline.walk, u.Nests := by
  obtain ⟨s, htokens, -⟩ := tokenize_script source file
  obtain ⟨hspan, ⟨ts, t, after, hts, hlaid⟩, hstands⟩ :=
    parse_laid htokens failFast isBuiltin (w := .nothing) fun _ => .inl rfl
  intro program
  constructor
  · intro u hu
    obtain ⟨seg, hseg⟩ := hstands u hu
    exact hseg.nonempty
  · rw [Program.walk_eq]
    refine List.forall_mem_cons.mpr ⟨Program.nests hspan htokens hts hlaid, fun u hu => ?_⟩
    obtain ⟨seg, hseg⟩ := hstands u hu
    exact hseg.nests

/-! ## Braces -/

/-- Two spans are **apart** when one ends before the other begins. -/
def Span.Apart (span other : Span) : Prop := span.stop ≤ other.start ∨ other.stop ≤ span.start

namespace Outline

variable {u : Outline} {seg : List Token} {opener closer : Token}

/-- **A block or a closure stands between braces that match.** -/
theorem Stands.pair (h : u.Stands s .braces seg) (hnested : Nested s.tokens)
    (hkind : u.kind = .block ∨ u.kind = .closure) : ∃ opener closer, Paired s.tokens opener closer ∧
      u.span.start = opener.span.start ∧ u.span.stop = closer.span.stop := by
  obtain ⟨before, t, after, htokens⟩ := h.within
  obtain ⟨opener, inside, closer, rfl, hopener, hcloser, hinside⟩ := h.braced hkind
  rw [List.cons_append, List.append_assoc] at htokens
  -- the brace that matches the first one is the only candidate, so it is the last one
  obtain ⟨inside', closer', after', hrest, hcloser', hinside'⟩ := Nested.exists_paired (htokens ▸ hnested) hopener
  obtain ⟨rfl, rfl, rfl⟩ := Watch.follow_unique rfl hrest hcloser hcloser' hinside hinside'.braces
  obtain ⟨first, last, hfirst, hlast, hstart, hstop⟩ := h.fills
  rw [List.head?_cons, Option.some.injEq] at hfirst
  rw [← List.cons_append, List.getLast?_concat, Option.some.injEq] at hlast
  subst hfirst hlast
  exact ⟨opener, closer, ⟨before, inside, _, htokens, hopener, hcloser, hinside'⟩, hstart, hstop⟩

/-- A token before or after a stretch lies before or after what stands over the stretch. -/
theorem Stands.apart {before after : List Token} {t : Token} (h : u.Stands s w seg)
    (htokens : s.tokens = before ++ (seg ++ after)) (ht : t ∈ before ∨ t ∈ after) : u.span.Apart t.span := by
  obtain ⟨⟨first, hfirst, hstart⟩, last, hlast, hstop⟩ := h.fills.ends
  rcases ht with ht | ht
  · right
    rw [hstart]
    exact Script.stop_le_start htokens ht (List.mem_append_left _ hfirst)
  · left
    rw [hstop]
    rw [← List.append_assoc] at htokens
    exact Script.stop_le_start htokens (List.mem_append_right _ hlast) ht

/-- **What stands over tokens has both braces of a pair or neither.** -/
theorem Stands.together (h : u.Stands s .braces seg) (hpair : Paired s.tokens opener closer) :
    (u.span.contains opener.span = true ∧ u.span.contains closer.span = true) ∨
      (u.span.Apart opener.span ∧ u.span.Apart closer.span) := by
  obtain ⟨before, t, after, htokens⟩ := h.within
  obtain ⟨hordered, hle⟩ := h.ordered
  have hinside {b : Token} (hb : b ∈ seg) : u.span.contains b.span = true := by
    have hends := h.fills.contains hordered hle hb
    simp only [Span.contains, Bool.and_eq_true, decide_eq_true_eq]
    exact hends
  rw [htokens] at hpair
  rcases hpair.together h.nested with ⟨hopener, hcloser⟩ | ⟨hopener, hcloser⟩
  · exact .inl ⟨hinside hopener, hinside hcloser⟩
  · exact .inr ⟨h.apart htokens hopener, h.apart htokens hcloser⟩

end Outline

/-- **Recovery takes no pair of braces apart.** When the brackets of a script are nested, blocks and closures
    stand between braces that match, and every node of the tree, be it a broken statement, has both braces of
    a pair or neither. -/
theorem parse_keeps_braces (source file : String) (isBuiltin : String → Bool)
    (hnested : Nested (tokenize source file).tokens) :
    let tokens := (tokenize source file).tokens
    let program := (parse source file false isBuiltin).program
    (∀ u ∈ program.outline.walk, u.kind = .block ∨ u.kind = .closure →
      ∃ opener closer, Paired tokens opener closer ∧
        u.span.start = opener.span.start ∧ u.span.stop = closer.span.stop) ∧
    ∀ u ∈ program.outline.walk.tail, ∀ opener closer, Paired tokens opener closer →
      (u.span.contains opener.span = true ∧ u.span.contains closer.span = true) ∨
        (u.span.Apart opener.span ∧ u.span.Apart closer.span) := by
  obtain ⟨s, htokens, -⟩ := tokenize_script source file
  rw [htokens] at hnested
  obtain ⟨-, -, hstands⟩ :=
    parse_laid htokens false isBuiltin (w := .braces) fun _ => .inr ⟨rfl, hnested.braces⟩
  intro tokens program
  rw [show tokens = s.tokens from htokens, Program.walk_eq]
  refine ⟨List.forall_mem_cons.mpr ⟨nofun, fun u hu hkind => ?_⟩, fun u hu opener closer hpair => ?_⟩
  · obtain ⟨seg, hseg⟩ := hstands u hu
    exact hseg.pair hnested hkind
  · obtain ⟨seg, hseg⟩ := hstands u hu
    exact hseg.together hpair

/-- A broken binding in a block: its own braces stay with it, and those of the block around it. -/
theorem parse_keeps_braces_loop :
    let source := "loop \x7b let = [1, \x7b 2 \x7d] \x7d"
    let tokens := (tokenize source "a").tokens
    Nested tokens ∧
      ∀ u ∈ (parse source "a" false fun _ => false).program.outline.walk.tail, ∀ opener closer,
        Paired tokens opener closer →
          (u.span.contains opener.span = true ∧ u.span.contains closer.span = true) ∨
            (u.span.Apart opener.span ∧ u.span.Apart closer.span) := by
  have hnested : Nested (tokenize "loop \x7b let = [1, \x7b 2 \x7d] \x7d" "a").tokens := by decide +kernel
  exact ⟨hnested, (parse_keeps_braces _ _ (fun _ => false) hnested).2⟩

end ShellFront
