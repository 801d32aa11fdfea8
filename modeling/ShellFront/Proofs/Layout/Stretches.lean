import ShellFront.Proofs.Layout.Nesting
import ShellFront.Proofs.Parse.Coverage

/-!
# Where trees stand

Every node of a syntax tree stands over a stretch of tokens: it begins where the first of them does and ends
with the last one, and its children stand over parts of that stretch, one after the other. Blocks and closures
stand over a pair of braces and what is between them; the body of a closure shares all of its stretch.

How the spans of a tree lie to each other follows from this and from the order of the tokens.

## Contents
- `Laid`, outlines over parts of a stretch.
- `Outline.Stands`, `Outline.Seated`: a node, and all nodes of a tree, stand over tokens.
- `Outline.Nests`, `Outline.Stands.nests`: how the spans of a node and its children lie.
-/

namespace ShellFront

/-! ## Outlines over tokens -/

/-- Outlines **laid** over tokens: each fills a stretch of them, one after the other. -/
def Laid : List Token → List Outline → Prop
  | _, [] => True
  | ts, o :: os => ∃ gap seg rest, ts = gap ++ (seg ++ rest) ∧ Fills seg o.span ∧ Laid rest os

namespace Laid

variable {ts us : List Token} {os os' : List Outline} {o : Outline}

theorem nil : Laid ts [] := trivial

theorem single (h : Fills ts o.span) : Laid ts [o] := ⟨[], ts, [], by simp, h, trivial⟩

/-- More tokens may stand before. -/
theorem after (h : Laid ts os) (us : List Token) : Laid (us ++ ts) os := by
  cases os with
  | nil => exact nil
  | cons o os =>
      obtain ⟨gap, seg, rest, rfl, hseg, hrest⟩ := h
      exact ⟨us ++ gap, seg, rest, by rw [List.append_assoc], hseg, hrest⟩

/-- What is laid over tokens and over those after them is laid over all of them. -/
theorem append (h : Laid ts os) (h' : Laid us os') : Laid (ts ++ us) (os ++ os') := by
  induction os generalizing ts with
  | nil => exact h'.after ts
  | cons o os ih =>
      obtain ⟨gap, seg, rest, rfl, hseg, hrest⟩ := h
      exact ⟨gap, seg, rest ++ us, by simp only [List.append_assoc], hseg, ih hrest⟩

/-- Some of the outlines may be left out. -/
theorem sublist (h : Laid ts os) (hos : os'.Sublist os) : Laid ts os' := by
  induction hos generalizing ts with
  | slnil => exact nil
  | cons o _ ih =>
      obtain ⟨gap, seg, rest, rfl, -, hrest⟩ := h
      exact ((ih hrest).after seg).after gap
  | cons_cons o _ ih =>
      obtain ⟨gap, seg, rest, rfl, hseg, hrest⟩ := h
      exact ⟨gap, seg, rest, rfl, hseg, ih hrest⟩

/-- Each of the outlines fills some of the tokens. -/
theorem exists_fills (h : Laid ts os) (ho : o ∈ os) : ∃ seg, (∀ t ∈ seg, t ∈ ts) ∧ Fills seg o.span := by
  induction os generalizing ts with
  | nil => contradiction
  | cons o' os ih =>
      obtain ⟨gap, seg, rest, rfl, hseg, hrest⟩ := h
      rcases List.mem_cons.mp ho with rfl | ho
      · exact ⟨seg, fun t ht => by simp [ht], hseg⟩
      · obtain ⟨seg', hmem, hfills⟩ := ih hrest ho
        exact ⟨seg', fun t ht => by simp [hmem t ht], hfills⟩

/-- Outlines follow one another as the tokens below them do. -/
theorem ordered (h : Laid ts os) (hordered : ts.Pairwise fun t u => t.span.stop ≤ u.span.start) :
    os.Pairwise fun o o' => o.span.stop ≤ o'.span.start := by
  induction os generalizing ts with
  | nil => exact .nil
  | cons o os ih =>
      obtain ⟨gap, seg, rest, rfl, hseg, hrest⟩ := h
      obtain ⟨-, hordered, -⟩ := List.pairwise_append.mp hordered
      obtain ⟨-, hordered, hbefore⟩ := List.pairwise_append.mp hordered
      refine List.pairwise_cons.mpr ⟨fun o' ho' => ?_, ih hrest hordered⟩
      obtain ⟨seg', hmem, hseg'⟩ := hrest.exists_fills ho'
      obtain ⟨-, t, ht, hstop⟩ := hseg.ends
      obtain ⟨⟨u, hu, hstart⟩, -⟩ := hseg'.ends
      rw [hstop, hstart]
      exact hbefore t ht u (hmem u hu)

/-- Outlines lie inside what their tokens fill. -/
theorem inside {span : Span} (h : Laid ts os) (hts : Fills ts span)
    (hordered : ts.Pairwise fun t u => t.span.stop ≤ u.span.start)
    (hle : ∀ t ∈ ts, t.span.start < t.span.stop) (ho : o ∈ os) : span.contains o.span = true := by
  obtain ⟨seg, hmem, hseg⟩ := h.exists_fills ho
  obtain ⟨⟨t, ht, hstart⟩, u, hu, hstop⟩ := hseg.ends
  have hfirst := hts.contains hordered hle (hmem t ht)
  have hlast := hts.contains hordered hle (hmem u hu)
  simp only [Span.contains, Bool.and_eq_true, decide_eq_true_eq]
  omega

end Laid

/-! ## Nodes over tokens -/

namespace Outline

/-- A node **stands** over a stretch of tokens, among which brackets are nested as far as they count. -/
structure Stands (s : Script) (w : Watch) (u : Outline) (seg : List Token) : Prop where
  within : ∃ before t after, s.tokens = before ++ (seg ++ t :: after)
  fills : Fills seg u.span
  nested : w.follow [] seg = some []
  /-- Blocks and closures begin and end with braces that match. -/
  braced : u.kind = .block ∨ u.kind = .closure → ∃ opener inside closer,
    seg = opener :: (inside ++ [closer]) ∧ opener.kind = .symbol .openBrace ∧
      closer.kind = .symbol .closeBrace ∧ w.follow [] inside = some []
  children : u.kind ≠ .closure → Laid seg u.children
  /-- The body of a closure stands over all of it. -/
  closure : u.kind = .closure → ∃ params body, u.children = params ++ [body] ∧ body.kind = .block ∧
    body.span = u.span ∧ Laid seg params

/-- A tree is **seated** when every node of it stands over tokens. -/
def Seated (s : Script) (w : Watch) (t : Outline) : Prop := t.Everywhere fun u => ∃ seg, u.Stands s w seg

/-- A node **nests** its children: they lie inside it and follow one another. In a closure the last child, its
    body, has the place of the closure. -/
structure Nests (u : Outline) : Prop where
  inside : ∀ c ∈ u.children, u.span.contains c.span = true
  ordered : u.kind ≠ .closure → u.children.IsChain fun c d => c.span.stop ≤ d.span.start
  body : u.kind = .closure →
    ∃ params body, u.children = params ++ [body] ∧ body.kind = .block ∧ body.span = u.span

variable {s : Script} {w : Watch} {u : Outline} {seg : List Token}

theorem Stands.ordered (h : u.Stands s w seg) :
    seg.Pairwise (fun t t' => t.span.stop ≤ t'.span.start) ∧ ∀ t ∈ seg, t.span.start < t.span.stop :=
  let ⟨_, _, _, htokens⟩ := h.within
  Script.segment htokens

/-- What stands over tokens is not empty. -/
theorem Stands.nonempty (h : u.Stands s w seg) : u.span.start < u.span.stop := by
  obtain ⟨hordered, hle⟩ := h.ordered
  obtain ⟨⟨t, ht, hstart⟩, -⟩ := h.fills.ends
  have hlt := hle t ht
  have hstop := (h.fills.contains hordered hle ht).2
  omega

/-- **What stands over tokens nests.** -/
theorem Stands.nests (h : u.Stands s w seg) : u.Nests := by
  obtain ⟨hordered, hle⟩ := h.ordered
  refine ⟨fun c hc => ?_, fun hkind => ?_, fun hkind => ?_⟩
  · by_cases hkind : u.kind = .closure
    · obtain ⟨params, body, hchildren, -, hbody, hparams⟩ := h.closure hkind
      rw [hchildren] at hc
      rcases List.mem_append.mp hc with hc | hc
      · exact hparams.inside h.fills hordered hle hc
      · rw [List.mem_singleton.mp hc, hbody]
        simp [Span.contains]
    · exact (h.children hkind).inside h.fills hordered hle hc
  · exact ((h.children hkind).ordered hordered).isChain
  · obtain ⟨params, body, hchildren, hkind, hbody, -⟩ := h.closure hkind
    exact ⟨params, body, hchildren, hkind, hbody⟩

/-- Whatever is neither a block nor a closure stands over the tokens that its children are laid over. -/
theorem Seated.node {kind : NodeKind} {span : Span} {attributes : List (String × Attribute)}
    {children : List Outline} (hkind : kind ≠ .block ∧ kind ≠ .closure)
    (hwithin : ∃ before t after, s.tokens = before ++ (seg ++ t :: after)) (hfills : Fills seg span)
    (hnested : w.follow [] seg = some []) (hlaid : Laid seg children)
    (hchildren : ∀ c ∈ children, c.Seated s w) : (mk kind span attributes children).Seated s w := by
  refine everywhere_mk.mpr ⟨⟨seg, hwithin, hfills, hnested, ?_, fun _ => hlaid, ?_⟩, hchildren⟩
  · exact fun h => absurd h (not_or.mpr hkind)
  · exact fun h => absurd h hkind.2

end Outline

end ShellFront
