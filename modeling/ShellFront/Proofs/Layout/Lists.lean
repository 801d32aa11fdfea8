import ShellFront.Proofs.Layout.Parts
import ShellFront.Proofs.Layout.Skipping

/-!
# How lists of statements are laid out

Statements are laid over the tokens of their list, one after the other, whether they could be read or not:
what stands in the place of a broken statement fills the tokens that recovery skipped. A block is formed of
its braces and the statements between them.

## Contents
- `Trail.recovered`: a broken statement on the trail of a list.
- `statementTurn_does`, `statementList_lays`.
- `Trail.braced`, `block_forms`.
-/

namespace ShellFront

open Outlined Parse

namespace Cursor

variable {s : Script} {w : Watch} {c₁ c start now : Cursor} {firm : Bool} {held : List Outline}
  {span : Span}

/-- Before something closes that was opened before a list, nothing of the list is open. -/
theorem Trail.kind_ne_closeBrace (h : Trail s .braces c₁ firm [] held c)
    (hs : Watch.braces.follow [] s.tokens = some []) (hbefore : c₁.before = []) :
    c.kind ≠ .symbol .closeBrace := by
  obtain ⟨ts, hread, hfollow, -⟩ := h.read
  have htokens : s.tokens = ts ++ c.rest := by
    rw [← h.tokens, hread.tokens_eq, Cursor.tokens, hbefore, hread.rest]
    rfl
  rw [htokens, Watch.follow_append_of hfollow] at hs
  intro hkind
  have hnone : Watch.braces.follow [] c.rest = none := Watch.follow_closeBrace rfl hkind
  rw [List.filter_nil, hnone] at hs
  contradiction

/-- **A broken statement** stands over what recovery skipped. -/
theorem Trail.recovered (h : Trail s w c₁ firm [] held start) {message text : String}
    (hskips : start.Skips span c)
    (hnested : ∀ us, start.Reads us c → w.follow [] us = some []) :
    Trail s w c₁ false [] (held ++ shown (Node.broken span message text)) c := by
  obtain ⟨seg, newlines, hread, hfills, hnewlines, -⟩ := hskips.split
  have hall := hnested _ hread
  have hinert {stack : List Symbol} : w.follow stack newlines = some stack :=
    Watch.follow_inert fun t ht => by rw [hnewlines t ht]; rfl
  have hseg : w.follow [] seg = some [] := by
    obtain ⟨stack, hseg, hrest⟩ := Watch.exists_follow hall
    rw [hinert] at hrest
    rw [hseg, hrest]
  have hlaid : Laid seg [(Node.broken span message text).outline] := .single hfills
  refine h.push hread hall (hlaid.append .nil) (List.forall_mem_singleton.mpr ?_) nofun
  obtain ⟨before, t, after, hwithin⟩ := hread.within (hread.tokens_eq.trans h.tokens)
  rw [List.append_assoc] at hwithin
  -- a token comes after the segment, be it one of the line breaks
  obtain ⟨t', after', hafter⟩ : ∃ t' after', newlines ++ t :: after = t' :: after' := by
    cases newlines with
    | nil => exact ⟨t, after, rfl⟩
    | cons n ns => exact ⟨n, _, rfl⟩
  exact .node (by decide) ⟨before, t', after', hafter ▸ hwithin⟩ hfills hseg .nil (by simp)

end Cursor

namespace Grammar

variable {s : Script} {w : Watch} {r : Rules} {inBlock firm : Bool} {c₁ c start now : Cursor}
  {statements kept : Array Node} {e : SyntaxError}

/-! ## Lists of statements -/

theorem Does.attempt {α : Type} {m : Parse α} {R : α → Cursor → Prop} (hm : Does s w c c m R) :
    Does s w c₁ c (attempt m) fun x c' => match x with
      | .ok a => R a c'
      | .error _ => c.Strays w c' := by
  intro ctx st hallows hst
  have h := hm ctx st hallows hst
  rw [Parse.attempt]
  generalize m ctx st = x at h
  cases x with
  | ok => exact h
  | error => exact h

/-- What holds after a turn of a list that began at `c₁`. A script that is read strictly may end with what it
    has, wherever it gave up. -/
def Listing (s : Script) (w : Watch) (inBlock : Bool) (c₁ c : Cursor) :
    Turn (Array Node) (List Node) → Prop
  | .again next => c₁.Trail s w false [] (shown next) c
  | .done list => ∃ last, c₁.Trail s w false [] (shown list) last ∧ (inBlock = true → last = c)

theorem recover_does : Does s w c₁ now (recover start e) fun node c => ∃ message text,
    c = Cursor.resynchronize start now ∧ node = .broken
      (start.current.span.cover ((c.coveredSince start).getLast?.getD start.current).span) message text :=
  .here (.move (.note (.pure ⟨_, _, rfl, rfl⟩)))

theorem afterError_does (htrail : c₁.Trail s w false [] (shown kept) start)
    (hnow : start.Strays w now) (hkind : start.kind.isTerminator = false)
    (hbrace : inBlock = true → start.kind ≠ .symbol .closeBrace)
    (hplace : inBlock = true ∨ c₁.before = []) :
    Does s w c₁ now (afterError inBlock kept start e) fun t c => Listing s w inBlock c₁ c t := by
  refine .mode fun mode hallows => .ite (fun hrecovering => ?_) fun _ => .ite (fun _ => ?_) fun hscript => ?_
  · refine .follow recover_does ?_
    rintro _ _ ⟨message, text, rfl, rfl⟩
    have hreach : start.Reaches now := let ⟨_, _, hread, _⟩ := hnow; hread.reaches
    have hskips := Cursor.resynchronize_skips htrail.tokens hkind hreach
    refine .pure ?_
    rw [Listing, shown_push]
    refine htrail.recovered hskips fun us hread => ?_
    -- Recovery is watched for no brackets at all, or for braces that are nested.
    rcases hallows hrecovering with rfl | ⟨rfl, hs⟩
    · exact Watch.follow_nothing us
    · refine Cursor.resynchronize_nested hs htrail.tokens ?_ hnow hread
      exact hplace.elim hbrace (htrail.kind_ne_closeBrace hs)
  · exact .throw (htrail.strays.trans hnow)
  · exact .pure ⟨start, htrail, fun h => absurd h hscript⟩

theorem afterStatement_does (htrail : c₁.Trail s w firm [] (shown kept) c)
    (hplace : inBlock = true ∨ c₁.before = []) :
    Does s w c₁ c (afterStatement inBlock kept) fun t c => Listing s w inBlock c₁ c t := by
  have htrail : c₁.Trail s w false [] (shown kept) c := htrail.weaken nofun
  refine .here (.ite (fun _ => .pure htrail) fun hnext => ?_)
  have hnext : (c.kind.isSeparator || endsList inBlock c.kind) = false := Bool.eq_false_iff.mpr hnext
  refine .refuse fun e => afterError_does htrail (.refl c) (isTerminator_false hnext) (fun hblock => ?_) hplace
  rintro hkind
  rw [hkind, hblock] at hnext
  contradiction

/-- **A turn lays one more statement, if it does not end the list.** -/
theorem statementTurn_does (hr : r.Neat s w) (htrail : c₁.Trail s w false [] (shown statements) c)
    (hplace : inBlock = true ∨ c₁.before = []) :
    Does s w c₁ c (statementTurn r inBlock statements) fun t c => Listing s w inBlock c₁ c t := by
  have hskip := htrail.skip (p := TokenKind.isSeparator) fun _ => inert_of_separator
  have hseparator := Cursor.kind_skipWhile (p := TokenKind.isSeparator) rfl htrail.tokens
  refine .move (.here ?_)
  generalize c.skipWhile TokenKind.isSeparator = start at hskip hseparator
  refine .ite (fun _ => .pure ⟨start, hskip, fun _ => rfl⟩) fun hends => ?_
  have hends : endsList inBlock start.kind = false := Bool.eq_false_iff.mpr hends
  refine .follow (Does.attempt (hr.statement start hskip.tokens hseparator)) fun x now h => ?_
  match x with
  | .error e =>
      refine afterError_does hskip h (isTerminator_false (Bool.or_eq_false_iff.mpr ⟨hseparator, hends⟩)) ?_ hplace
      rintro rfl hkind
      rw [hkind] at hends
      contradiction
  | .ok node =>
      have hnode := hskip.node h
      rw [← shown_push] at hnode
      exact afterStatement_does hnode hplace

theorem statementList_does (hr : r.Neat s w) (hc : c.tokens = s.tokens)
    (hplace : inBlock = true ∨ c.before = []) :
    Does s w c c (statementList r inBlock) fun list c' =>
      ∃ last, c.Trail s w false [] (shown list) last ∧ (inBlock = true → last = c') := by
  rw [statementList]
  refine .loop r (I := fun statements c' => c.Trail s w false [] (shown statements) c')
    (fun _ _ h => h.strays) (fun statements c' htrail => ?_) ((Cursor.Trail.nil hc).weaken (by decide))
  refine .imp (statementTurn_does hr htrail hplace) fun t c'' h => ?_
  cases t <;> exact h

theorem statementList_lays (hr : r.Neat s w) : Lays s w false (statementList r true) := by
  refine fun c hc => .imp (statementList_does hr hc (.inl rfl)) fun list c' h => ?_
  obtain ⟨last, htrail, hlast⟩ := h
  rwa [hlast rfl] at htrail

end Grammar

/-! ## Braces -/

namespace Cursor

variable {s : Script} {w : Watch} {c c₂ : Cursor} {firm : Bool} {held : List Outline} {u : Outline}

/-- **Braces around a trail**: what stands over them and all that is between them. -/
theorem Trail.braced (hc : c.tokens = s.tokens) (hopen : c.kind = .symbol .openBrace)
    (htrail : c.advance.Trail s w firm [] held c₂) (hclose : c₂.kind = .symbol .closeBrace)
    (hspan : u.span = c.current.span.cover c₂.advance.previous.span)
    (hchildren : ∀ seg, Laid seg held → (u.kind ≠ .closure → Laid seg u.children) ∧
      (u.kind = .closure → ∃ params body, u.children = params ++ [body] ∧ body.kind = .block ∧
        body.span = u.span ∧ Laid seg params))
    (hseated : ∀ o ∈ u.children, o.Seated s w) : c.Formed s w [u] c₂.advance := by
  have hwhole := (((Trail.nil (w := w) hc).opener hopen rfl).append htrail).closer hclose rfl
  obtain ⟨inside, hread, hfollow, -⟩ := htrail.read
  obtain ⟨seg, hseg, hnested, hlaid, hlast⟩ := hwhole.read
  have hfirst := advance_reads hc (by rw [hopen]; nofun)
  have hfinal := advance_reads htrail.tokens (by rw [hclose]; nofun)
  have hopens := (advance_spans hc (hopen ▸ trivial : c.kind.Begins)).toOpens
  have hreach := (hread.trans hfinal).reaches
  have hspans := (hopens.reach (s := s) (hfirst.tokens_eq.trans hc) hreach).spans hwhole.tokens
  rw [← hspan] at hspans
  -- the span of the node covers just the tokens that were read, from brace to brace
  obtain ⟨seg', -, hseg', hfills⟩ := hspans.fills
  obtain rfl := hseg.unique hseg'
  have hparts := hseg.unique ((hfirst.trans hread).trans hfinal)
  obtain ⟨hnode, hclosure⟩ := hchildren seg hlaid
  have hstands : u.Stands s w seg := ⟨hseg.within hwhole.tokens, hfills, hnested,
    fun _ => ⟨c.current, inside, c₂.current, by rw [hparts]; simp, hopen, hclose, hfollow⟩, hnode, hclosure⟩
  have hu : u.Seated s w := by
    obtain ⟨kind, span, attributes, children⟩ := u
    exact Outline.everywhere_mk.mpr ⟨⟨seg, hstands⟩, hseated⟩
  exact ⟨⟨hwhole.tokens, ⟨seg, hseg, hnested, .single hfills, hlast⟩, List.forall_mem_singleton.mpr hu⟩,
    u, rfl, hspans⟩

end Cursor

namespace Grammar

variable {s : Script} {w : Watch} {r : Rules}

/-- **A block is formed of its braces and the statements between them.** -/
theorem block_forms (hr : r.Neat s w) : Forms s w (fun _ => True) (block r) := by
  refine fun c hc _ => .expect (.refl c) fun hopen => ?_
  have htrail := (Cursor.Trail.nil (w := w) hc).opener hopen rfl
  refine .bind htrail.strays (.within (fun _ h => h) (statementList_lays hr c.advance htrail.tokens)) ?_
  intro list c₂ hlist
  refine .expect (htrail.append hlist).strays fun hclose => .spanFrom (.pure ?_)
  rw [shown_block, Block.outline, Node.outlines_eq]
  refine hlist.braced hc hopen hclose rfl (fun seg hlaid => ⟨fun _ => hlaid, fun hkind => ?_⟩) hlist.seated
  exact absurd hkind (show NodeKind.block ≠ .closure by decide)

end Grammar

end ShellFront
