import ShellFront.Proofs.Layout.Lists
import ShellFront.Proofs.Twins.Parts

/-!
# How blocks tally

A block of a script and of its twin hold the same statements. Errors are recovered from only where nothing
follows the script; then both readers skip the same tokens, and what they say about them is alike. Before a cut,
an error ends the reading of a block.

## Contents
- `resynchronize_image`, `coveredSince_like`: what recovery skips.
- `recover_tallies`, `afterError_tallies`.
- `statementTurn_continues`, `statementList_keeps`, `block_mirrors`.
-/

namespace ShellFront

open Outlined Parse
open scoped Layout

namespace Seam

variable {b : Seam} {c c' start now : Cursor} {ts ts' : List Token}

/-! ## Where recovery goes on -/

/-- Before the end of a script that nothing follows, any place will do. -/
theorem Meets.reach (h : b.Meets c) (hcut : b.cut = false) (hreach : c.Reaches c') : b.Meets c' := by
  obtain ⟨ts, hread⟩ := hreach
  refine ⟨hread.tokens_eq.trans h.tokens, fun hbefore hnil => ?_, fun hcut' => by rw [hcut] at hcut'; contradiction⟩
  rw [hread.before, List.append_eq_nil_iff, List.reverse_eq_nil_iff] at hnil
  obtain ⟨rfl, hnil⟩ := hnil
  rw [hread.eq_of_nil]
  exact h.start hbefore hnil

theorem reaches_of_le (hc : c.tokens = b.script.tokens) (hc' : c'.tokens = b.script.tokens)
    (hle : c'.ahead.length ≤ c.ahead.length) : c.Reaches c' := by
  have hlength := length_before hc hc' hle
  have htokens := hc.trans hc'.symm
  rw [Cursor.tokens, Cursor.tokens] at htokens
  rcases List.append_eq_append_iff.mp htokens with ⟨ts, hbefore, hrest⟩ | ⟨ts, hbefore, hrest⟩
  · refine ⟨ts, ?_, hrest⟩
    have h := congrArg List.reverse hbefore
    rwa [List.reverse_reverse, List.reverse_append, List.reverse_reverse] at h
  · have h := congrArg List.length hbefore
    rw [List.length_append, List.length_reverse, List.length_reverse] at h
    obtain rfl : ts = [] := List.length_eq_zero_iff.mp (by omega)
    rw [List.append_nil] at hbefore
    rw [List.nil_append] at hrest
    exact ⟨[], List.reverse_injective hbefore.symm ▸ rfl, hrest.symm⟩

theorem index_image (hc : c.tokens = b.script.tokens) : (b.image c).index = c.index + b.before.length := by
  have hlength := length_body hc
  rw [Cursor.index, image_before hc, List.length_append, List.length_reverse, List.length_take_of_le]
  rw [twins, List.length_append, length_twin, List.length_cons]
  omega

theorem resynchronize_length_le (start now : Cursor) :
    (Cursor.resynchronize start now).ahead.length ≤ now.ahead.length := by
  rw [Cursor.resynchronize]
  dsimp only
  split
  · exact Nat.le_refl _
  · obtain ⟨ts, hread, -⟩ := Cursor.skipStatement_reads (now.since start).reverse.isEmpty
      (openedBy (now.since start).reverse).1 now.before now.current now.ahead
    have hlength := congrArg List.length hread.rest
    simp only [Cursor.rest, List.length_append, List.length_cons] at hlength
    omega

/-- Both have read the same since some place. -/
theorem since_like (hstart : start.tokens = b.script.tokens) (hnow : now.tokens = b.script.tokens) :
    (now.since start).map (Token.view b.left) =
      ((b.image now).since (b.image start)).map (Token.view b.right) := by
  have hlength := length_body hnow
  rw [Cursor.since, Cursor.since, index_image hstart, index_image hnow, image_before hnow,
    List.take_append_of_le_length, List.map_take, List.map_take, alike_before hnow]
  · congr 1
    omega
  · rw [List.length_reverse, List.length_take_of_le]
    · omega
    · rw [twins, List.length_append, length_twin, List.length_cons]
      omega

theorem openedBy_congr (h : ts.map Token.kind = ts'.map Token.kind) : openedBy ts = openedBy ts' := by
  have hkinds (ts : List Token) : openedBy ts = (ts.map Token.kind).foldl
      (fun (groups, _) kind =>
        let after := Groups.repair groups kind
        (after, kind == .newline && !groups.isEmpty && after.isEmpty)) ([], false) := by
    rw [openedBy, List.foldl_map]
  rw [hkinds, hkinds, h]

theorem skipStatement_image (hcut : b.cut = false) (atStart : Bool) (groups : Groups)
    (hc : c.tokens = b.script.tokens) :
    Cursor.skipStatement atStart groups (b.image c).before (b.image c).current (b.image c).ahead =
      b.image (Cursor.skipStatement atStart groups c.before c.current c.ahead) := by
  obtain ⟨before, current, ahead⟩ := c
  fun_induction Cursor.skipStatement atStart groups before current ahead with
  | case1 atStart groups before current =>
      have hin : b.Inside ⟨before, current, []⟩ := fun hcut' => by rw [hcut] at hcut'; contradiction
      -- at the end of the script nothing is skipped, and nothing stands behind the image either
      have himage := image_skipWhile (p := fun _ => true) hc (by rwa [Cursor.skipWhile])
      obtain ⟨t, ts, hdrop, heq⟩ := image_eq hc
      have hahead := image_ahead hc
      rw [twins, (b.whole hcut).2, List.drop_eq_nil_of_le (by
        have hlength := length_body hc
        rw [List.length_append, length_twin, List.length_singleton, hlength]
        exact Nat.le_refl _)] at hahead
      rw [hahead, Cursor.skipStatement]
      rw [heq] at hahead ⊢
      obtain rfl : ts = [] := hahead
      rfl
  | case2 atStart groups before current t ts hends =>
      have hkind := Inside.kind (b := b) (c := ⟨before, current, t :: ts⟩)
        (fun hcut' => by rw [hcut] at hcut'; contradiction) hc
      obtain ⟨t', u, us, himage, -⟩ := image_step hc
      rw [himage, Cursor.kind] at hkind
      rw [himage, Cursor.skipStatement, if_pos (by rw [hkind]; exact hends)]
  | case3 atStart groups before current t ts hends ih =>
      have hread : Cursor.Reads ⟨before, current, t :: ts⟩ [current] ⟨current :: before, t, ts⟩ := ⟨rfl, rfl⟩
      have hkind := Inside.kind (b := b) (c := ⟨before, current, t :: ts⟩)
        (fun hcut' => by rw [hcut] at hcut'; contradiction) hc
      obtain ⟨t', u, us, himage, himage'⟩ := image_step hc
      have ih := ih (hread.tokens_eq.trans hc)
      rw [himage'] at ih
      rw [himage, Cursor.kind] at hkind
      rw [himage, ← ih, Cursor.skipStatement, if_neg (by rw [hkind]; exact hends), hkind]
      rfl

/-- **Recovery goes on at the same token.** -/
theorem resynchronize_image (hcut : b.cut = false) (hstart : start.tokens = b.script.tokens)
    (hnow : now.tokens = b.script.tokens) :
    Cursor.resynchronize (b.image start) (b.image now) = b.image (Cursor.resynchronize start now) := by
  have hsince := since_like hstart hnow
  have hkinds := kinds_like hsince
  have hopened : openedBy ((b.image now).since (b.image start)).reverse = openedBy (now.since start).reverse :=
    openedBy_congr (by rw [List.map_reverse, List.map_reverse, hkinds])
  have hempty : ((b.image now).since (b.image start)).reverse.isEmpty = (now.since start).reverse.isEmpty := by
    have hlength := congrArg List.length hkinds
    rw [List.length_map, List.length_map] at hlength
    rw [Bool.eq_iff_iff, List.isEmpty_iff_length_eq_zero, List.isEmpty_iff_length_eq_zero, List.length_reverse,
      List.length_reverse, hlength]
  rw [Cursor.resynchronize, Cursor.resynchronize, hopened, hempty]
  dsimp only
  split
  · rfl
  · exact skipStatement_image hcut _ _ hnow

theorem trimNewlines_map (h : ts.map (Token.view b.left) = ts'.map (Token.view b.right)) :
    (Cursor.trimNewlines ts).map (Token.view b.left) = (Cursor.trimNewlines ts').map (Token.view b.right) := by
  fun_induction Cursor.trimNewlines ts generalizing ts' with
  | case1 t u ts hkind ih =>
      obtain ⟨t', ts', rfl, ht, hts⟩ := List.map_eq_cons_iff.mp h.symm
      obtain ⟨u', ts', rfl, -, -⟩ := List.map_eq_cons_iff.mp hts
      have hlike : b.Like t t' := ht.symm
      rw [Cursor.trimNewlines, if_pos (by rw [hlike.kind]; exact hkind)]
      exact ih hts.symm
  | case2 t u ts hkind =>
      obtain ⟨t', ts', rfl, ht, hts⟩ := List.map_eq_cons_iff.mp h.symm
      obtain ⟨u', ts', rfl, -, -⟩ := List.map_eq_cons_iff.mp hts
      have hlike : b.Like t t' := ht.symm
      rw [Cursor.trimNewlines, if_neg (by rw [hlike.kind]; exact hkind)]
      exact h
  | case3 ts hshort =>
      rw [Cursor.trimNewlines]
      · exact h
      · rintro t' u' ts' rfl
        obtain ⟨t, us, rfl, -, hus⟩ := List.map_eq_cons_iff.mp h
        obtain ⟨u, us, rfl, -, -⟩ := List.map_eq_cons_iff.mp hus
        exact hshort t u us rfl

/-- What was skipped is alike. -/
theorem coveredSince_like (hstart : b.Meets start) (hin : b.Inside start) (hc : c.tokens = b.script.tokens) :
    (c.coveredSince start).map (Token.view b.left) =
      ((b.image c).coveredSince (b.image start)).map (Token.view b.right) := by
  have htrim := trimNewlines_map (since_like hstart.tokens hc)
  have hreverse := congrArg List.reverse htrim
  rw [← List.map_reverse, ← List.map_reverse] at hreverse
  rw [Cursor.coveredSince, Cursor.coveredSince]
  generalize (Cursor.trimNewlines (c.since start)).reverse = xs at hreverse
  generalize (Cursor.trimNewlines ((b.image c).since (b.image start))).reverse = xs' at hreverse
  cases xs with
  | nil =>
      obtain rfl := List.map_eq_nil_iff.mp hreverse.symm
      exact congrArg (fun t => [t]) (hin.current hstart.tokens)
  | cons x xs =>
      obtain ⟨x', xs', rfl, -, -⟩ := List.map_eq_cons_iff.mp hreverse.symm
      exact hreverse

theorem getLast?_like (h : ts.map (Token.view b.left) = ts'.map (Token.view b.right)) {t t' : Token}
    (ht : b.Like t t') : b.Like (ts.getLast?.getD t) (ts'.getLast?.getD t') := by
  have h := congrArg List.getLast? h
  rw [List.getLast?_map, List.getLast?_map] at h
  cases hts : ts.getLast? with
  | none =>
      rw [hts, Option.map_none] at h
      rw [Option.map_eq_none_iff.mp h.symm]
      exact ht
  | some u =>
      rw [hts, Option.map_some] at h
      obtain ⟨u', hu', hu⟩ := Option.map_eq_some_iff.mp h.symm
      rw [hu']
      exact hu.symm

end Seam

namespace Grammar

variable {b : Seam} {r r' : Rules} {c start : Cursor} {e e' : SyntaxError} {inBlock : Bool}
  {statements statements' : Array Node} {n : Nat}

/-! ## After an error -/

/-- **What recovery leaves behind is alike.** -/
theorem recover_tallies (hcut : b.cut = false) (hstart : b.Meets start) (hend : start.kind ≠ .endOfInput)
    (hc : b.Meets c) (hle : c.ahead.length ≤ start.ahead.length) (he : b.Like e e') :
    Tallies b c (recover start e) (recover (b.image start) e') (fun _ => False)
      fun _ c' => c'.ahead.length < start.ahead.length := by
  have hreach := Seam.reaches_of_le hstart.tokens hc.tokens hle
  obtain ⟨ts, hne, hread, -⟩ := Cursor.resynchronize_reads hstart.tokens hend hreach
  have hresumed := hstart.reach hcut hread.reaches
  have hin := Seam.inside_of_kind hstart.tokens hend
  have hcovered := Seam.coveredSince_like hstart hin hresumed.tokens
  have hfirst := hin.current hstart.tokens
  refine .here ?_
  rw [Seam.resynchronize_image hcut hstart.tokens hc.tokens]
  intro mode st st' hallows hst hst' hreport
  refine .agree ?_ hresumed (hst ▸ Seam.resynchronize_length_le start c) rfl hreport (hread.length_lt hne)
  have hspan := hfirst.place.covers (Seam.getLast?_like hcovered hfirst).place
  have htext := b.text hcovered
  have hmessage := he.message
  simp_all [Seam.Like, Viewable.view]

theorem afterError_tallies (hstart : b.Meets start)
    (hend : start.kind ≠ .endOfInput) (hc : b.Meets c) (hle : c.ahead.length ≤ start.ahead.length)
    (hn : start.ahead.length ≤ n) (he : b.Like e e') (hshallow : e.problem.isShallow = true)
    (hstatements : b.Like statements statements') :
    Tallies b c (afterError inBlock statements start e) (afterError inBlock statements' (b.image start) e')
      (Turn.Loose False fun _ => True) (Turn.Steps n) := by
  refine .mode fun mode hallows => .ite (fun hrecovering => ?_) fun _ => .ite (fun _ => .throw hc he hshallow)
    fun hscript => ?_
  · have hcut : b.cut = false := Bool.eq_false_iff.mpr fun hcut => by
      rw [hallows hcut] at hrecovering
      contradiction
    refine .bind (recover_tallies hcut hstart hend hc hle he) fun node node' c₁ hnode hc₁ _ hlt => ?_
    exact .pure hc₁ (congrArg Turn.again (like_push hstatements hnode)) (Nat.lt_of_lt_of_le hlt hn)
  · exact .pure hc (congrArg Turn.done (like_toList hstatements)) trivial

theorem afterStatement_tallies (hc : b.Meets c)
    (hlt : c.ahead.length < n) (hstatements : b.Like statements statements') :
    Tallies b c (afterStatement inBlock statements) (afterStatement inBlock statements')
      (Turn.Loose False fun _ => True) (Turn.Steps n) := by
  refine .here ?_
  rw [hc.agrees (p := fun kind => kind.isSeparator || endsList inBlock kind) rfl]
  refine .ite (fun _ => .pure hc (congrArg Turn.again hstatements) hlt) fun hnext => ?_
  have hend : c.kind ≠ .endOfInput := fun h => hnext (by rw [h]; rfl)
  refine .refuse hc (Seam.inside_of_kind hc.tokens hend) fun e e' he hproblem => ?_
  exact afterError_tallies hc hend hc (Nat.le_refl _) (Nat.le_of_lt hlt) he (by rw [hproblem]; rfl) hstatements

/-! ## Lists of statements -/

/-- What a turn over statements does after the separators before a statement. -/
def statementAt (r : Rules) (inBlock : Bool) (statements : Array Node) :
    Parse (Turn (Array Node) (List Node)) := do
  let start ← here
  if endsList inBlock start.kind then return .done statements.toList
  else
    match ← attempt r.statement with
    | .error e => afterError inBlock statements start e
    | .ok node => afterStatement inBlock (statements.push node)

theorem statementTurn_eq (r : Rules) (inBlock : Bool) (statements : Array Node) :
    statementTurn r inBlock statements = skipSeparators >>= fun _ => statementAt r inBlock statements := rfl

theorem statementAt_tallies (hr : r.Twins b r') (hblock : b.cut = true → inBlock = true)
    (hstatements : b.Like statements statements') (hc : b.Meets c) (hin : b.Inside c)
    (hseparator : c.kind.isSeparator = false) (hfuel : c.ahead.length < r.fuel - 1) (hle : c.ahead.length ≤ n) :
    Tallies b c (statementAt r inBlock statements) (statementAt r' inBlock statements')
      (Turn.Loose False fun _ => True) (Turn.Steps n) := by
  refine .here ?_
  rw [hin.kind hc.tokens]
  refine .ite (fun _ => .pure hc (congrArg Turn.done (like_toList hstatements)) trivial) fun hends => ?_
  have hend : c.kind ≠ .endOfInput := fun h => hends (by rw [h]; rfl)
  refine .attempt (hr.statement c hc hfuel hseparator) ?_ ?_ ?_
  · intro node node' c₁ hnode hc₁ _ hlt
    exact afterStatement_tallies hc₁ (by omega) (like_push hstatements hnode)
  · intro e e' c₁ he hshallow hc₁ hle₁
    exact afterError_tallies hc hend hc₁ hle₁ hle he hshallow hstatements
  · -- before a cut, nothing is recovered, and a block gives up as well
    intro mode e st hallows hspent
    refine ⟨e, st, ?_, hspent⟩
    rw [hblock hspent.cut]
    simp only [afterError, bind_run, Parse.mode, hallows hspent.cut, Bool.false_eq_true, if_false, if_true]
    rfl

/-- **A turn over the statements of a block.** -/
theorem statementTurn_continues (hr : r.Twins b r') (hblock : b.cut = true → inBlock = true)
    (hstatements : b.Like statements statements') : Continues b r n false
      (statementTurn r inBlock statements) (statementTurn r' inBlock statements')
      (Turn.Loose False fun _ => True) (Turn.Steps n) := by
  intro c hc
  rw [statementTurn_eq, statementTurn_eq]
  refine .loosely (skip_tallies hc.meets) (fun _ _ => ?_) ?_
  · refine .here fun c hlost => .ite (fun _ => .pure trivial) fun h => ?_
    rw [hlost.kind] at h
    exact absurd rfl h
  · rintro - - c₁ - hc₁ hle ⟨rfl, hin⟩
    have hpast := hc.further hc₁ hle
    have hfuel := hpast.fuel
    have hseparator := Cursor.kind_skipWhile (p := TokenKind.isSeparator) rfl hc.meets.tokens
    exact statementAt_tallies hr hblock hstatements hc₁ hin hseparator (by omega) hpast.le

theorem statementList_keeps (hr : r.Twins b r') (hblock : b.cut = true → inBlock = true) :
    Keeps b r (statementList r inBlock) (statementList r' inBlock) fun _ => True := by
  rw [statementList, statementList]
  exact .loop (A := False) hr.fuel like_empty (fun h => h.elim) fun n _ _ hstatements =>
    statementTurn_continues hr hblock hstatements

/-- **Blocks tally.** -/
theorem block_mirrors (hr : r.Twins b r') : Mirrors b r.fuel (fun _ => True) (block r) (block r') := by
  refine .of_forms (block_forms (hr.neat _)) fun c hc hin _ => .expect hc rfl rfl fun _ t' ht => ?_
  refine .loosely (.within (fun _ h => h) (statementList_keeps hr fun _ => rfl)) (fun _ _ => .mark rfl) ?_
  refine fun list list' hlist => .mark rfl rfl fun _ _ _ => .finish ht.place fun span span' hspan => ?_
  simp_all [Seam.Like, Viewable.view]

end Grammar

end ShellFront
