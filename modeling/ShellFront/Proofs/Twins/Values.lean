import ShellFront.Proofs.Layout.Expressions
import ShellFront.Proofs.Twins.Blocks

/-!
# How values tally

Each production of values that need no lookahead, read in a script and in its twin: literals, what stands between
brackets, records and closures. The parts are gone through one after the other. Where line breaks are skipped, the
reader of the script alone may come to a cut, and then whatever has to follow does not.

## Contents
- Literals and ranges.
- `listLiteral_mirrors`, `parenthesised_mirrors` and the other brackets.
- Records, closures and lambdas.
-/

namespace ShellFront.Grammar

open Outlined Parse
open scoped Layout

variable {b : Seam} {r r' : Rules} (hr : r.Twins b r') {c : Cursor} {n : Nat} {read : Bool}

/-! ## Literals and ranges -/

/-- The end of a range is one token. -/
theorem rangeEnd_mirrors (dots : Symbol) : Mirrors b r.fuel (fun _ => True) (rangeEnd dots) (rangeEnd dots) := by
  refine .of_forms (rangeEnd_forms dots) fun c hc hin _ => .peek hc.meets hin fun t' ht => ?_
  rw [ht.kind, ht.payload]
  split
  · next h =>
      refine .opens hc (by rw [Cursor.kind, h]; rfl) fun _ _ c₁ hc₁ => ?_
      refine .bind (integerLiteral_tallies hc₁.meets ht) fun value value' c₂ hvalue hc₂ _ _ => .pure hc₂ ?_ trivial
      simp_all [Seam.Like, Viewable.view]
  · next h =>
      refine .opens hc (by rw [Cursor.kind, h]; rfl) fun _ _ => .give ?_
      simp_all [Seam.Like, Viewable.view]
  · exact .fail hc.meets rfl

/-- Dots after a value make a range of it, in both readings or in none. -/
theorem rangeFrom_continues {first first' : Node} (hfirst : b.Like first first') :
    Continues b r n read (rangeFrom first) (rangeFrom first') (fun _ => False) fun _ _ => True := by
  refine fun c hc => .glance hc.meets (fun t' ht => ?_) fun t' ht ht' => ?_
  · rw [ht.kind]
    dsimp only
    refine .ite (fun h => ?_) fun _ => .pure hc.meets hfirst trivial
    have hmark : c.kind.isMark = true := by
      rcases (Bool.or_eq_true _ _).mp h with h | h <;> (rw [Cursor.kind, eq_of_beq h]; rfl)
    refine .next hc hmark fun _ _ => .node (rangeEnd_mirrors _).inner fun last last' hlast => .give ?_
    have hspan := hfirst.node.covers hlast.node
    simp_all [Seam.Like, Viewable.view]
  · rw [ht, ht']
    exact .pure hc.meets hfirst trivial

/-! ## Brackets -/

include hr in
/-- A list between its brackets. -/
theorem listLiteral_mirrors : Mirrors b r.fuel (fun _ => True) (listLiteral r) (listLiteral r') := by
  refine .of_forms (listLiteral_forms (hr.neat _)) fun c hc hin _ => .peek hc.meets hin fun t' ht => ?_
  refine .node hc trivial (bracketed_mirrors hr) fun elements elements' helements => ?_
  exact .finish ht.place fun span span' hspan => by simp_all [Seam.Like, Viewable.view]

include hr in
/-- A set: a keyword and a list. -/
theorem setLiteral_mirrors :
    Mirrors b r.fuel (fun kind => kind.isSturdy = true) (setLiteral r) (setLiteral r') := by
  refine .of_forms (setLiteral_forms (hr.neat _)) fun c hc hin hkind => ?_
  refine .opens hc (isMark_of_sturdy hkind) fun t' ht => ?_
  refine .node (bracketed_mirrors hr).inner fun elements elements' helements => ?_
  exact .finish ht.place fun span span' hspan => by simp_all [Seam.Like, Viewable.view]

include hr in
/-- After the first expression in parentheses, a comma or the closer. -/
theorem parenRest_continues {start start' : Span} {first first' : Node} (hstart : b.Like start start')
    (hfirst : b.Like first first') : Continues b r n read (parenRest r start first)
      (parenRest r' start' first') (fun _ => False) fun _ _ => True := by
  refine .ifAccept rfl ?_ (.mark rfl rfl fun _ _ _ => ?_)
  · refine .part (fun n c hc => .imp (commaValues_keeps hr _ _ _ c hc) fun _ _ _ => trivial) ?_
    refine fun others others' hothers => .finish hstart fun span span' hspan => ?_
    simp_all [Seam.Like, Viewable.view]
  · exact .finish hstart fun span span' hspan => by simp_all [Seam.Like, Viewable.view]

include hr in
/-- Parentheses around an expression, a tuple, or nothing. -/
theorem parenthesised_mirrors :
    Mirrors b r.fuel (fun kind => kind = .symbol .openParen) (parenthesised r) (parenthesised r') := by
  refine .of_forms (parenthesised_forms (hr.neat _)) fun c hc hin h => ?_
  refine .opens hc (by rw [h]; rfl) fun t' ht => .ifAccept rfl ?_ ?_
  · exact .finish ht.place fun span span' hspan => by simp_all [Seam.Like, Viewable.view]
  · refine .within (fun _ h => h) (.node hr.expression fun first first' hfirst => ?_)
    exact parenRest_continues hr ht.place hfirst

include hr in
/-- The result of a command, between its mark and the closer. -/
theorem commandSubstitution_mirrors : Mirrors b r.fuel (fun kind => kind = .symbol .openSubstitution)
    (commandSubstitution r) (commandSubstitution r') := by
  refine .of_forms (commandSubstitution_forms (hr.neat _)) fun c hc hin h => ?_
  refine .opens hc (by rw [h]; rfl) fun t' ht => ?_
  refine .node (.within (fun _ h => h) hr.expression) fun inner inner' hinner => .mark rfl rfl fun _ _ _ => ?_
  exact .finish ht.place fun span span' hspan => by simp_all [Seam.Like, Viewable.view]

include hr in
/-- A command in the place of a file, between its mark and the closer. -/
theorem processSubstitution_mirrors {opener : Symbol} (hpartner : opener.partner? = some .closeParen)
    (direction : Direction) : Mirrors b r.fuel (fun kind => kind = .symbol opener)
      (processSubstitution r direction) (processSubstitution r' direction) := by
  refine .of_forms (processSubstitution_forms (hr.neat _) hpartner direction) fun c hc hin h => ?_
  refine .opens hc (by rw [h]; rfl) fun t' ht => ?_
  refine .node (.within (fun _ h => h) hr.expression) fun inner inner' hinner => .mark rfl rfl fun _ _ _ => ?_
  exact .finish ht.place fun span span' hspan => by simp_all [Seam.Like, Viewable.view]

/-! ## Records -/

/-- A key is one token. -/
theorem recordKey_mirrors : Mirrors b r.fuel (fun _ => True) recordKey recordKey := by
  refine .of_forms recordKey_forms fun c hc hin _ => .peek hc.meets hin fun t' ht => ?_
  rw [ht.kind, ht.payload, ht.lexeme]
  split
  · next h =>
      refine .opens hc (by rw [Cursor.kind, h]; rfl) fun _ _ => .give ?_
      simp_all [Seam.Like, Viewable.view]
  · next h =>
      refine .opens hc (by rw [Cursor.kind, h]; rfl) fun _ _ => .give ?_
      simp_all [Seam.Like, Viewable.view]
  · next h =>
      refine .opens hc (by rw [Cursor.kind, h]; rfl) fun _ _ => .give ?_
      simp_all [Seam.Like, Viewable.view]
  · exact .fail hc.meets rfl

include hr in
/-- A key, a colon and a value; line breaks may come before the value. -/
theorem recordField_mirrors : Mirrors b r.fuel (fun _ => True) (recordField r) (recordField r') := by
  refine .of_forms (recordField_forms (hr.neat _)) fun c hc hin _ => .peek hc.meets hin fun t' ht => ?_
  refine .node hc trivial recordKey_mirrors fun key key' hkey => .mark rfl rfl fun _ _ _ => ?_
  refine .skipNewlines (.node ((hr.neat _).expression)) (.node hr.expression fun value value' hvalue => ?_)
  exact .finish ht.place fun span span' hspan => by simp_all [Seam.Like, Viewable.view]

/-- What separates fields may be line breaks before a cut. -/
theorem fieldSeparator_keeps (problem : Problem) (hshallow : problem.isShallow = true) :
    Keeps b r (fieldSeparator problem) (fieldSeparator problem) fun _ => True := by
  intro n c hc
  by_cases hin : b.Inside c
  · refine .checkInside hc.meets hin ?_
    refine Continues.skipNewlines (.accept rfl (.ite (fun _ => .pure trivial) fun _ => .check rfl .fail)) ?_ c hc
    refine .ifAccept rfl (.last (.skipNewlines (.pure trivial) (.give rfl))) ?_
    exact .ite (fun _ => .give rfl) fun _ => .ifCheck rfl (.give rfl) (.fail hshallow)
  · exact .of_fades (hc.meets.lost hin) (.of_lays (fieldSeparator_lays problem))

section

variable {α : Type} [Outlined α] {part part' : Parse α} {problem : Problem}

/-- Among items between braces, the reader of the script alone finds none at a cut. -/
theorem bracedItem_fades (hforms : Forms b.script .nothing (fun _ => True) part) :
    Fades b (Loose True True) (bracedItem part problem) :=
  .check rfl (.node hforms)

/-- Past a cut there is no item, and no closing brace. -/
theorem bracedItems_fade (hforms : Forms b.script .nothing (fun _ => True) part) :
    Fades b (fun _ => True) (r.collect (bracedItem part problem)) :=
  .collect (bracedItem_fades hforms)

/-- Items between braces are read one by one. Where the braces are not closed, this is found out after them. -/
theorem bracedItems_keep [Viewable α] (hle : r.fuel ≤ r'.fuel)
    (hforms : Forms b.script .nothing (fun _ => True) part)
    (hpart : Mirrors b (r.fuel - 1) (fun _ => True) part part') (hshallow : problem.isShallow = true) :
    Keeps b r (r.collect (bracedItem part problem)) (r'.collect (bracedItem part' problem)) fun _ => True := by
  refine .collect (A := True) hle (fun _ => bracedItem_fades hforms) fun n => ?_
  refine .ifCheck rfl .noItem (.node hpart fun a a' ha => ?_)
  exact .loosely (fieldSeparator_keeps _ hshallow) (fun _ _ => .pure trivial) fun _ _ _ => .item ha

end

include hr in
/-- A record between its braces. -/
theorem record_mirrors : Mirrors b r.fuel (fun _ => True) (record r) (record r') := by
  refine .of_forms (record_forms (hr.neat _)) fun c hc hin _ => .expect hc rfl rfl fun _ t' ht => ?_
  have hforms := recordField_forms (hr.neat .nothing)
  refine .part (.within (fun _ h => h) fun n => ?_) fun fields fields' hfields => ?_
  · refine .skipNewlines (.bind (bracedItems_fade hforms) fun _ _ => .mark rfl) ?_
    refine .loosely (bracedItems_keep hr.fuel hforms (recordField_mirrors hr).inner rfl) (fun _ _ => .mark rfl) ?_
    exact fun fields fields' hfields => .mark rfl rfl fun _ _ _ => .give hfields
  · exact .finish ht.place fun span span' hspan => by simp_all [Seam.Like, Viewable.view]

include hr in
theorem recordLiteral_mirrors : Mirrors b r.fuel (fun _ => True) (recordLiteral r) (recordLiteral r') := by
  refine .of_forms (recordLiteral_forms (hr.neat _)) fun c hc hin _ => ?_
  refine .node hc trivial (record_mirrors hr) fun record record' hrecord => .give ?_
  simp_all [Seam.Like, Viewable.view]

/-! ## Closures and lambdas -/

include hr in
/-- The parameters of a closure between bars. -/
theorem closureParameters_keeps :
    Keeps b r (closureParameters r) (closureParameters r') fun _ => False := by
  intro n
  have hnone (flag : Bool) : b.Like (([], flag) : List (Parameter Node) × Bool) ([], flag) := rfl
  refine .ifAccept rfl ?_ (.accept rfl (.give (hnone true)) (.give (hnone false)))
  refine .part (fun n c hc => .imp (parameters_keeps hr _ _ _ c hc) fun _ _ _ => trivial) ?_
  exact fun params params' hparams => .give (congrArg (·, true) hparams)

/-- Where nothing may be fallen back to, there is no fallback value. -/
theorem fallback?_none (c : Cursor) : Yields c (fun a _ => a = none) (fallback? r false) := by
  rw [fallback?, if_neg Bool.false_ne_true]
  exact .pure rfl

/-- Parameters of closures have no fallback values, -/
theorem parameter_bare (c : Cursor) : Yields c (fun p _ => p.bare = p) (parameter r false) := by
  refine .skip fun start _ => .skip fun (name, sigil) _ => .skip fun hint c₁ => ?_
  refine .bind (fallback?_none c₁) fun fallback _ h => .skip fun span _ => .pure ?_
  rw [h]
  rfl

/-- The parameters of a closure have no fallback values. -/
theorem parameters_bare (closer : Symbol) (c : Cursor) :
    Yields c (fun params _ => params.map Parameter.bare = params) (parameters r closer false) := by
  let Bare (params : List (Parameter Node)) : Prop := params.map Parameter.bare = params
  have hturn (params : Array (Parameter Node)) (c₁ : Cursor) (h : Bare params.toList) :
      Yields c₁ (Turn.Holds (fun params _ => Bare params.toList) fun params _ => Bare params) (do
        if ← check (.symbol closer) then return .done params.toList
        let p ← parameter r false
        if ← accept (.symbol .comma) then return .again (params.push p)
        else return .done (params.push p).toList) := by
    refine .skip fun closed c₂ => .ite (fun _ => .pure h) fun _ => ?_
    refine .bind (parameter_bare c₂) fun p c₃ hp => .skip fun more c₄ => ?_
    have hpush : (params.push p).toList.map Parameter.bare = (params.push p).toList := by
      rw [Array.toList_push, List.map_append, h, List.map_singleton, hp]
    exact .ite (fun _ => .pure hpush) fun _ => .pure hpush
  exact .bind (.loop hturn rfl) fun params _ h => .skip fun _ _ => .pure h

/-- so that a view that leaves these out does not change them, -/
theorem closureParameters_bare (c : Cursor) :
    Yields c (fun given _ => given.1.map Parameter.bare = given.1) (closureParameters r) := by
  refine .skip fun _ c₁ => .ite (fun _ => ?_) fun _ => .skip fun _ _ => .pure rfl
  exact .bind (parameters_bare _ _) fun params _ h => .pure h

/-- and closures with parameters that are alike look alike. -/
theorem closureParams_like {params params' : List (Parameter Node)} (h : b.Like params params')
    (hbare : params.map Parameter.bare = params) : b.left.closureParams (params.map (Parameter.view b.left)) =
      b.right.closureParams (params'.map (Parameter.view b.right)) := by
  have hview (g : View) (p : Parameter Node) : (p.view g).bare = p.bare.view g := by
    rw [Parameter.view, Parameter.bare, Parameter.bare, Parameter.view]
    rfl
  have hsame (g : View) (ps : List (Parameter Node)) (hps : (ps.map (Parameter.view g)).map Parameter.bare =
      ps.map (Parameter.view g)) : g.closureParams (ps.map (Parameter.view g)) = ps.map (Parameter.view g) := by
    rw [View.closureParams, hps, ite_self]
  have hleft : (params.map (Parameter.view b.left)).map Parameter.bare = params.map (Parameter.view b.left) := by
    conv_rhs => rw [← hbare]
    rw [List.map_map, List.map_map]
    exact List.map_congr_left fun p _ => hview b.left p
  have h : params.map (Parameter.view b.left) = params'.map (Parameter.view b.right) := h
  rw [hsame b.left params hleft, hsame b.right params' (by rw [← h, hleft]), h]

include hr in
/-- A closure between its braces. -/
theorem closure_mirrors : Mirrors b r.fuel (fun _ => True) (closure r) (closure r') := by
  refine .of_forms (closure_forms (hr.neat _)) fun c hc hin _ => .expect hc rfl rfl fun _ t' ht => ?_
  refine .partWith (closureParameters_keeps hr) closureParameters_bare ?_
  rintro ⟨params, flag⟩ ⟨params', flag'⟩ hlike hbare
  obtain ⟨hparams, rfl⟩ := Prod.mk.inj hlike
  have hparams := closureParams_like (b := b) hparams hbare
  refine .loosely (.within (fun _ h => h) (statementList_keeps hr fun _ => rfl)) (fun _ _ => .mark rfl) ?_
  refine fun list list' hlist => .mark rfl rfl fun _ _ _ => ?_
  exact .finish ht.place fun span span' hspan => by simp_all [Seam.Like, Viewable.view]

include hr in
/-- A lambda has its body between braces. -/
theorem lambda_mirrors : Mirrors b r.fuel (fun kind => kind = .symbol .pipe ∨ kind = .symbol .orOr)
    (lambda r) (lambda r') := by
  refine .of_forms (lambda_forms (hr.neat _)) fun c hc hin h => ?_
  rw [lambda_eq, lambda_eq]
  refine .opens hc (by rcases h with h | h <;> (rw [h]; rfl)) fun t' ht => ?_
  rw [ht.kind]
  refine .join (fun _ n c hc => .imp (parameters_keeps hr _ _ _ c hc) fun _ _ _ => trivial)
    (fun _ _ => .give rfl) fun params params' hparams => ?_
  refine .part typeHintAfter?_keeps fun returns returns' hreturns => ?_
  refine .node (block_mirrors hr).inner fun body body' hbody => ?_
  exact .finish ht.place fun span span' hspan => by simp_all [Seam.Like, Viewable.view]

end ShellFront.Grammar
