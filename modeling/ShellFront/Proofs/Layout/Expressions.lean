import ShellFront.Proofs.Layout.Lists
import ShellFront.Proofs.Parse.Expressions

/-!
# How expressions are laid out

Each production of the grammar of expressions forms its node: the parts of the node are laid over the tokens
that it reads, in the order of the source.

## Contents
- Literals, brackets, records and closures.
- Words, commands and their arguments.
- Braces in the place of a value.
- `primary_forms`, `access_forms`, `unary_forms`, `binary_forms`, `expression_forms`.
-/

namespace ShellFront.Grammar

open Outlined Parse
open scoped Layout

variable {s : Script} {w : Watch} {r : Rules} (hr : r.Neat s w) {c c₀ : Cursor} {firm : Bool}
  {stack : List Symbol} {held : List Outline} {start : Span}

/-! ## Literals and ranges -/

/-- An integer that was read is a literal at its place. -/
theorem integer_does {radix : Radix} {α : Type} {f : Literal → Parse α} {Q : α → Cursor → Prop}
    (hc : c.tokens = s.tokens) (h : c.kind = .integer radix)
    (hf : ∀ value, c.Formed s w (shown (Node.literal c.current.span value)) c.advance →
      Does s w c c.advance (f value) Q) : Does s w c c (do
        let _ ← advance
        let value ← integerLiteral c.current radix false
        f value) Q := by
  have hsturdy : c.kind.isSturdy = true := by rw [h]; rfl
  have hstrays := ((Cursor.Trail.nil (w := w) hc).inert (TokenKind.inert_of_sturdy hsturdy)).strays
  refine .advance (.bind hstrays integerLiteral_does fun value c' hsame => ?_)
  rw [hsame]
  exact hf value (Cursor.formed_leaf hc hsturdy (value.outline_leaf _))

/-- A range ends with an integer or a variable, and each is formed by its one token. -/
theorem rangeEnd_forms (dots : Symbol) : Forms s w (fun _ => True) (rangeEnd dots) := by
  refine fun c hc _ => .peek ?_
  split
  · next h => exact integer_does hc h fun _ hformed => .pure hformed
  · next h => exact .alone hc (by rw [Cursor.kind, h]; rfl) (Outline.leaf_mk (by decide)) rfl
  · exact .fail (.refl c)

/-- With two dots after it, an integer is the first end of a range; without them it stands for itself. -/
theorem rangeFrom_does {first : Node} (h : c₀.Formed s w (shown first) c) :
    Does s w c₀ c (rangeFrom first) fun n c => c₀.Formed s w (shown n) c := by
  refine .peek ?_
  dsimp only
  split
  · next hdots =>
      have hopens : c₀.Opens first.span c := h.spans_node.toOpens
      refine .next h.trail hopens rfl ?_ (.cover (rangeEnd_forms _) fun last => ?_)
      · rcases (Bool.or_eq_true _ _).mp hdots with hkind | hkind <;> rw [Cursor.kind, eq_of_beq hkind] <;> rfl
      · exact .whole rfl (by decide) (by simp)
  · exact .pure h

/-! ## Brackets -/

include hr in
theorem listLiteral_forms : Forms s w (fun _ => True) (listLiteral r) :=
  fun c hc _ => .peek <| .follow (bracketed_does hr hc) fun elements c' h =>
    Goes.finish (fun _ => rfl) (by decide) rfl (by simp) c' h.1 h.2

include hr in
/-- The hash and the brace that open a set are one token. -/
theorem setLiteral_forms : Forms s w (fun kind => kind.isSturdy = true) (setLiteral r) :=
  fun _ hc hkind => .opens hc hkind <| .bind (bracketed_lays hr) fun elements =>
    .finish (fun _ => rfl) (by decide) rfl (by simp)

include hr in
/-- After the first expression a parenthesis closes around it, or goes on to a tuple with the others. -/
theorem parenRest_goes {first : Node} :
    Goes s w c₀ (c₀.Opens start) true [.openParen] (shown first) (parenRest r start first)
      fun n c => c₀.Formed s w (shown n) c := by
  refine .ifAccept rfl ?_ ?_
  · exact .group (commaValues_goes hr rfl _) fun others => .finish (fun _ => rfl) (by decide) rfl (by simp)
  · exact .closer rfl fun _ => .finish (fun _ => rfl) (by decide) rfl (by simp)

include hr in
theorem parenthesised_forms : Forms s w (fun kind => kind = .symbol .openParen) (parenthesised r) := by
  refine fun c hc h => .opensGroup hc h rfl (.acceptCloser rfl ?_ ?_)
  · exact .finish (fun _ => rfl) (by decide) rfl (by simp)
  · exact .within (fun _ h => h) (.node hr.expression fun first => parenRest_goes hr)

include hr in
/-- What stands inside is read as in any bracket, up to the closing parenthesis. -/
theorem commandSubstitution_forms :
    Forms s w (fun kind => kind = .symbol .openSubstitution) (commandSubstitution r) := by
  refine fun c hc h => .opensGroup hc h rfl (.node (.within (fun _ h => h) hr.expression) fun inner => ?_)
  exact .closer rfl fun _ => .finish (fun _ => rfl) (by decide) rfl (by simp)

include hr in
/-- Both directions open with one token and close with a parenthesis. -/
theorem processSubstitution_forms {opener : Symbol} (hpartner : opener.partner? = some .closeParen)
    (direction : Direction) :
    Forms s w (fun kind => kind = .symbol opener) (processSubstitution r direction) := by
  refine fun c hc h => .opensGroup hc h (Watch.isOpener_of_partner hpartner).1 ?_
  refine .node (.within (fun _ h => h) hr.expression) fun inner => .closer hpartner fun _ => ?_
  exact .finish (fun _ => rfl) (by decide) rfl (by simp)

/-! ## Records -/

/-- A key is a word or a string, a leaf in either case. -/
theorem recordKey_forms : Forms s w (fun _ => True) recordKey := by
  refine fun c hc _ => .peek ?_
  split
  · next style h =>
      exact .alone hc (by rw [Cursor.kind, h]; rfl)
        (StringLiteral.outline_leaf ⟨_, c.current.payload, style⟩) rfl
  · next h => exact .alone hc (by rw [Cursor.kind, h]; rfl) (Ident.outline_leaf ⟨_, c.current.lexeme⟩) rfl
  · next h => exact .alone hc (by rw [Cursor.kind, h]; rfl) (Ident.outline_leaf ⟨_, c.current.lexeme⟩) rfl
  · exact .fail (.refl c)

include hr in
theorem recordField_forms : Forms s w (fun _ => True) (recordField r) := by
  refine fun c hc _ => .peek (.follow (recordKey_forms c hc trivial) fun key c' h => ?_)
  refine Goes.mark rfl (fun _ => ?_) c' h.trail h.opens_current
  refine .bind skipNewlines_lays fun _ => .node hr.expression fun value => ?_
  exact .finish (fun _ => rfl) (by decide) rfl (by simp)

/-- What separates two fields stands for nothing. -/
theorem fieldSeparator_lays (problem : Problem) : Lays s w false (fieldSeparator problem) := by
  refine .of_goes fun c₀ => .check fun separated => .bind skipNewlines_lays fun _ => .ifAccept rfl ?_ ?_
  · exact .last (.bind skipNewlines_lays fun _ => .give (by simp) nofun)
  · refine .ite (fun _ => .give (by simp) nofun) fun _ => ?_
    exact .ifCheck (.give (by simp) nofun) .fail

include hr in
/-- A field of a record, with what separates it from the next one. -/
theorem recordItem_lays : Lays s w false (do
    if ← check (.symbol .closeBrace) then return none
    else
      let field ← recordField r
      fieldSeparator (.unfinished .closeBrace .record)
      return some field) := by
  refine .of_goes fun c₀ => .ifCheck (.give (by simp) nofun) (.node (recordField_forms hr) fun field => ?_)
  exact .bind (fieldSeparator_lays _) fun _ => .give (by simp) id

include hr in
theorem record_forms : Forms s w (fun _ => True) (record r) := by
  refine fun c hc _ => .opensWith hc rfl (.group (.within (fun _ h => h) ?_) fun fields => ?_)
  · refine .bind skipNewlines_lays fun _ => .bind (.collect r false (recordItem_lays hr)) fun fields => ?_
    exact .closer rfl fun _ c htrail hopens => .pure ⟨htrail, hopens⟩
  · exact .finish (fun _ => rfl) (by decide) rfl (by simp)

include hr in
theorem recordLiteral_forms : Forms s w (fun _ => True) (recordLiteral r) :=
  fun c hc _ => .bind (.refl c) (record_forms hr c hc trivial) fun _ _ hformed => .pure hformed

/-! ## Closures and lambdas -/

include hr in
/-- The bars around the parameters of a closure are marks, no brackets. -/
theorem closureParameters_lays : Lays s w false (closureParameters r) := by
  refine .of_goes fun c₀ => .ifAccept rfl ?_ (.accept rfl (.give (by simp) nofun) (.give (by simp) nofun))
  exact .bind (barParameters_lays hr _) fun params => .give (by simp) nofun

include hr in
/-- **A closure and its body share their braces.** -/
theorem closure_forms : Forms s w (fun _ => True) (closure r) := by
  refine fun c hc _ => .expect (.refl c) fun hopen => ?_
  have htrail := (Cursor.Trail.nil (w := w) hc).opener hopen rfl
  refine .bind htrail.strays (closureParameters_lays hr c.advance htrail.tokens) ?_
  rintro ⟨params, explicitParams⟩ c₁ hparams
  refine .bind (htrail.append hparams).strays
    (.within (fun _ h => h) (statementList_lays hr c₁ hparams.tokens)) fun list c₂ hlist => ?_
  have hinside := hparams.append hlist
  refine .expect (htrail.append hinside).strays fun hclose => .spanFrom (.pure ?_)
  rw [shown_node, Node.outline, Block.outline, Parameter.outlines_eq, Node.outlines_eq]
  -- the body stands over all that the closure does, and holds the statements only
  have hbody : c.Formed s w [.branch .block (c.current.span.cover c₂.advance.previous.span) (shown list)]
      c₂.advance := by
    refine hinside.braced hc hopen hclose rfl (fun seg hlaid => ⟨fun _ => ?_, fun hkind => ?_⟩) hlist.seated
    · exact hlaid.sublist (List.sublist_append_right _ _)
    · exact absurd hkind (show NodeKind.block ≠ .closure by decide)
  refine hinside.braced hc hopen hclose rfl (fun seg hlaid => ⟨fun h => absurd rfl h, fun _ => ?_⟩) ?_
  · exact ⟨_, _, rfl, rfl, rfl, hlaid.sublist (by simp)⟩
  · exact List.forall_mem_append.mpr ⟨fun o ho => hparams.seated o (by simpa using ho), hbody.trail.seated⟩

include hr in
/-- A lambda begins with a bar, or with the two bars that stand for no parameters at all. -/
theorem lambda_forms :
    Forms s w (fun kind => kind = .symbol .pipe ∨ kind = .symbol .orOr) (lambda r) := by
  rw [lambda_eq]
  intro c hc h
  refine .opensLoosely hc (by rcases h with h | h <;> rw [h] <;> rfl) ?_
  refine .join (fun _ => barParameters_lays hr _) (fun _ => .of_goes fun _ => .give (by simp) nofun)
    fun params => ?_
  refine .bind (typeHintAfter?_lays rfl) fun returns => .node (block_forms hr) fun body => ?_
  exact .finish (fun _ => rfl) (by decide) rfl (by simp)

/-! ## Words -/

/-- A leaf for a token that was read last, if one is made of it. -/
theorem dottedPart_does {part : TokenKind → Bool} (hc : c.tokens = s.tokens)
    (h : gluedPart c part = true) (hpart : ∀ kind, part kind = true → kind.isSturdy = true) :
    Does s w c c dottedPart fun t c' => c.Trail s w true [] [] c' ∧
      ∀ o : Outline, o.Leaf t.span → c.Trail s w true [] [o] c' := by
  simp only [gluedPart, Bool.and_eq_true, beq_iff_eq] at h
  have hdot : c.kind = .symbol .dot := h.1.1.1
  have htrail := (Cursor.Trail.nil (w := w) hc).inert (by rw [hdot]; rfl)
  have hsturdy : c.advance.kind.isSturdy = true := by
    rw [Cursor.kind, Cursor.current_advance (by rw [hdot]; decide)]
    exact hpart _ h.2
  have hfirm := TokenKind.firm_of_sturdy hsturdy
  have hinert := TokenKind.inert_of_sturdy hsturdy
  refine .advance (.last (.advance (.pure ⟨?_, fun o ho => ?_⟩)))
  · rw [← hfirm]
    exact htrail.inert hinert
  · rw [← hfirm]
    exact htrail.leaf hinert ho

/-- A part of a bare word is a token that a node can begin and end with. -/
theorem sturdy_of_isWordPart {kind : TokenKind} (h : kind.isWordPart = true) : kind.isSturdy = true := by
  unfold TokenKind.isWordPart at h
  split at h <;> first | rfl | contradiction

/-- So is the name of a member. -/
theorem sturdy_of_isMember {kind : TokenKind} (h : isMember kind = true) : kind.isSturdy = true := by
  unfold isMember at h
  split at h
  · rfl
  · exact sturdy_of_isName h

/-- Whether a parenthesis touches the name is only looked at. -/
theorem callTouches_lays (token : Token) : Lays s w true (callTouches token) :=
  fun _ hc => .here (.pure (.nil hc))

include hr in
/-- A call stands over the name that was read before it. -/
theorem callOf_goes {name : Token} : Goes s w c₀ (c₀.Opens name.span) true []
    [(Ident.mk name.span name.lexeme).outline] (callOf r name) fun n c => c₀.Formed s w (shown n) c :=
  .bind (callArguments_lays hr) fun args => .finish (fun _ => rfl) (by decide) rfl (by simp)

/-- A part that is glued to a word. -/
theorem wordPart_lays : Lays s w true (do
    if gluedPart (← here) TokenKind.isWordPart then return some (← dottedPart) else return none) := by
  refine fun c hc => .here (.ite (fun h => ?_) fun _ => .pure (.nil hc))
  refine .bind (.refl c) (dottedPart_does hc h fun _ => sturdy_of_isWordPart) fun part c' h => ?_
  exact .pure (by simpa using h.1)

include hr in
/-- The first part of a word begins it, and the parts that touch it are read on. -/
theorem bareWord_forms : Forms s w (fun kind => kind.isSturdy = true) (bareWord r) := by
  refine fun c hc hkind => .opensLeaf hc hkind (Ident.outline_leaf ⟨_, c.current.lexeme⟩) ?_
  refine .bind (.collect r true wordPart_lays) fun parts => .bind (callTouches_lays _) fun touches => ?_
  refine .ite (fun _ => ?_) fun _ => ?_
  · simpa using callOf_goes hr
  · rw [shown_plainList, shown_plain]
    exact .drop (.finish (fun _ => rfl) (by decide) rfl fun _ => rfl)

/-- The name of a command, perhaps with a namespace. -/
theorem commandName_forms : Forms s w (fun _ => True) commandName := by
  refine fun c hc _ => .expect (.refl c) fun hname => ?_
  have hsturdy : c.kind.isSturdy = true := by rw [hname]; rfl
  have htrail := (Cursor.Trail.nil (w := w) hc).inert (TokenKind.inert_of_sturdy hsturdy)
  have hopens := (Cursor.advance_spans hc (hname ▸ trivial : c.kind.Begins)).toOpens
  refine .here (.ite (fun h => ?_) fun _ => .read fun ctx => .pure ?_)
  · refine .bind htrail.strays (dottedPart_does htrail.tokens h fun kind hkind => ?_) fun member c' h => ?_
    · rw [eq_of_beq hkind]
      rfl
    · have hopens' : c.Opens c.current.span c' := hopens.reach htrail.tokens h.1.reaches
      rw [hname] at htrail
      refine .spanFrom (.pure ((htrail.append h.1).formedAs (hopens'.spans h.1.tokens) rfl ?_ rfl))
      exact (CommandName.outline_leaf _).kind
  · exact Cursor.formed_leaf hc hsturdy (CommandName.outline_leaf (.mk _ c.current.lexeme none _))

theorem pathWord_forms : Forms s w (fun kind => kind.isSturdy = true) (pathWord r) := by
  have hfits {kind : TokenKind} (h : isPathPart kind = true) : kind.isSturdy = true := by
    unfold isPathPart at h
    split at h <;> first | rfl | exact sturdy_of_isWordPart h
  refine fun c hc hkind => .opens hc hkind ?_
  refine .bind (.collect r true fun c hc => .here (.ite (fun h => ?_) fun _ => .pure (.nil hc))) fun parts => ?_
  · have hsturdy := hfits ((Bool.and_eq_true _ _).mp h).1
    have htrail := (Cursor.Trail.nil (w := w) hc).inert (TokenKind.inert_of_sturdy hsturdy)
    exact .advance (.pure (htrail.weaken fun _ => TokenKind.firm_of_sturdy hsturdy))
  · exact .finish (fun _ => rfl) (by decide) rfl (by simp)

/-! ## Commands -/

include hr in
/-- The value of a flag is laid if there is one, after an equals sign that touches the flag or without it. -/
theorem flagValue_lays (name : Token) : Lays s w true (flagValue r name) := by
  have haccess : Lays s w true (do return some (← r.access)) :=
    .of_goes fun _ => .node hr.access fun value => .give (by simp) id
  refine fun c hc => .peek ?_
  split
  · next h =>
      refine .ite (fun _ => ?_) fun _ => .pure (.nil hc)
      refine Does.next (P := fun _ => True) (.nil hc) trivial h rfl ?_
      exact .node hr.unary fun value => .give (by simp) id
  · exact haccess c hc
  · exact haccess c hc
  · exact haccess c hc
  · exact haccess c hc
  · exact .ite (fun _ => .pure (.nil hc)) fun _ => haccess c hc
  · exact .pure (.nil hc)

include hr in
theorem longFlag_forms : Forms s w (fun kind => kind.isSturdy = true) (longFlag r) :=
  fun _ hc hkind => .opens hc hkind <| .bind (flagValue_lays hr _) fun value =>
    .finish (fun _ => rfl) (by decide) rfl (by simp)

include hr in
/-- An argument is formed whichever of the ways to read it is taken. -/
theorem argument_forms : Forms s w (fun _ => True) (argument r) := by
  refine fun c hc _ => .peek ?_
  split
  · next h => exact longFlag_forms hr c hc (by rw [Cursor.kind, h]; rfl)
  · next h => exact .alone hc (by rw [Cursor.kind, h]; rfl) (Outline.leaf_mk (by decide)) rfl
  · next h => exact pathWord_forms c hc (by rw [Cursor.kind, h]; rfl)
  · next h => exact pathWord_forms c hc (by rw [Cursor.kind, h]; rfl)
  · next h => exact pathWord_forms c hc (by rw [Cursor.kind, h]; rfl)
  · next h => exact pathWord_forms c hc (by rw [Cursor.kind, h]; rfl)
  · exact hr.binary _ c hc trivial

include hr in
/-- Arguments are laid one after another, with nothing between them. -/
theorem commandArguments_lays : Lays s w true (commandArguments r) := by
  refine .within (fun _ h => h) (.collect r true fun c hc => .mode fun mode _ => .here ?_)
  refine .ite (fun _ => ?_) fun _ => .pure (.nil hc)
  refine .bind (.refl c) (argument_forms hr c hc trivial) fun arg c' h => .pure ?_
  simpa using h.trail

include hr in
theorem commandStage_forms : Forms s w (fun _ => True) (commandStage r) := by
  refine fun c hc _ => .follow (commandName_forms c hc trivial) fun name c' h => ?_
  have hspans : c.Spans name.outline.span c' := h.spans_of
  refine Goes.bind (commandArguments_lays hr) (fun args => ?_) c' h.trail hspans.toOpens
  exact .finish (fun _ => rfl) (by decide) rfl (by simp)

/-- A bar between stages is no bracket. -/
theorem inert_of_isPipe {sym : Symbol} (h : sym.isPipe = true) :
    (TokenKind.symbol sym).isInert = true := by
  cases sym <;> first | rfl | contradiction

/-- A pipe is read whole or not at all. -/
theorem pipe?_does (goesOn : Cursor → Bool) (hc : c.tokens = s.tokens) :
    Does s w c c (pipe? goesOn) fun joint c' => match joint with
      | some _ => c.Trail s w false [] [] c'
      | none => c' = c := by
  refine .here ?_
  split
  · next sym h =>
      refine .ite (fun hpipe => ?_) fun _ => .pure rfl
      have hinert : c.kind.isInert = true := by
        rw [h]
        exact inert_of_isPipe ((Bool.and_eq_true _ _).mp hpipe).1
      have htrail := (Cursor.Trail.nil (w := w) hc).inert hinert
      refine .advance (.bind htrail.strays (skipNewlines_lays _ htrail.tokens) fun _ c' h => .pure ?_)
      simpa using htrail.append h
  · exact .pure rfl

/-- The stages after the first one, and what they span together with it. -/
theorem stages_does {α : Type} [Outlined α] [Located α] {stage : Parse α}
    (hstage : Forms s w (fun _ => True) stage)
    (hlocated : ∀ {a : α} {c c' : Cursor}, c.Formed s w (shown a) c' → c.Spans (Located.span a) c')
    (goesOn : Cursor → Bool) {first : α} (hfirst : c₀.Formed s w (shown first) c) :
    Does s w c₀ c (r.collect do
        match ← pipe? goesOn with
        | some joint => return some (joint, ← stage)
        | none => return none) fun others c' =>
      c₀.Trail s w true [] (shown first ++ shown others) c' ∧
        c₀.Spans ((Located.span first).cover (Located.span (lastStage first others))) c' := by
  have hspans := hlocated hfirst
  -- The first stage stays open, for the next stage to be covered together with it.
  refine .collect r (I := fun others c' => c₀.Opens (Located.span first) c' ∧
    c₀.Trail s w true [] (shown first ++ shown others) c' ∧
      c₀.Spans ((Located.span first).cover (Located.span (lastStage first others))) c') ?_ ?_ ?_
  · exact fun _ _ h => h.2.1.strays
  · rintro others c' ⟨hopens, htrail, hcover⟩
    refine .bind htrail.strays (pipe?_does goesOn htrail.tokens) fun joint c'' h => ?_
    match joint with
    | none => exact .pure (h ▸ ⟨htrail, hcover⟩)
    | some joint =>
        have hpipe := htrail.append h
        have hopens' := hopens.reach htrail.tokens h.reaches
        refine .bind hpipe.strays (hstage c'' h.tokens trivial) fun next c₂ hnext => .pure ?_
        refine ⟨hopens'.reach h.tokens hnext.trail.reaches, ?_, ?_⟩
        · simpa using hpipe.node hnext
        · rw [lastStage_concat]
          exact hopens'.cover h.tokens (hlocated hnext)
  · exact ⟨hspans.toOpens, by simpa using hfirst.trail, Cursor.spans_cover_self.mpr hspans⟩

include hr in
/-- The stages of a command are laid between the bars that join them. -/
theorem commandExpression_forms : Forms s w (fun _ => True) (commandExpression r) := by
  refine fun c hc _ => .follow (commandStage_forms hr c hc trivial) fun first c' hfirst => ?_
  refine .follow (stages_does (commandStage_forms hr) (fun h => h.spans_of) _ hfirst) fun others c'' h => ?_
  exact .pure (h.1.formedAs h.2 rfl (by decide) (by simp [shown_map_snd]))

/-! ## Names -/

include hr in
/-- A name begins a tuple, a call, an object or a command; each way forms one node. -/
theorem nameExpression_forms : Forms s w (fun kind => kind = .identifier) (nameExpression r) := by
  intro c hc hname
  have hsturdy : c.kind.isSturdy = true := by rw [hname]; rfl
  have hleaf := Ident.outline_leaf ⟨c.current.span, c.current.lexeme⟩
  refine .mode fun mode _ => .here ?_
  split
  · refine .opens hc hsturdy (.bind (bracketed_lays hr) fun elements => ?_)
    exact .finish (fun _ => rfl) (by decide) rfl (by simp)
  · exact .opensLeaf hc hsturdy hleaf (callOf_goes hr)
  · refine .opensLeaf hc hsturdy hleaf (.node (record_forms hr) fun value => ?_)
    exact .finish (fun _ => rfl) (by decide) rfl (by simp)
  · exact commandExpression_forms hr c hc trivial

/-! ## Braces in the place of a value -/

include hr in
/-- An expansion is formed when the attempt at it succeeds. -/
theorem braceExpansion_forms : Forms s w (fun _ => True) (braceExpansion r) := by
  refine fun c hc _ => .opensWith hc rfl (.bind (.within (fun _ h => h) (.loop r true rfl ?_)) fun items => ?_)
  · refine fun c₀ items => .node (argument_forms hr) fun item => ?_
    exact .ifAccept rfl (.give (by simp) fun _ => rfl) (.give (by simp) id)
  · exact .closer rfl fun _ => .finish (fun _ => rfl) (by decide) rfl (by simp)

include hr in
/-- A record that cannot be read is read again as a closure. -/
theorem recordOrClosure_forms : Forms s w (fun _ => True) (recordOrClosure r) := by
  refine fun c hc _ => .peek (.follow (.tentatively (recordLiteral_forms hr c hc trivial)) ?_)
  intro first c' h
  match first with
  | some node => exact .pure h
  | none =>
      -- Nothing was read, so the closure is tried from the same brace.
      subst h
      refine .note (.follow (.tentatively (closure_forms hr c' hc trivial)) fun second c'' h => ?_)
      match second with
      | some node => exact .pure h
      | none =>
          subst h
          exact .failAt (.refl c'')

include hr in
/-- What an opening brace begins is a record, an expansion or a closure, and each is formed. -/
theorem braceValue_forms : Forms s w (fun _ => True) (braceValue r) := by
  refine fun c hc _ => .here (.ite (fun _ => recordLiteral_forms hr c hc trivial) fun _ => ?_)
  refine .ite (fun _ => closure_forms hr c hc trivial) fun _ => ?_
  split
  · exact braceExpansion_forms hr c hc trivial
  · exact closure_forms hr c hc trivial
  · exact recordOrClosure_forms hr c hc trivial

/-! ## Primary expressions -/

include hr in
theorem keywordValue_forms (k : Keyword) :
    Forms s w (fun kind => kind = .keyword k) (keywordValue r k) := by
  intro c hc hk
  have hsturdy : c.kind.isSturdy = true := by rw [hk]; rfl
  have hword := bareWord_forms hr c hc hsturdy
  refine .here ?_
  dsimp only
  split
  · exact .alone hc hsturdy (Outline.leaf_mk (by decide)) rfl
  · exact .alone hc hsturdy (Outline.leaf_mk (by decide)) rfl
  · exact .alone hc hsturdy (Outline.leaf_mk (by decide)) rfl
  · refine .ite (fun _ => setLiteral_forms hr c hc hsturdy) fun _ => ?_
    exact .mode fun mode _ => .ite (fun _ => hword) fun _ => .fail (.refl c)
  · exact .mode fun mode _ => .ite (fun _ => hword) fun _ => .fail (.refl c)

include hr in
theorem symbolValue_forms (sym : Symbol) :
    Forms s w (fun kind => kind = .symbol sym) (symbolValue r sym) := by
  intro c hc hsym
  unfold symbolValue
  split
  · exact listLiteral_forms hr c hc trivial
  · exact parenthesised_forms hr c hc hsym
  · exact commandSubstitution_forms hr c hc hsym
  · exact processSubstitution_forms hr rfl _ c hc hsym
  · exact processSubstitution_forms hr rfl _ c hc hsym
  · exact .mode fun mode _ => .ite (fun _ => .fail (.refl c)) fun _ => braceValue_forms hr c hc trivial
  · exact lambda_forms hr c hc (.inl hsym)
  · exact lambda_forms hr c hc (.inr hsym)
  · exact .fail (.refl c)

include hr in
/-- Each kind of token that can begin a value begins a node that is formed. -/
theorem primary_forms : Forms s w (fun _ => True) (primary r) := by
  refine fun c hc _ => .peek ?_
  split
  · next h => exact integer_does hc h fun _ hformed => rangeFrom_does hformed
  · next h => exact .alone hc (by rw [Cursor.kind, h]; rfl) (Outline.leaf_mk (by decide)) rfl
  · next h => exact .alone hc (by rw [Cursor.kind, h]; rfl) (Outline.leaf_mk (by decide)) rfl
  · next h =>
      refine .advance (rangeFrom_does (Cursor.formed_leaf hc (by rw [Cursor.kind, h]; rfl) ?_))
      exact Outline.leaf_mk (by decide)
  · next h => exact .alone hc (by rw [Cursor.kind, h]; rfl) (Outline.leaf_mk (by decide)) rfl
  · next h => exact .alone hc (by rw [Cursor.kind, h]; rfl) (Outline.leaf_mk (by decide)) rfl
  · next h => exact .alone hc (by rw [Cursor.kind, h]; rfl) (Outline.leaf_mk (by decide)) rfl
  · next h =>
      exact .mode fun mode _ =>
        .ite (fun _ => bareWord_forms hr c hc (by rw [Cursor.kind, h]; rfl))
          fun _ => nameExpression_forms hr c hc h
  · next h => exact keywordValue_forms hr _ c hc h
  · next h => exact symbolValue_forms hr _ c hc h
  · exact .fail (.refl c)

include hr in
/-- By the invariant of the loop: what was read so far is formed, and each access covers it. -/
theorem access_forms : Forms s w (fun _ => True) (access r) := by
  refine fun c hc _ => .follow (primary_forms hr c hc trivial) fun target c' hformed => ?_
  refine .loop r (I := fun (target : Node) c' => c.Formed s w (shown target) c') (fun _ _ h => h.trail.strays)
    (fun target c' hformed => ?_) hformed
  have hopens := hformed.spans_node.toOpens
  refine .here (.ite (fun hglued => ?_) fun _ => .pure hformed)
  refine .bind hformed.trail.strays
    (dottedPart_does hformed.trail.tokens hglued fun _ => sturdy_of_isMember) fun name c'' h => ?_
  have htrail := hformed.trail.append (h.2 _ (Ident.outline_leaf ⟨name.span, name.lexeme⟩))
  refine Goes.bind (callTouches_lays name) (fun touches => .ite (fun _ => ?_) fun _ => ?_) c'' htrail
    (hopens.reach hformed.trail.tokens h.1.reaches)
  · refine .bind (callArguments_lays hr) fun args c₂ htrail hopens => .spanFrom (.pure ?_)
    exact htrail.formedAs (hopens.spans htrail.tokens) rfl (by decide) (by simp)
  · refine fun c₂ htrail hopens => .spanFrom (.pure ?_)
    exact htrail.formedAs (hopens.spans htrail.tokens) rfl (by decide) (by simp)

/-! ## Operators -/

/-- The sign of a unary operator can begin a node. -/
theorem sturdy_of_unary {kind : TokenKind} {operator : UnaryOperator}
    (h : UnaryOperator.ofToken? kind = some operator) : kind.isSturdy = true := by
  unfold UnaryOperator.ofToken? at h
  split at h <;> first | rfl | contradiction

/-- An operator that goes on with an expression is no bracket. -/
theorem inert_of_continuing {mode : Mode} {least : Nat} {operator : Operator}
    (h : continuing? mode least c = some operator) : c.kind.isInert = true := by
  unfold continuing? at h
  split at h
  · next h' =>
      unfold Operator.ofToken? at h'
      split at h' <;> first | (next hkind => rw [hkind]; rfl) | contradiction
  · contradiction

include hr in
theorem unary_forms : Forms s w (fun _ => True) (unary r) := by
  refine fun c hc _ => .peek ?_
  split
  · next operator h =>
      refine .opens hc (sturdy_of_unary h) (.cover hr.unary fun operand => ?_)
      exact .whole rfl (by decide) (by simp)
  · exact access_forms hr c hc trivial

include hr in
/-- By the invariant of the loop: the left operand is formed, and the node of the operator covers both. -/
theorem binary_forms (least : Nat) : Forms s w (fun _ => True) (binary r least) := by
  refine fun c hc _ => .follow (unary_forms hr c hc trivial) fun left c' hformed => ?_
  refine .loop r (I := fun (left : Node) c' => c.Formed s w (shown left) c') (fun _ _ h => h.trail.strays)
    (fun left c' hformed => .mode fun mode _ => .here ?_) hformed
  split
  · next operator h =>
      refine .next hformed.trail hformed.spans_node.toOpens rfl (inert_of_continuing h) ?_
      refine .bind skipNewlines_lays fun _ => .cover (hr.binary _) fun right => ?_
      exact .whole rfl (by decide) (by simp)
  · exact .pure hformed

include hr in
/-- A pipeline covers its first stage and the last one. -/
theorem pipeline_forms : Forms s w (fun _ => True) (pipeline r) := by
  refine fun c hc _ => .follow (binary_forms hr 0 c hc trivial) fun first c' hfirst => ?_
  refine .follow (stages_does (hr.binary 0) (fun h => h.spans_node) _ hfirst) ?_
  rintro others c'' ⟨htrail, hspans⟩
  unfold lastStage at hspans
  split
  · next h =>
      rw [h] at hspans
      obtain rfl := List.getLast?_eq_none_iff.mp h
      have hwhole : c.Spans first.outline.span c'' := by
        rw [first.outline_span]
        exact Cursor.spans_cover_self.mp hspans
      exact .pure ⟨by simpa using htrail, first.outline, rfl, hwhole⟩
  · next last h =>
      rw [h] at hspans
      exact .pure (htrail.formedAs hspans rfl (by decide) (by simp [shown_map_snd]))

include hr in
theorem expression_forms : Forms s w (fun _ => True) (expression r) := pipeline_forms hr

end ShellFront.Grammar
