import ShellFront.Proofs.Twins.Values

/-!
# How words and commands tally

A word takes in what touches it, and a command takes arguments as long as the next token can begin one. Both ask what
stands next to each other, and the answers are the same in a script and in its twin as far as they count.

## Contents
- Words, calls and paths.
- Flags, arguments and stages.
- `stages_keeps` and `commandExpression_mirrors`.
-/

namespace ShellFront.Grammar

open Outlined Parse
open scoped Layout

variable {b : Seam} {r r' : Rules} (hr : r.Twins b r') {c : Cursor} {n : Nat} {read : Bool}

/-! ## Words -/

/-- A dot and the part after it are read in both. -/
theorem dottedPart_tallies {α : Type} [Viewable α] {part : TokenKind → Bool} {g g' : Token → Parse α}
    {L : α → Prop} {Q : α → Cursor → Prop} (hc : b.Meets c) (hbreak : part .newline = false)
    (hend : part .endOfInput = false) (hglued : gluedPart c part = true)
    (hg : b.Meets c.advance.advance → c.advance.advance.ahead.length < c.ahead.length →
      b.Like c.advance.current (b.image c.advance).current → c.advance.current = c.advance.advance.previous →
      (b.image c.advance).current = (b.image c.advance.advance).previous →
      Tallies b c.advance.advance (g c.advance.current) (g' (b.image c.advance).current) L Q) :
    Tallies b c (dottedPart >>= g) (dottedPart >>= g') L Q := by
  simp only [gluedPart, Bool.and_eq_true, beq_iff_eq] at hglued
  have hmark : c.kind.isMark = true := by rw [hglued.1.1.1]; rfl
  have hdot := (TokenKind.isMark_iff.mp hmark).2
  have hc₁ := hc.advance_mark hmark
  have hkind : part c.advance.kind = true := by
    rw [Cursor.kind, Cursor.current_advance hdot]
    exact hglued.2
  have hmark₁ : c.advance.kind.isMark = true := by
    refine TokenKind.isMark_iff.mpr ⟨fun h => ?_, fun h => ?_⟩
    · rw [h, hbreak] at hkind
      contradiction
    · rw [h, hend] at hkind
      contradiction
  have hend₁ := (TokenKind.isMark_iff.mp hmark₁).2
  have hlt := (Cursor.advance_reads hc.tokens hdot).length_lt (by simp)
  have hlt₁ := (Cursor.advance_reads hc₁.tokens hend₁).length_lt (by simp)
  rw [dottedPart, bind_assoc, bind_assoc]
  refine .advance hc hmark (.advance hc₁ hmark₁ (hg (hc₁.advance_mark hmark₁) (by omega) ?_ ?_ ?_))
  · exact (Seam.inside_of_kind hc₁.tokens hend₁).current hc₁.tokens
  · exact (Cursor.advance_previous hc₁.tokens hend₁).symm
  · exact (Seam.previous_image_advance hc₁.tokens hend₁).symm

/-- Whether a parenthesis touches the token that was read last. -/
theorem callTouches_tallies {α : Type} [Viewable α] {f f' : Bool → Parse α} {L : α → Prop}
    {Q : α → Cursor → Prop} (hc : b.Meets c) (hbegun : c.before ≠ [])
    (hf : ∀ touches, Tallies b c (f touches) (f' touches) L Q) :
    Tallies b c (callTouches c.previous >>= f) (callTouches (b.image c).previous >>= f') L Q := by
  rw [callTouches, callTouches, bind_assoc, bind_assoc]
  refine .here ?_
  have hsame : ((b.image c).kind == .symbol .openParen && (b.image c).previous.touches (b.image c).current) =
      (c.kind == .symbol .openParen && c.previous.touches c.current) := by
    rw [hc.agrees (p := (· == .symbol .openParen)) rfl]
    cases h : c.kind == .symbol .openParen with
    | false => rfl
    | true => rw [Seam.touches_previous hc.tokens hbegun (by rw [eq_of_beq h]; rfl)]
  rw [hsame]
  exact .ret (hf _)

/-- Whether a parenthesis touches a name need not be the same where both answers lead to the same. -/
theorem callTouches_either {α : Type} [Viewable α] {token token' : Token} {f f' : Bool → Parse α}
    {L : α → Prop} {Q : α → Cursor → Prop}
    (hf : ∀ touches touches', Tallies b c (f touches) (f' touches') L Q) :
    Tallies b c (callTouches token >>= f) (callTouches token' >>= f') L Q := by
  rw [callTouches, callTouches, bind_assoc, bind_assoc]
  exact .here (.ret (hf _ _))

/-- The text of words that are alike. -/
theorem foldl_lexeme_like {parts parts' : List Token} (h : b.Like parts parts') (join : String → String → String)
    (text : String) : parts'.foldl (fun text part => join text part.lexeme) text =
      parts.foldl (fun text part => join text part.lexeme) text := by
  have hlexemes : parts.map Token.lexeme = parts'.map Token.lexeme := by
    have h := congrArg (List.map Token.lexeme) (show parts.map (Token.view b.left) = parts'.map (Token.view b.right) from h)
    simpa only [List.map_map, Function.comp_def, Token.view] using h
  rw [← List.foldl_map (f := Token.lexeme) (g := join), ← List.foldl_map (f := Token.lexeme) (g := join), hlexemes]

include hr in
/-- A call of a name that was read: its arguments are between parentheses. -/
theorem callOf_continues {name name' : Token} (hname : b.Like name name') : Continues b r n read
    (callOf r name) (callOf r' name') (fun _ => False) fun _ _ => True := by
  refine .node (callArguments_mirrors hr).inner fun args args' hargs => ?_
  exact .finish hname.place fun span span' hspan => by simp_all [Seam.Like, Viewable.view]

/-- A part that is glued to a word. -/
theorem wordPart_continues : Continues b r n false (do
      if gluedPart (← here) TokenKind.isWordPart then return some (← dottedPart) else return none)
    (do
      if gluedPart (← here) TokenKind.isWordPart then return some (← dottedPart) else return none)
    (Loose False False) (Takes n) := by
  refine fun c hc => .here ?_
  rw [Seam.gluedPart_image hc.meets hc.begun rfl rfl]
  refine .ite (fun hglued => ?_) fun _ => .pure hc.meets rfl trivial
  refine dottedPart_tallies hc.meets rfl rfl hglued fun hc₂ hlt hlike _ _ => ?_
  exact .pure hc₂ (congrArg some hlike) (Nat.lt_of_lt_of_le hlt hc.le)

/-- Where no part is glued to a word, nothing was read. -/
theorem wordPart_none (c : Cursor) : Yields c (fun part c' => part = none → c' = c) (do
    if gluedPart (← here) TokenKind.isWordPart then return some (← dottedPart) else return none) :=
  .here (.ite (fun _ => .skip fun _ _ => .pure nofun) fun _ => .pure fun _ => rfl)

include hr in
/-- A word goes on as long as parts are glued to it. No part begins at a cut, where a line break stands. -/
theorem bareWord_mirrors :
    Mirrors b r.fuel (fun kind => kind.isSturdy = true) (bareWord r) (bareWord r') := by
  refine .of_forms (bareWord_forms (hr.neat _)) fun c hc hin hkind => ?_
  have hmark := isMark_of_sturdy hkind
  have hend := (TokenKind.isMark_iff.mp hmark).2
  have hstart := hin.current hc.meets.tokens
  have hlt := (Cursor.advance_reads hc.meets.tokens hend).length_lt (by simp)
  have hc₁ := hc.past (hc.meets.advance_mark hmark) hlt
  refine .advance hc.meets hmark ?_
  have hparts := Keeps.collect (A := False) (E := False) hr.fuel (fun h => h.elim)
    (fun n => wordPart_continues (b := b) (r := r) (n := n)) _ c.advance hc₁.here
  -- where no part follows, the reader is still where the word ended, and asks whether arguments touch it there
  refine .bind (.learn hparts (.collect_nil wordPart_none)) ?_
  rintro parts parts' c₂ hlike hc₂ hle ⟨-, hnone⟩
  have hpast := hc₁.further hc₂ hle
  have htext := foldl_lexeme_like hlike (fun text lexeme => text ++ "." ++ lexeme) c.current.lexeme
  have hword : Tallies b c₂ (do
        return Node.word (← spanFrom c.current.span)
          (parts.foldl (fun text part => text ++ "." ++ part.lexeme) c.current.lexeme))
      (do
        return Node.word (← spanFrom (b.image c).current.span)
          (parts'.foldl (fun text part => text ++ "." ++ part.lexeme) (b.image c).current.lexeme))
      (fun _ => False) fun _ _ => True := by
    rw [hstart.lexeme, htext]
    refine Continues.finish hstart.place (fun span span' hspan => ?_) c₂ hpast
    simp_all [Seam.Like, Viewable.view]
  have hempty : parts'.isEmpty = parts.isEmpty := by
    have hlength := congrArg List.length (show parts.map (Token.view b.left) = parts'.map (Token.view b.right) from hlike)
    rw [List.length_map, List.length_map] at hlength
    rw [Bool.eq_iff_iff, List.isEmpty_iff_length_eq_zero, List.isEmpty_iff_length_eq_zero, hlength]
  rw [hempty]
  cases h : parts.isEmpty with
  | false => exact callTouches_either fun _ _ => hword
  | true =>
      obtain rfl := hnone (List.isEmpty_iff.mp h)
      rw [← Cursor.advance_previous hc.meets.tokens hend, ← Seam.previous_image_advance hc.meets.tokens hend] at hword hstart ⊢
      refine callTouches_tallies hc₂ hpast.begun fun touches => ?_
      exact .ite (fun _ => callOf_continues hr hstart _ hpast) fun _ => hword

/-- The name of a command, perhaps with a namespace. -/
theorem commandName_mirrors : Mirrors b r.fuel (fun _ => True) commandName commandName := by
  refine .of_forms commandName_forms fun c hc hin _ => .expect hc rfl rfl fun _ t' ht c₁ hc₁ => .here ?_
  rw [Seam.gluedPart_image hc₁.meets hc₁.begun rfl rfl]
  refine .ite (fun hglued => ?_) fun _ => .read fun mode => .pure hc₁.meets ?_ trivial
  · refine dottedPart_tallies hc₁.meets rfl rfl hglued fun hc₂ hlt hlike _ _ => ?_
    have hpast := hc₁.further_lt hc₂ hlt
    refine Continues.finish ht.place (fun span span' hspan => ?_) _ hpast
    have hbuiltin := b.qualified c.current.lexeme c₁.advance.current.lexeme
    simp_all [Seam.Like, Viewable.view]
  · have hbuiltin := b.builtin c.current.lexeme
    simp_all [Seam.Like, Viewable.view]

/-- A mark or a word that is glued to a path. -/
theorem pathPart_continues : Continues b r n false (do
      let c ← here
      let fits := match c.kind with
        | .symbol .dot | .symbol .dotDot | .symbol .star => true
        | kind => kind.isWordPart
      if fits && c.previous.touches c.current then return some (← advance) else return none)
    (do
      let c ← here
      let fits := match c.kind with
        | .symbol .dot | .symbol .dotDot | .symbol .star => true
        | kind => kind.isWordPart
      if fits && c.previous.touches c.current then return some (← advance) else return none)
    (Loose False False) (Takes n) := by
  intro c hc
  refine .here ?_
  change Tallies b c (if (isPathPart c.kind && c.previous.touches c.current) = true then _ else _)
    (if (isPathPart (b.image c).kind && (b.image c).previous.touches (b.image c).current) = true then _ else _) _ _
  have hsame : (isPathPart (b.image c).kind && (b.image c).previous.touches (b.image c).current) =
      (isPathPart c.kind && c.previous.touches c.current) := by
    rw [hc.meets.agrees (p := isPathPart) rfl]
    cases h : isPathPart c.kind with
    | false => rfl
    | true =>
        have hmark : c.kind.isMark = true := by
          refine TokenKind.isMark_iff.mpr ⟨fun h' => ?_, fun h' => ?_⟩ <;> (rw [h'] at h; contradiction)
        rw [Seam.touches_previous hc.meets.tokens hc.begun hmark]
  rw [hsame]
  refine .ite (fun h => ?_) fun _ => .pure hc.meets rfl trivial
  have hmark : c.kind.isMark = true := by
    have h := ((Bool.and_eq_true _ _).mp h).1
    refine TokenKind.isMark_iff.mpr ⟨fun h' => ?_, fun h' => ?_⟩ <;> (rw [h'] at h; contradiction)
  exact .next hc hmark fun t' ht => .item ht

include hr in
/-- A word of marks, likewise. -/
theorem pathWord_mirrors : Mirrors b r.fuel (fun kind => kind.isSturdy = true) (pathWord r) (pathWord r') := by
  refine .of_forms pathWord_forms fun c hc hin hkind => .opens hc (isMark_of_sturdy hkind) fun t' ht => ?_
  refine .part (.collect (A := False) (E := False) hr.fuel (fun h => h.elim) fun n => pathPart_continues) ?_
  intro parts parts' hparts
  have htext := foldl_lexeme_like hparts (fun text lexeme => text ++ lexeme) c.current.lexeme
  rw [ht.lexeme, htext]
  exact .finish ht.place fun span span' hspan => by simp_all [Seam.Like, Viewable.view]

/-! ## Commands -/

include hr in
/-- The value of a flag: the sign of an assignment counts if it touches the flag. -/
theorem flagValue_continues (hc : b.Past r n read c) :
    Tallies b c (flagValue r c.previous) (flagValue r' (b.image c).previous) (fun _ => False) fun _ _ => True := by
  have haccess : Tallies b c (do return some (← r.access)) (do return some (← r'.access)) (fun _ => False)
      fun _ _ => True :=
    Continues.node hr.access (fun value value' h => .give (like_some h)) c hc
  refine .look ?_
  by_cases hin : b.Inside c
  · have hlike := hin.current hc.meets.tokens
    rw [hlike.kind]
    split
    · next h =>
        have hmark : c.kind.isMark = true := by rw [Cursor.kind, h]; rfl
        rw [Seam.touches_previous hc.meets.tokens hc.begun hmark]
        refine .ite (fun _ => ?_) fun _ => .pure hc.meets rfl trivial
        exact .next hc hmark fun _ _ => .node hr.unary fun value value' h => .give (like_some h)
    · exact haccess
    · exact haccess
    · exact haccess
    · exact haccess
    · exact .ite (fun _ => .pure hc.meets rfl trivial) fun _ => haccess
    · exact .pure hc.meets rfl trivial
  · obtain ⟨hend, hbreak⟩ := hc.meets.at_cut hin
    rw [Cursor.kind] at hend hbreak
    rw [hend, hbreak]
    exact .pure hc.meets rfl trivial

include hr in
theorem longFlag_mirrors : Mirrors b r.fuel (fun kind => kind.isSturdy = true) (longFlag r) (longFlag r') := by
  refine .of_forms (longFlag_forms (hr.neat _)) fun c hc hin hkind => ?_
  have hmark := isMark_of_sturdy hkind
  have hend := (TokenKind.isMark_iff.mp hmark).2
  have ht := hin.current hc.meets.tokens
  have hlt := (Cursor.advance_reads hc.meets.tokens hend).length_lt (by simp)
  have hc₁ := hc.past (hc.meets.advance_mark hmark) hlt
  refine .advance hc.meets hmark ?_
  rw [← Cursor.advance_previous hc.meets.tokens hend, ← Seam.previous_image_advance hc.meets.tokens hend] at ht ⊢
  refine .bind (flagValue_continues hr hc₁) fun value value' c₂ hvalue hc₂ hle _ => ?_
  refine Continues.finish ht.place (fun span span' hspan => ?_) c₂ (hc₁.further hc₂ hle)
  have hpayload := ht.payload
  simp_all [Seam.Like, Viewable.view]

include hr in
/-- An argument: a flag, a word of marks, or an expression. -/
theorem argument_mirrors : Mirrors b (r.fuel - 1) (fun _ => True) (argument r) (argument r') := by
  refine .of_forms_lt (argument_forms (hr.neat _)) fun c hc hfuel hin _ => .peek hc hin fun t' ht => ?_
  have hfresh : b.Fresh r c := ⟨hc, by omega⟩
  have hpath (hkind : c.kind.isSturdy = true) :
      Tallies b c (pathWord r) (pathWord r') (fun _ => False) fun _ _ => True :=
    (pathWord_mirrors hr).tallies hc hfresh.fuel hkind
  rw [ht.kind, ht.payload]
  split
  · next h => exact (longFlag_mirrors hr).tallies hc hfresh.fuel (by rw [Cursor.kind, h]; rfl)
  · next h =>
      refine .opens hfresh (by rw [Cursor.kind, h]; rfl) fun _ _ => .give ?_
      simp_all [Seam.Like, Viewable.view]
  · next h => exact hpath (by rw [Cursor.kind, h]; rfl)
  · next h => exact hpath (by rw [Cursor.kind, h]; rfl)
  · next h => exact hpath (by rw [Cursor.kind, h]; rfl)
  · next h => exact hpath (by rw [Cursor.kind, h]; rfl)
  · exact (hr.binary _).tallies hc hfuel trivial

include hr in
/-- Arguments are collected as long as one begins; none begins with a line break. -/
theorem commandArguments_keeps :
    Keeps b r (commandArguments r) (commandArguments r') fun _ => False := by
  refine .within (fun _ h => h) (.collect (A := False) (E := False) hr.fuel (fun h => h.elim) fun n c hc => ?_)
  refine .mode fun mode _ => .here ?_
  rw [Seam.startsArgument_image mode hc.meets]
  refine .ite (fun _ => ?_) fun _ => .pure hc.meets rfl trivial
  exact Continues.node (argument_mirrors hr) (fun arg arg' harg => .item harg) c hc

include hr in
/-- The name of a command, then its arguments. -/
theorem commandStage_mirrors : Mirrors b r.fuel (fun _ => True) (commandStage r) (commandStage r') := by
  refine .of_forms (commandStage_forms (hr.neat _)) fun c hc hin _ => ?_
  refine .node hc trivial commandName_mirrors fun name name' hname => ?_
  refine .part (commandArguments_keeps hr) fun args args' hargs => ?_
  have hplace : b.Like name.span name'.span := congrArg CommandName.span hname
  exact .finish hplace fun span span' hspan => by simp_all [Seam.Like, Viewable.view, -CommandName.view]

/-- A pipe is read with the line breaks after it, which may lead to a cut. -/
theorem pipe?_continues {goesOn : Cursor → Bool} (hgoes : ∀ c, b.Meets c → c.kind.isPipe = true →
    goesOn (b.image c) = goesOn c) : Continues b r n read (pipe? goesOn) (pipe? goesOn)
      (fun s => s ≠ none) (Takes n) := by
  refine fun c hc => .here ?_
  have hnone : Tallies b c (Pure.pure (none : Option Symbol)) (Pure.pure none) (fun s => s ≠ none) (Takes n) :=
    .pure hc.meets rfl trivial
  by_cases hin : b.Inside c
  · rw [hin.kind hc.meets.tokens]
    split
    · next s h =>
        cases hpipe : s.isPipe with
        | false => exact hnone
        | true =>
            have hmark : c.kind.isMark = true := by rw [h]; rfl
            rw [hgoes c hc.meets (by rw [h]; exact hpipe)]
            refine .ite (fun _ => .next hc hmark fun _ _ => ?_) fun _ => hnone
            refine .loosely (fun _ _ hc => .imp (skip_tallies hc.meets) fun _ _ _ => trivial)
              (fun _ _ => .pure nofun) fun _ _ _ => fun c hc => .pure hc.meets rfl (hc.lt rfl)
    · exact hnone
  · obtain ⟨hend, hbreak⟩ := hc.meets.at_cut hin
    rw [hend, hbreak]
    exact hnone

section

variable {α : Type} [Viewable α] {others others' : List (Symbol × α)}

/-- Stages that are alike are joined by the same symbols. -/
theorem stages_like (h : b.Like others others') : b.Like (others.map (·.2)) (others'.map (·.2)) ∧
    others.map (·.1) = others'.map (·.1) := by
  have h : others.map (Viewable.view b.left) = others'.map (Viewable.view b.right) := h
  have hstages := congrArg (List.map Prod.snd) h
  have hsymbols := congrArg (List.map Prod.fst) h
  simp only [List.map_map] at hstages hsymbols
  refine ⟨?_, hsymbols⟩
  change (others.map (·.2)).map (Viewable.view b.left) = (others'.map (·.2)).map (Viewable.view b.right)
  rw [List.map_map, List.map_map]
  exact hstages

/-- The last of the stages that were collected. -/
theorem getLast_like (h : b.Like others others') : b.Like others.getLast? others'.getLast? := by
  have h := congrArg List.getLast? (show others.map (Viewable.view b.left) = others'.map (Viewable.view b.right) from h)
  rwa [List.getLast?_map, List.getLast?_map] at h

/-- The last stages are alike. -/
theorem lastStage_like {first first' : α} (hfirst : b.Like first first') (h : b.Like others others') :
    b.Like (lastStage first others) (lastStage first' others') := by
  obtain ⟨a, a', ha, ha', hlike⟩ | ⟨ha, ha'⟩ := option_cases_like (getLast_like h)
  · rw [lastStage, lastStage, ha, ha']
    exact congrArg Prod.snd hlike
  · rw [lastStage, lastStage, ha, ha']
    exact hfirst

/-- What is piped into stages, one after the other. -/
theorem stages_keeps {stage stage' : Parse α} [Outlined α] {goesOn : Cursor → Bool} (hle : r.fuel ≤ r'.fuel)
    (hforms : Forms b.script .nothing (fun _ => True) stage)
    (hstage : Mirrors b (r.fuel - 1) (fun _ => True) stage stage')
    (hgoes : ∀ c, b.Meets c → c.kind.isPipe = true → goesOn (b.image c) = goesOn c) :
    Keeps b r
      (r.collect do
        match ← pipe? goesOn with
        | some s => return some (s, ← stage)
        | none => return none)
      (r'.collect do
        match ← pipe? goesOn with
        | some s => return some (s, ← stage')
        | none => return none) fun _ => False := by
  refine .collect (A := False) (E := False) hle (fun h => h.elim) fun n c hc => ?_
  refine .loosely (pipe?_continues hgoes c hc.here) (fun s hs => ?_) fun s s' c₁ hlike hc₁ hle htakes => ?_
  · cases s with
    | none => contradiction
    | some s => exact .node hforms
  · obtain ⟨s, s', rfl, rfl, hs⟩ | ⟨rfl, rfl⟩ := option_cases_like hlike
    · obtain rfl : s = s' := hs
      refine Continues.node hstage (fun a a' ha => .item ?_) c₁ (hc.further_lt hc₁ htakes)
      exact congrArg (Prod.mk s) ha
    · exact .pure hc₁ rfl trivial

end

include hr in
/-- A command and the commands that it is piped into. -/
theorem commandExpression_mirrors :
    Mirrors b r.fuel (fun _ => True) (commandExpression r) (commandExpression r') := by
  refine .of_forms (commandExpression_forms (hr.neat _)) fun c hc hin _ => ?_
  refine .node hc trivial (commandStage_mirrors hr) fun first first' hfirst => ?_
  refine .part (stages_keeps hr.fuel (commandStage_forms (hr.neat _)) (commandStage_mirrors hr).inner
    fun c hc => Seam.pipeFolds_image hc) fun others others' hothers => .give ?_
  obtain ⟨hstages, hsymbols⟩ := stages_like hothers
  have hlast := lastStage_like hfirst hothers
  have hplace {stage stage' : CommandStage Node} (h : b.Like stage stage') : b.Like stage.span stage'.span := by
    cases stage
    cases stage'
    exact congrArg CommandStage.span h
  have hspan := (hplace hfirst).covers (hplace hlast)
  simp only [Seam.Like, Viewable.view] at hfirst hstages hspan ⊢
  rw [Node.view, Node.view, CommandStage.views_eq, CommandStage.views_eq, List.map_cons, List.map_cons, hfirst, hstages,
    hsymbols]
  exact congrArg (Node.command · _ _) hspan

end ShellFront.Grammar
