import ShellFront.Proofs.Twins.Seams

/-!
# What both readers see ahead

Some productions look further than the next token. Before a cut there is always enough left of the script to
answer them: a brace has its partner there, and what calls for more is followed by something. Where there is
nothing left, a line break answers them like the end of the input.

## Contents
- The next token: `touches_next`, `touches_previous`, `gluedPart_image`, `continuing?_image`, …
- Braces: `recordShaped_image`, `barAhead_image`, `braceShape_image`.
- Lambdas, pipes and names: `lambdaAhead_image`, `pipeFolds_image`, `nameUse_image`.
- Keywords past line breaks: `significant_image`.
-/

namespace ShellFront

open Grammar

/-! ## Line breaks -/

namespace Cursor

variable {c : Cursor}

theorem rest_dropWhile (h : (c.skipWhile (· == .newline)).kind ≠ .newline) :
    c.rest.dropWhile (fun t => t.kind == .newline) = (c.skipWhile (· == .newline)).rest := by
  fun_induction skipWhile (· == .newline) c with
  | case1 before current =>
      rw [rest, List.dropWhile_cons_of_neg]
      simpa [Cursor.kind] using h
  | case2 before current next ahead hbreak ih =>
      rw [← ih h, rest, List.dropWhile_cons_of_pos (by exact hbreak)]
      rfl
  | case3 before current next ahead hbreak =>
      rw [rest, List.dropWhile_cons_of_neg (by exact hbreak)]

theorem ahead_eq_rest (hend : c.kind ≠ .endOfInput) (hahead : c.ahead ≠ []) : c.ahead = c.advance.rest := by
  obtain ⟨t, ts, hts⟩ := List.exists_cons_of_ne_nil hahead
  rw [advance, if_neg hend, hts]
  rfl

/-- A pipe goes on with the name past line breaks, unless that is called or begins a tuple. -/
theorem pipeFolds_eq {ts : List Token} (h : ts.dropWhile (fun t => t.kind == .newline) = c.rest)
    (hahead : c.ahead ≠ []) : pipeFolds ts = (c.kind == .identifier &&
      (!(c.next.kind == .symbol .openParen && c.current.touches c.next) &&
        !(c.current.lexeme == "tuple" && c.next.kind == .symbol .openBracket))) := by
  obtain ⟨t, ts, hts⟩ := List.exists_cons_of_ne_nil hahead
  rw [pipeFolds, h, rest, next, hts]
  rfl

/-- The content of braces shows in the kinds of the tokens. -/
theorem braceBody_congr {ts ts' : List Token} (h : ts.map Token.kind = ts'.map Token.kind) (depth : Int) :
    braceBody depth ts = braceBody depth ts' := by
  induction ts generalizing ts' depth with
  | nil =>
      obtain rfl := List.map_eq_nil_iff.mp h.symm
      rfl
  | cons t ts ih =>
      obtain ⟨t', ts', rfl, ht, hts⟩ := List.map_eq_cons_iff.mp h.symm
      rw [braceBody, braceBody, ht]
      simp only [ih hts.symm]

/-- Where brackets are nested, counting them is as good as keeping them. -/
theorem depth_step {stack next : List Symbol} {kind : TokenKind} (h : Watch.all.step stack kind = some next) :
    (if kind.isOpener then (stack.length : Int) + 1 else if kind.isCloser then (stack.length : Int) - 1
      else stack.length) = next.length := by
  cases kind with
  | symbol s =>
      rw [Watch.step_symbol] at h
      split at h
      · next hsees =>
          rw [Watch.stepBracket] at h
          split at h
          · next hopener =>
              rw [if_pos (show (TokenKind.symbol s).isOpener = true from hopener), ← Option.some.inj h,
                List.length_cons]
              rfl
          · next hopener =>
              -- what a watch sees and is no opener is a closer, and an open bracket is taken from the stack
              have hcloser := Watch.sees_closer hsees (Bool.eq_false_iff.mpr hopener)
              rw [if_neg (show ¬ (TokenKind.symbol s).isOpener = true from hopener),
                if_pos (show (TokenKind.symbol s).isCloser = true from hcloser)]
              cases stack with
              | nil => contradiction
              | cons o rest =>
                  rw [Watch.close] at h
                  split at h
                  · rw [← Option.some.inj h, List.length_cons]
                    omega
                  · contradiction
      · next hsees =>
          obtain ⟨hopener, hcloser⟩ := Bool.or_eq_false_iff.mp (Bool.eq_false_iff.mpr hsees)
          rw [if_neg (show ¬ (TokenKind.symbol s).isOpener = true from Bool.eq_false_iff.mp hopener),
            if_neg (show ¬ (TokenKind.symbol s).isCloser = true from Bool.eq_false_iff.mp hcloser),
            ← Option.some.inj h]
  | _ =>
      obtain rfl := Option.some.inj h
      rfl

/-- Braces end with the partner of the opening one. -/
theorem braceBody_append {inside zs : List Token} {closer : Token} {stack : List Symbol}
    (hinside : Watch.all.follow stack inside = some []) (hend : ∀ t ∈ inside, t.kind ≠ .endOfInput)
    (hcloser : closer.kind = .symbol .closeBrace) :
    braceBody stack.length (inside ++ closer :: zs) = braceBody stack.length inside := by
  induction inside generalizing stack with
  | nil =>
      obtain rfl : stack = [] := Option.some.inj hinside
      rw [List.nil_append, List.length_nil, Int.natCast_zero, braceBody, braceBody, if_pos (.inr ⟨rfl, hcloser⟩)]
  | cons t inside ih =>
      obtain ⟨next, hstep, hrest⟩ := Watch.exists_step hinside
      obtain ⟨ht, hend⟩ := List.forall_mem_cons.mp hend
      have hopen : ¬ (t.kind = .endOfInput ∨ ((stack.length : Int) = 0 ∧ t.kind = .symbol .closeBrace)) := by
        rintro (h | ⟨hlength, h⟩)
        · exact ht h
        · rw [h] at hstep
          rw [Watch.step_closeBrace rfl hstep, List.length_cons] at hlength
          omega
      rw [List.cons_append, braceBody, braceBody, if_neg hopen, if_neg hopen]
      simp only [depth_step hstep, ih hrest hend]

/-- Two texts whose tokens are of the same kinds as far as the partner of a brace have bodies of the same shape there,
    whatever comes after them. -/
theorem braceBody_paired {inside ys xs' : List Token} {closer : Token} (hnested : Nested inside)
    (hend : ∀ t ∈ inside, t.kind ≠ .endOfInput) (hcloser : closer.kind = .symbol .closeBrace)
    (hkinds : (inside ++ closer :: ys).map Token.kind = xs'.map Token.kind) (zs zs' : List Token) :
    braceBody 0 (xs' ++ zs') = braceBody 0 (inside ++ closer :: zs) := by
  rw [List.map_append, List.map_cons] at hkinds
  obtain ⟨inside', rest', rfl, hinside', hrest'⟩ := List.map_eq_append_iff.mp hkinds.symm
  obtain ⟨closer', ys', rfl, hcloser', -⟩ := List.map_eq_cons_iff.mp hrest'
  have hnested' : Nested inside' := by
    rw [Nested, ← hnested, Watch.follow, Watch.follow, ← List.foldlM_map (f := Token.kind)
      (g := fun stack kind => Watch.all.step stack kind), hinside', List.foldlM_map]
  have hend' : ∀ t ∈ inside', t.kind ≠ .endOfInput := by
    intro t ht h
    have hmem : t.kind ∈ inside.map Token.kind := by
      rw [← hinside']
      exact List.mem_map_of_mem ht
    obtain ⟨u, hu, hkind⟩ := List.mem_map.mp hmem
    exact hend u hu (hkind.trans h)
  calc braceBody 0 (inside' ++ closer' :: ys' ++ zs') = braceBody 0 inside' := by
        rw [List.append_assoc, List.cons_append]
        exact braceBody_append hnested' hend' (hcloser'.trans hcloser)
    _ = braceBody 0 inside := braceBody_congr hinside' 0
    _ = braceBody 0 (inside ++ closer :: zs) := (braceBody_append hnested hend hcloser).symm

end Cursor

namespace Seam

variable {b : Seam} {c : Cursor}

/-! ## The next token -/

theorem getElem?_tokens (hc : c.tokens = b.script.tokens) : b.script.tokens[c.index]? = some c.current := by
  rw [← hc, Cursor.tokens, List.getElem?_append_right (by rw [List.length_reverse]; exact Nat.le_refl _),
    List.length_reverse, Cursor.index, Nat.sub_self]
  rfl

theorem getElem?_twins (hc : c.tokens = b.script.tokens) : b.twins[c.index]? = some (b.image c).current := by
  obtain ⟨t, ts, hdrop, himage⟩ := image_eq hc
  rw [himage, ← List.head?_drop, hdrop, List.head?_cons]

/-- Reading on, if the script does not end with a line break there. -/
theorem Meets.advance_of (h : b.Meets c) (hend : c.kind ≠ .endOfInput)
    (hmore : b.cut = true → c.advance.ahead ≠ []) : b.Meets c.advance := by
  have hread := Cursor.advance_reads h.tokens hend
  have hbefore : c.advance.before ≠ [] := by
    rw [hread.before]
    exact List.append_ne_nil_of_left_ne_nil (by simp) _
  exact ⟨hread.tokens_eq.trans h.tokens, fun _ hnil => absurd hnil hbefore,
    fun hcut hahead => absurd hahead (hmore hcut)⟩

theorem ahead_ne_nil (hc : c.tokens = b.script.tokens) (hend : c.kind ≠ .endOfInput) : c.ahead ≠ [] :=
  fun h => hend (Cursor.kind_of_ahead_nil hc h)

theorem current_image_advance (hc : c.tokens = b.script.tokens) (hend : c.kind ≠ .endOfInput) :
    (b.image c.advance).current = (b.image c).next := by
  have hin := inside_of_kind hc hend
  rw [← image_advance hin hc hend, Cursor.current_advance (by rwa [hin.kind hc])]

theorem previous_image_advance (hc : c.tokens = b.script.tokens) (hend : c.kind ≠ .endOfInput) :
    (b.image c.advance).previous = (b.image c).current := by
  obtain ⟨before, current, ahead⟩ := c
  cases ahead with
  | nil => exact absurd (Cursor.kind_of_ahead_nil hc rfl) hend
  | cons next ahead =>
      obtain ⟨t, u, us, himage, himage'⟩ := image_step hc
      rw [Cursor.advance, if_neg hend, himage, himage']
      rfl

theorem ahead_image (hc : c.tokens = b.script.tokens) (hend : c.kind ≠ .endOfInput) :
    (b.image c).ahead = (b.image c.advance).rest := by
  obtain ⟨t, ts, hdrop, himage⟩ := image_eq ((Cursor.advance_reads hc hend).tokens_eq.trans hc)
  have hindex : c.advance.index = c.index + 1 := by
    rw [Cursor.index, (Cursor.advance_reads hc hend).before]
    simp only [List.length_append, List.length_reverse, List.length_cons, List.length_nil, Cursor.index]
    omega
  rw [image_ahead hc, ← hindex, hdrop, himage]
  rfl

theorem next_agrees {γ : Type} {p : TokenKind → γ} (hc : b.Meets c) (hkind : c.kind.isMark = true)
    (hp : p .newline = p .endOfInput) : p (b.image c).next.kind = p c.next.kind := by
  have hend := (TokenKind.isMark_iff.mp hkind).2
  have hnext := (hc.advance_mark hkind).agrees hp
  rwa [Cursor.kind, Cursor.kind, current_image_advance hc.tokens hend, Cursor.current_advance hend] at hnext

/-- A token touches the next one in both readings, or in none. -/
theorem touches_next (hc : c.tokens = b.script.tokens) (hend : c.kind ≠ .endOfInput)
    (h : c.next.kind.isMark = true ∨ b.script.StandsApart c.index c.current) :
    (b.image c).current.touches (b.image c).next = c.current.touches c.next := by
  have hread := Cursor.advance_reads hc hend
  have hindex : c.advance.index = c.index + 1 := by
    rw [Cursor.index, hread.before]
    simp only [List.length_append, List.length_reverse, List.length_cons, List.length_nil, Cursor.index]
    omega
  have htoken := getElem?_tokens (hread.tokens_eq.trans hc)
  have htwin := getElem?_twins (hread.tokens_eq.trans hc)
  rw [hindex, Cursor.current_advance hend] at htoken
  rw [hindex, current_image_advance hc hend] at htwin
  exact b.touches _ _ _ _ _ (getElem?_tokens hc) htoken (getElem?_twins hc) htwin h

/-- Where a minus sign does not touch what was read before it, it stands apart. -/
theorem standsApart (hc : c.tokens = b.script.tokens) (hbefore : c.before ≠ []) (hkind : c.kind = .symbol .minus)
    (hprevious : c.previous.touches c.current = false) : b.script.StandsApart c.index c.current := by
  obtain ⟨before, current, ahead⟩ := c
  obtain ⟨p, ps, rfl⟩ := List.exists_cons_of_ne_nil hbefore
  have hc' : Cursor.tokens ⟨ps, p, current :: ahead⟩ = b.script.tokens := by
    rw [← hc]
    simp [Cursor.tokens, Cursor.rest]
  exact ⟨hkind, ps.length, p, rfl, getElem?_tokens hc', hprevious⟩

/-- A token touches the one before it in both readings, or in none. -/
theorem touches_previous (hc : c.tokens = b.script.tokens) (hbefore : c.before ≠ [])
    (hkind : c.kind.isMark = true) :
    (b.image c).previous.touches (b.image c).current = c.previous.touches c.current := by
  obtain ⟨before, current, ahead⟩ := c
  obtain ⟨p, ps, rfl⟩ := List.exists_cons_of_ne_nil hbefore
  have hc' : Cursor.tokens ⟨ps, p, current :: ahead⟩ = b.script.tokens := by
    rw [← hc]
    simp [Cursor.tokens, Cursor.rest]
  obtain ⟨t, u, us, himage, himage'⟩ := image_step hc'
  have hend : Cursor.kind ⟨ps, p, current :: ahead⟩ ≠ .endOfInput := by
    intro hend
    have hmem : p ∈ b.script.body := by
      have hbody := congrArg List.dropLast hc'
      rw [Script.tokens, List.dropLast_concat] at hbody
      rw [← hbody, Cursor.tokens, Cursor.rest, List.dropLast_append_cons, List.dropLast_cons_cons]
      simp
    exact b.script.kinds p hmem hend
  have htouches := touches_next hc' hend (.inl hkind)
  rw [himage] at htouches
  rw [himage']
  exact htouches

theorem gluedPart_image {part : TokenKind → Bool} (hc : b.Meets c) (hbegun : c.before ≠ [])
    (hbreak : part .newline = false) (hend : part .endOfInput = false) :
    gluedPart (b.image c) part = gluedPart c part := by
  have hdot : ((b.image c).kind == .symbol .dot) = (c.kind == .symbol .dot) :=
    hc.agrees (p := (· == .symbol .dot)) rfl
  rw [gluedPart, gluedPart, hdot]
  cases hkind : c.kind == .symbol .dot with
  | false => rfl
  | true =>
      have hmark : c.kind.isMark = true := by rw [eq_of_beq hkind]; rfl
      rw [next_agrees (p := part) hc hmark (by rw [hbreak, hend]), touches_previous hc.tokens hbegun hmark]
      cases hpart : part c.next.kind with
      | false => simp only [Bool.and_false]
      | true =>
          have hnext : c.next.kind.isMark = true := by
            refine TokenKind.isMark_iff.mpr ⟨fun h => ?_, fun h => ?_⟩
            · rw [h, hbreak] at hpart
              contradiction
            · rw [h, hend] at hpart
              contradiction
          rw [touches_next hc.tokens (TokenKind.isMark_iff.mp hmark).2 (.inl hnext)]

theorem continuing?_image (mode : Mode) (least : Nat) (hc : b.Meets c) (hbegun : c.before ≠ []) :
    continuing? mode least (b.image c) = continuing? mode least c := by
  have hoperator : Operator.ofToken? (b.image c).kind = Operator.ofToken? c.kind := hc.agrees rfl
  have hnegative : startsNegative (b.image c) = startsNegative c := by
    have hminus : ((b.image c).kind == .symbol .minus) = (c.kind == .symbol .minus) :=
      hc.agrees (p := (· == .symbol .minus)) rfl
    rw [startsNegative, startsNegative, hminus]
    cases hkind : c.kind == .symbol .minus with
    | false => rfl
    | true =>
        have hkind := eq_of_beq hkind
        rw [touches_previous hc.tokens hbegun (by rw [hkind]; rfl)]
        cases hprevious : c.previous.touches c.current with
        | true => rfl
        | false =>
            rw [touches_next hc.tokens (by rw [hkind]; nofun) (.inr (standsApart hc.tokens hbegun hkind hprevious))]
  rw [continuing?, continuing?, hoperator, hnegative]

theorem assignmentAhead_image (hc : b.Meets c) : assignmentAhead (b.image c) = assignmentAhead c := by
  have hvariable : ((b.image c).kind == .variableName) = (c.kind == .variableName) :=
    hc.agrees (p := (· == .variableName)) rfl
  rw [assignmentAhead, assignmentAhead, hvariable]
  cases hkind : c.kind == .variableName with
  | false => rfl
  | true =>
      have hmark : c.kind.isMark = true := by rw [eq_of_beq hkind]; rfl
      rw [next_agrees (p := TokenKind.isAssignment) hc hmark rfl]

/-! ## What is left -/

/-- What is left of a script and of its twin. -/
theorem exists_ahead (hc : c.tokens = b.script.tokens) (hahead : c.ahead ≠ []) :
    ∃ xs xs', c.ahead = xs ++ [b.script.last] ∧ (b.image c).ahead = xs' ++ b.ending :: b.after ∧
      b.script.body = c.before.reverse ++ c.current :: xs ∧
      xs.map (Token.view b.left) = xs'.map (Token.view b.right) := by
  obtain ⟨xs, t, hxs⟩ := (List.eq_nil_or_concat c.ahead).resolve_left hahead
  rw [List.concat_eq_append] at hxs
  have hlength := length_body hc
  rw [hxs, List.length_append, List.length_singleton] at hlength
  rw [Cursor.tokens, Cursor.rest, hxs, Script.tokens, ← List.cons_append, ← List.append_assoc] at hc
  obtain ⟨hbody, hlast⟩ := List.append_inj' hc rfl
  rw [List.singleton_inj.mp hlast] at hxs
  refine ⟨xs, b.twin.drop (c.index + 1), hxs, ?_, hbody.symm, ?_⟩
  · rw [image_ahead (by rw [Cursor.tokens, Cursor.rest, hxs, Script.tokens, ← hbody]; simp), twins,
      List.drop_append_of_le_length (by rw [length_twin]; omega)]
  · rw [List.map_drop, ← b.alike, ← hbody, ← List.map_drop, Cursor.index, ← List.drop_drop,
      List.drop_left' (by rw [List.length_reverse]), List.drop_one, List.tail_cons]

theorem ahead_of_end (hc : c.tokens = b.script.tokens) (hend : c.kind = .endOfInput) : c.ahead = [] := by
  by_contra hahead
  obtain ⟨xs, -, -, -, hbody, -⟩ := exists_ahead hc hahead
  exact b.script.kinds c.current (by rw [hbody]; simp) hend

/-- Before a cut, something follows what calls for more. -/
theorem exists_more (hcut : b.cut = true) (hc : c.tokens = b.script.tokens) (hmark : c.kind.isMark = true)
    (hkind : c.kind.isFirm = false) : ∃ t ∈ c.ahead, t.kind.isMark = true := by
  have hend := (TokenKind.isMark_iff.mp hmark).2
  obtain ⟨xs, -, hxs, -, hbody, -⟩ := exists_ahead hc (ahead_ne_nil hc hend)
  by_contra hnone
  have hbreaks : ∀ y ∈ xs, y.kind = .newline := by
    intro y hy
    by_contra hy'
    refine hnone ⟨y, by rw [hxs]; exact List.mem_append_left _ hy, TokenKind.isMark_iff.mpr ⟨hy', ?_⟩⟩
    exact b.script.kinds y (by rw [hbody]; exact List.mem_append_right _ (List.mem_cons_of_mem _ hy))
  rcases b.firm hcut _ _ _ hbody hbreaks with h | h
  · exact (TokenKind.isMark_iff.mp hmark).1 h
  · rw [Cursor.kind, h] at hkind
    contradiction

/-- Before a cut, a brace has its partner. -/
theorem exists_partner (hcut : b.cut = true) (hc : c.tokens = b.script.tokens)
    (hkind : c.kind = .symbol .openBrace) : ∃ inside closer zs, c.ahead = inside ++ closer :: zs ∧ zs ≠ [] ∧
      closer.kind = .symbol .closeBrace ∧ Nested inside ∧ ∀ t ∈ inside, t.kind ≠ .endOfInput := by
  have hahead := inside_of_kind hc (by rw [hkind]; nofun) hcut
  obtain ⟨xs, -, hxs, -, hbody, -⟩ := exists_ahead hc hahead
  have hnested := b.nested hcut
  rw [hbody] at hnested
  obtain ⟨inside, closer, after, rfl, hcloser, hinside⟩ := hnested.exists_paired hkind
  refine ⟨inside, closer, after ++ [b.script.last], by rw [hxs, List.append_assoc]; rfl, by simp, hcloser, hinside,
    fun t ht => b.script.kinds t ?_⟩
  rw [hbody]
  exact List.mem_append_right _ (List.mem_cons_of_mem _ (List.mem_append_left _ ht))

/-- Line breaks are skipped in vain if nothing else follows. -/
theorem skipWhile_inside (hc : c.tokens = b.script.tokens)
    (hmore : b.cut = true → ∃ t ∈ c.rest, t.kind.isMark = true) :
    b.Inside (c.skipWhile (· == .newline)) := by
  intro hcut hahead
  obtain ⟨ts, hread, hts⟩ := c.skipWhile_reads (· == .newline)
  obtain ⟨t, ht, hmark⟩ := hmore hcut
  have hend := Cursor.kind_of_ahead_nil (hread.tokens_eq.trans hc) hahead
  rw [hread.rest, Cursor.rest, hahead] at ht
  obtain ⟨hbreak, hmark⟩ := TokenKind.isMark_iff.mp hmark
  rcases List.mem_append.mp ht with ht | ht
  · exact hbreak (eq_of_beq (hts t ht))
  · rw [List.mem_singleton.mp ht] at hmark
    exact hmark hend

/-! ## Braces and pipes -/

/-- Something is seen past line breaks in both readings. -/
theorem Meets.past_breaks (hc : b.Meets c) (hmark : c.kind.isMark = true)
    (hmore : b.cut = true → ∃ t ∈ c.ahead, t.kind.isMark = true) :
    ∃ d, b.Meets d ∧ b.Inside d ∧ d.before ≠ [] ∧ d.kind ≠ .newline ∧
      c.ahead.dropWhile (fun t => t.kind == .newline) = d.rest ∧
      (b.image c).ahead.dropWhile (fun t => t.kind == .newline) = (b.image d).rest := by
  have hend := (TokenKind.isMark_iff.mp hmark).2
  have hahead := Cursor.ahead_eq_rest hend (ahead_ne_nil hc.tokens hend)
  have hc₁ := hc.advance_mark hmark
  have hin := skipWhile_inside hc₁.tokens (hahead ▸ hmore)
  have hstop := ne_of_beq_false (Cursor.kind_skipWhile (p := (· == .newline)) rfl hc₁.tokens)
  have hd := hc₁.skipWhile hin
  have himage := image_skipWhile hc₁.tokens hin
  obtain ⟨ts, hread, -⟩ := c.advance.skipWhile_reads (· == .newline)
  refine ⟨_, hd, hin, ?_, hstop, ?_, ?_⟩
  · rw [hread.before, (Cursor.advance_reads hc.tokens hend).before]
    simp
  · rw [hahead, Cursor.rest_dropWhile hstop]
  · rw [ahead_image hc.tokens hend, Cursor.rest_dropWhile (by rwa [himage, hin.kind hd.tokens]), himage]

/-- Before a cut, something follows a brace. -/
theorem more_of_brace (hc : c.tokens = b.script.tokens) (hkind : c.kind = .symbol .openBrace) :
    b.cut = true → ∃ t ∈ c.ahead, t.kind.isMark = true := by
  intro hcut
  obtain ⟨inside, closer, zs, hahead, -, hcloser, -⟩ := exists_partner hcut hc hkind
  exact ⟨closer, by rw [hahead]; simp, by rw [hcloser]; rfl⟩

theorem recordShaped_image (hc : b.Meets c) (hkind : c.kind = .symbol .openBrace) :
    Cursor.recordShaped (b.image c).ahead = Cursor.recordShaped c.ahead := by
  obtain ⟨d, hd, hin, -, -, hahead, hahead'⟩ :=
    hc.past_breaks (by rw [hkind]; rfl) (more_of_brace hc.tokens hkind)
  have hcolon (hmark : d.kind.isMark = true) : Cursor.headIs (.symbol .colon) (b.image d).ahead =
      Cursor.headIs (.symbol .colon) d.ahead := by
    have hend := (TokenKind.isMark_iff.mp hmark).2
    rw [ahead_image hd.tokens hend, Cursor.ahead_eq_rest hend (ahead_ne_nil hd.tokens hend)]
    exact (hd.advance_mark hmark).agrees (p := (· == .symbol .colon)) rfl
  have hsame : (b.image d).current.kind = d.current.kind := hin.kind hd.tokens
  rw [Cursor.recordShaped, Cursor.recordShaped, hahead, hahead', Cursor.rest, Cursor.rest]
  dsimp only
  rw [hsame]
  split
  · rfl
  · next h => exact hcolon (by rw [Cursor.kind, h]; rfl)
  · next h => exact hcolon (by rw [Cursor.kind, h]; rfl)
  · rfl

theorem barAhead_image (hc : b.Meets c) (hkind : c.kind = .symbol .openBrace) :
    barAhead (b.image c).ahead = barAhead c.ahead := by
  obtain ⟨d, hd, hin, -, -, hahead, hahead'⟩ :=
    hc.past_breaks (by rw [hkind]; rfl) (more_of_brace hc.tokens hkind)
  have hsame : (b.image d).current.kind = d.current.kind := hin.kind hd.tokens
  rw [barAhead, barAhead, hahead, hahead', Cursor.rest, Cursor.rest]
  dsimp only
  rw [hsame]

theorem kinds_like {xs xs' : List Token} (h : xs.map (Token.view b.left) = xs'.map (Token.view b.right)) :
    xs.map Token.kind = xs'.map Token.kind := by
  have h := congrArg (List.map Token.kind) h
  simpa only [List.map_map, Function.comp_def, Token.view] using h

theorem braceShape_image (hc : b.Meets c) (hkind : c.kind = .symbol .openBrace) :
    Cursor.braceShape (b.image c).ahead = Cursor.braceShape c.ahead := by
  suffices h : Cursor.braceBody 0 (b.image c).ahead = Cursor.braceBody 0 c.ahead by
    rw [Cursor.braceShape, Cursor.braceShape, h]
  have hahead := ahead_ne_nil hc.tokens (by rw [hkind]; nofun)
  obtain ⟨xs, xs', hxs, hxs', hbody, hlike⟩ := exists_ahead hc.tokens hahead
  have hkinds := kinds_like hlike
  cases hcut : b.cut with
  | false =>
      obtain ⟨hlast, hafter⟩ := b.whole hcut
      have hlast : b.script.last.kind = b.ending.kind := (show b.Like b.script.last b.ending from hlast).kind.symm
      refine Cursor.braceBody_congr ?_ 0
      rw [hxs, hxs', hafter, List.map_append, List.map_append, hkinds, List.map_singleton, List.map_singleton, hlast]
  | true =>
      obtain ⟨inside, closer, zs, hsplit, hzs, hcloser, hnested, hend⟩ := exists_partner hcut hc.tokens hkind
      obtain ⟨ys, y, hys⟩ := (List.eq_nil_or_concat zs).resolve_left hzs
      have hxs₁ : xs = inside ++ closer :: ys := by
        rw [hxs, hys, List.concat_eq_append, ← List.cons_append, ← List.append_assoc] at hsplit
        exact (List.append_inj' hsplit rfl).1
      rw [hxs', hsplit]
      exact Cursor.braceBody_paired hnested hend hcloser (hxs₁ ▸ hkinds) _ _

theorem pipeFolds_image (hc : b.Meets c) (hkind : c.kind.isPipe = true) :
    Cursor.pipeFolds (b.image c).ahead = Cursor.pipeFolds c.ahead := by
  have hmark : c.kind.isMark = true := by
    refine TokenKind.isMark_iff.mpr ⟨fun h => ?_, fun h => ?_⟩ <;>
      (rw [h] at hkind; contradiction)
  have hfirm : c.kind.isFirm = false := by
    cases h : c.kind with
    | symbol s => rw [h] at hkind; cases s <;> first | rfl | contradiction
    | _ => rw [h] at hkind; contradiction
  -- a bar calls for more, so the script goes on behind the line breaks that may follow it
  obtain ⟨d, hd, hin, hbegun, -, hahead, hahead'⟩ :=
    hc.past_breaks hmark fun hcut => exists_more hcut hc.tokens hmark hfirm
  have hlike := hin.current hd.tokens
  have hsame : (b.image d).kind = d.kind := hlike.kind
  by_cases hname : d.kind = .identifier
  · have hmark : d.kind.isMark = true := by rw [hname]; rfl
    have hend := (TokenKind.isMark_iff.mp hmark).2
    have hparen := next_agrees (p := (· == .symbol .openParen)) hd hmark rfl
    have hbracket := next_agrees (p := (· == .symbol .openBracket)) hd hmark rfl
    -- only a parenthesis can touch the name, and then the two tokens lie within the script
    have htouches : ((b.image d).next.kind == .symbol .openParen &&
        (b.image d).current.touches (b.image d).next) =
          (d.next.kind == .symbol .openParen && d.current.touches d.next) := by
      rw [hparen]
      cases hopen : d.next.kind == .symbol .openParen with
      | false => rfl
      | true => rw [touches_next hd.tokens hend (.inl (by rw [eq_of_beq hopen]; rfl))]
    rw [Cursor.pipeFolds_eq hahead (ahead_ne_nil hd.tokens hend), Cursor.pipeFolds_eq hahead' (by
      rw [ahead_image hd.tokens hend, Cursor.rest]; exact List.cons_ne_nil _ _), hsame, htouches, hbracket, hlike.lexeme]
  · have hno : (d.current.kind == .identifier) = false := beq_eq_false_iff_ne.mpr hname
    have hno' : ((b.image d).current.kind == .identifier) = false := by rw [hlike.kind, hno]
    rw [Cursor.pipeFolds, Cursor.pipeFolds, hahead, hahead', Cursor.rest, Cursor.rest]
    dsimp only
    rw [hno, hno', Bool.false_and, Bool.false_and]

/-! ## Lambdas and names -/

theorem opensLambdaBody_image (hc : b.Meets c) :
    Cursor.opensLambdaBody (b.image c).rest = Cursor.opensLambdaBody c.rest := by
  have harrow := hc.agrees (p := (· == .symbol .arrow)) rfl
  have hbrace := hc.agrees (p := (· == .symbol .openBrace)) rfl
  rw [Cursor.opensLambdaBody, Cursor.opensLambdaBody]
  exact congrArg₂ _ harrow hbrace

/-- A colon is read with what follows it. -/
theorem Meets.advance_twice (hc : b.Meets c) (hkind : c.kind = .symbol .colon)
    (hend : c.advance.kind ≠ .endOfInput) : b.Meets c.advance.advance := by
  have hmark : c.kind.isMark = true := by rw [hkind]; rfl
  have hc₁ := hc.advance_mark hmark
  by_cases hbreak : c.advance.kind = .newline
  · refine hc₁.advance_of hend fun hcut hahead => ?_
    obtain ⟨t, ht, hmark'⟩ := exists_more hcut hc.tokens hmark (by rw [hkind]; rfl)
    have hne := (TokenKind.isMark_iff.mp hmark).2
    rw [Cursor.ahead_eq_rest hne (ahead_ne_nil hc.tokens hne), Cursor.rest,
      Cursor.ahead_eq_rest hend (ahead_ne_nil hc₁.tokens hend), Cursor.rest, hahead] at ht
    have hlast := Cursor.kind_of_ahead_nil ((Cursor.advance_reads hc₁.tokens hend).tokens_eq.trans hc₁.tokens) hahead
    obtain ⟨hbreak', hend'⟩ := TokenKind.isMark_iff.mp hmark'
    rcases List.mem_cons.mp ht with rfl | ht
    · exact hbreak' hbreak
    · rw [List.mem_singleton.mp ht] at hend'
      exact hend' hlast
  · exact hc₁.advance hend hbreak

theorem drop_rest (hc : c.tokens = b.script.tokens) (hend : c.kind ≠ .endOfInput) (n : Nat) :
    c.rest.drop (n + 1) = c.advance.rest.drop n := by
  rw [Cursor.rest, List.drop_succ_cons, Cursor.ahead_eq_rest hend (ahead_ne_nil hc hend)]

theorem drop_image_rest (hc : c.tokens = b.script.tokens) (hend : c.kind ≠ .endOfInput) (n : Nat) :
    (b.image c).rest.drop (n + 1) = (b.image c.advance).rest.drop n := by
  rw [Cursor.rest, List.drop_succ_cons, ahead_image hc hend]

/-- Where a colon is the last token there is no cut, and so nothing comes after it in either reading. -/
theorem Meets.nothing_after (hc : b.Meets c) (hkind : c.kind = .symbol .colon)
    (hlast : c.advance.kind = .endOfInput) : c.advance.ahead = [] ∧ (b.image c.advance).ahead = [] := by
  have hmark : c.kind.isMark = true := by rw [hkind]; rfl
  have hend := (TokenKind.isMark_iff.mp hmark).2
  have htokens := (hc.advance_mark hmark).tokens
  have hnil := ahead_of_end htokens hlast
  refine ⟨hnil, ?_⟩
  have hcut : b.cut = false := by
    refine Bool.eq_false_iff.mpr fun hcut => ?_
    obtain ⟨t, ht, hmark'⟩ := exists_more hcut hc.tokens hmark (by rw [hkind]; rfl)
    rw [Cursor.ahead_eq_rest hend (ahead_ne_nil hc.tokens hend), Cursor.rest, hnil] at ht
    rw [List.mem_singleton.mp ht] at hmark'
    exact (TokenKind.isMark_iff.mp hmark').2 hlast
  have hlength := length_body htokens
  rw [hnil, List.length_nil] at hlength
  rw [image_ahead htokens, twins, (b.whole hcut).2, List.drop_eq_nil_of_le]
  rw [List.length_append, length_twin, List.length_singleton, hlength]

/-- A hint is passed over in both readings. -/
theorem afterHint_image (hc : b.Meets c) :
    (Cursor.afterHint c.rest = [] ∧ Cursor.afterHint (b.image c).rest = []) ∨
      ∃ d, b.Meets d ∧ d.ahead.length ≤ c.ahead.length ∧ Cursor.afterHint c.rest = d.rest ∧
        Cursor.afterHint (b.image c).rest = (b.image d).rest := by
  have hcolon : Cursor.headIs (.symbol .colon) (b.image c).rest = Cursor.headIs (.symbol .colon) c.rest :=
    hc.agrees (p := (· == .symbol .colon)) rfl
  rw [Cursor.afterHint, Cursor.afterHint, hcolon]
  cases hkind : Cursor.headIs (.symbol .colon) c.rest with
  | false => exact .inr ⟨c, hc, Nat.le_refl _, rfl, rfl⟩
  | true =>
      have hkind : c.kind = .symbol .colon := eq_of_beq hkind
      have hmark : c.kind.isMark = true := by rw [hkind]; rfl
      have hend := (TokenKind.isMark_iff.mp hmark).2
      have hc₁ := hc.advance_mark hmark
      have hrest := drop_rest hc.tokens hend
      have hrest' := drop_image_rest hc.tokens hend
      rw [if_pos rfl, if_pos rfl, hrest, hrest', hrest, hrest']
      -- the colon may be the last token of a script that is not cut, and then nothing follows in either reading
      by_cases hlast : c.advance.kind = .endOfInput
      · obtain ⟨hnil, hnil'⟩ := hc.nothing_after hkind hlast
        left
        rw [Cursor.rest, Cursor.rest, hnil, hnil']
        exact ⟨rfl, rfl⟩
      · have hc₂ := hc.advance_twice hkind hlast
        have hrest₁ := drop_rest hc₁.tokens hlast
        have hrest₁' := drop_image_rest hc₁.tokens hlast
        rw [hrest₁, hrest₁', hrest₁, hrest₁']
        have hle₁ := c.length_ahead_advance
        have hle₂ := c.advance.length_ahead_advance
        have hquestion : Cursor.headIs (.symbol .question) (b.image c.advance.advance).rest =
            Cursor.headIs (.symbol .question) c.advance.advance.rest :=
          hc₂.agrees (p := (· == .symbol .question)) rfl
        rw [List.drop_zero, List.drop_zero, hquestion]
        right
        -- the type may be followed by a question mark, which is passed over too
        cases hoptional : Cursor.headIs (.symbol .question) c.advance.advance.rest with
        | false => exact ⟨c.advance.advance, hc₂, by omega, rfl, rfl⟩
        | true =>
            have hoptional : c.advance.advance.kind = .symbol .question := eq_of_beq hoptional
            have hmark₂ : c.advance.advance.kind.isMark = true := by rw [hoptional]; rfl
            have hend₂ := (TokenKind.isMark_iff.mp hmark₂).2
            have hle₃ := c.advance.advance.length_ahead_advance
            refine ⟨c.advance.advance.advance, hc₂.advance_mark hmark₂, by omega, ?_, ?_⟩
            · rw [if_pos rfl]
              exact drop_rest hc₂.tokens hend₂ 0
            · rw [if_pos rfl]
              exact drop_image_rest hc₂.tokens hend₂ 0

theorem parametersAhead_image (hc : b.Meets c) :
    Cursor.parametersAhead (b.image c).rest = Cursor.parametersAhead c.rest := by
  induction hn : c.ahead.length using Nat.strongRecOn generalizing c with
  | ind n ih =>
      have hname : ((b.image c).current.kind == .variableName || (b.image c).current.kind == .identifier) =
          (c.current.kind == .variableName || c.current.kind == .identifier) :=
        hc.agrees (p := fun kind => kind == .variableName || kind == .identifier) rfl
      rw [Cursor.rest, Cursor.rest, Cursor.parametersAhead, Cursor.parametersAhead, hname]
      cases hkind : c.current.kind == .variableName || c.current.kind == .identifier with
      | false => rfl
      | true =>
          have hmark : c.kind.isMark = true := by
            rcases (Bool.or_eq_true _ _).mp hkind with h | h <;> (rw [Cursor.kind, eq_of_beq h]; rfl)
          have hend := (TokenKind.isMark_iff.mp hmark).2
          have hlt := (Cursor.advance_reads hc.tokens hend).length_lt (by simp)
          rw [if_pos rfl, if_pos rfl, ahead_image hc.tokens hend,
            Cursor.ahead_eq_rest hend (ahead_ne_nil hc.tokens hend)]
          -- the name is read, and a hint after it; what decides next stands behind the hint
          obtain ⟨hnil, hnil'⟩ | ⟨d, hd, hle, hrest, hrest'⟩ := afterHint_image (hc.advance_mark hmark)
          · rw [hnil, hnil']
          · rw [hrest, hrest']
            have hcomma : Cursor.headIs (.symbol .comma) (b.image d).rest =
                Cursor.headIs (.symbol .comma) d.rest := hd.agrees (p := (· == .symbol .comma)) rfl
            have hpipe : Cursor.headIs (.symbol .pipe) (b.image d).rest =
                Cursor.headIs (.symbol .pipe) d.rest := hd.agrees (p := (· == .symbol .pipe)) rfl
            have hnext (hmark : d.kind.isMark = true) : d.rest.drop 1 = d.advance.rest ∧
                (b.image d).rest.drop 1 = (b.image d.advance).rest := by
              have hend := (TokenKind.isMark_iff.mp hmark).2
              exact ⟨drop_rest hd.tokens hend 0, drop_image_rest hd.tokens hend 0⟩
            dsimp only
            rw [hcomma, hpipe]
            split
            · -- a comma: the induction goes on behind it
              next h =>
                have h : d.kind = .symbol .comma := eq_of_beq h
                have hmark : d.kind.isMark = true := by rw [h]; rfl
                obtain ⟨hdrop, hdrop'⟩ := hnext hmark
                have hlt' := (Cursor.advance_reads hd.tokens (TokenKind.isMark_iff.mp hmark).2).length_lt (by simp)
                rw [hdrop, hdrop']
                exact ih _ (by omega) (hd.advance_mark hmark) rfl
            · -- a bar ends the parameters, if what follows can be the body of a lambda
              cases h : Cursor.headIs (.symbol .pipe) d.rest with
              | false => rfl
              | true =>
                  have h : d.kind = .symbol .pipe := eq_of_beq h
                  have hmark : d.kind.isMark = true := by rw [h]; rfl
                  obtain ⟨hdrop, hdrop'⟩ := hnext hmark
                  rw [hdrop, hdrop', opensLambdaBody_image (hd.advance_mark hmark)]

theorem lambdaAhead_image (hc : b.Meets c) (hmark : c.kind.isMark = true) :
    (b.image c).lambdaAhead = c.lambdaAhead := by
  have hend := (TokenKind.isMark_iff.mp hmark).2
  have hc₁ := hc.advance_mark hmark
  rw [Cursor.lambdaAhead, Cursor.lambdaAhead, (inside_of_kind hc.tokens hend).kind hc.tokens,
    ahead_image hc.tokens hend, Cursor.ahead_eq_rest hend (ahead_ne_nil hc.tokens hend),
    opensLambdaBody_image hc₁, parametersAhead_image hc₁]

theorem startsArgument_image (mode : Mode) (hc : b.Meets c) :
    startsArgument mode (b.image c) = startsArgument mode c := by
  by_cases hmark : c.kind.isMark = true
  · rw [startsArgument, startsArgument, lambdaAhead_image hc hmark,
      (inside_of_kind hc.tokens (TokenKind.isMark_iff.mp hmark).2).kind hc.tokens]
  · -- a line break and the end of the input begin nothing
    have hbreak := hc.agrees (p := TokenKind.isMark) rfl
    rw [Bool.not_eq_true] at hmark
    rw [hmark] at hbreak
    have hnone (c : Cursor) (h : c.kind.isMark = false) : startsArgument mode c = false := by
      rw [startsArgument]
      cases hkind : c.kind <;> first | rfl | (rw [hkind] at h; contradiction)
    rw [hnone _ hmark, hnone _ hbreak]

theorem nameUse_image (mode : Mode) (hc : b.Meets c) (hkind : c.kind = .identifier) :
    nameUse mode (b.image c) = nameUse mode c := by
  have hmark : c.kind.isMark = true := by rw [hkind]; rfl
  have hend := (TokenKind.isMark_iff.mp hmark).2
  have hin := inside_of_kind hc.tokens hend
  have hc₁ := hc.advance_mark hmark
  have hlexeme := (hin.current hc.tokens).lexeme
  have hbracket := next_agrees (p := (· == .symbol .openBracket)) hc hmark rfl
  have hparen := next_agrees (p := (· == .symbol .openParen)) hc hmark rfl
  have hbrace := next_agrees (p := (· == .symbol .openBrace)) hc hmark rfl
  have hcall : ((b.image c).next.kind == .symbol .openParen && (b.image c).current.touches (b.image c).next) =
      (c.next.kind == .symbol .openParen && c.current.touches c.next) := by
    rw [hparen]
    cases hopen : c.next.kind == .symbol .openParen with
    | false => rfl
    | true => rw [touches_next hc.tokens hend (.inl (by rw [eq_of_beq hopen]; rfl))]
  have hrecord : (isCapitalised (b.image c).current.lexeme && (b.image c).next.kind == .symbol .openBrace &&
        !mode.braceless && Cursor.recordShaped ((b.image c).ahead.drop 1)) =
      (isCapitalised c.current.lexeme && c.next.kind == .symbol .openBrace &&
        !mode.braceless && Cursor.recordShaped (c.ahead.drop 1)) := by
    rw [hlexeme, hbrace]
    cases hopen : c.next.kind == .symbol .openBrace with
    | false => simp only [Bool.and_false, Bool.false_and]
    | true =>
        have hopen : c.advance.kind = .symbol .openBrace := by
          rw [Cursor.kind, Cursor.current_advance hend, eq_of_beq hopen]
        have hshape := recordShaped_image hc₁ hopen
        rw [ahead_image hc.tokens hend, Cursor.ahead_eq_rest hend (ahead_ne_nil hc.tokens hend)]
        exact congrArg _ hshape
  rw [nameUse, nameUse, hrecord, hcall, hbracket, hlexeme]

/-! ## Past line breaks -/

/-- Only line breaks stand before a cut, or both readers see the same past them. -/
theorem skipWhile_inside_or_spent (hc : c.tokens = b.script.tokens) :
    b.Inside (c.skipWhile (· == .newline)) ∨ b.Spent c := by
  by_cases h : b.Inside (c.skipWhile (· == .newline))
  · exact .inl h
  · simp only [Inside, Classical.not_imp, not_not] at h
    exact .inr ⟨hc, h.1, h.2⟩

theorem Inside.significant (h : b.Inside (c.skipWhile (· == .newline))) (hc : c.tokens = b.script.tokens) :
    (b.image c).significant.kind = c.significant.kind := by
  obtain ⟨ts, hread, -⟩ := c.skipWhile_reads (· == .newline)
  rw [Cursor.significant, Cursor.significant, image_skipWhile hc h]
  exact h.kind (hread.tokens_eq.trans hc)

theorem Spent.significant (h : b.Spent c) : c.significant.kind = .endOfInput := by
  obtain ⟨ts, hread, -⟩ := c.skipWhile_reads (· == .newline)
  exact Cursor.kind_of_ahead_nil (hread.tokens_eq.trans h.tokens) h.skipped

/-- The last token that line breaks are skipped up to is a line break, or the first one that is none. -/
theorem significant_eq (c : Cursor) : c.significant.kind = .newline ∨
    (c.rest.dropWhile (fun t => t.kind == .newline)).head? = some c.significant := by
  by_cases h : (c.skipWhile (· == .newline)).kind = .newline
  · exact .inl h
  · exact .inr (by rw [Cursor.rest_dropWhile h]; rfl)

/-- What follows a cut does not go on with a conditional. -/
theorem Spent.clear (h : b.Spent c) : (b.image c).significant.kind ≠ .keyword .elifKw ∧
    (b.image c).significant.kind ≠ .keyword .elseKw := by
  obtain ⟨ts, hread, hts⟩ := c.skipWhile_reads (· == .newline)
  have htokens := hread.tokens_eq.trans h.tokens
  rcases significant_eq (b.image c) with hbreak | hhead
  · rw [hbreak]
    exact ⟨nofun, nofun⟩
  refine b.clear h.cut _ ?_
  -- before the cut, there are only line breaks
  obtain ⟨t, us, hdrop, himage⟩ := image_eq h.tokens
  have hlength := length_body h.tokens
  have hrest : (b.image c).rest = b.twin.drop c.index ++ b.ending :: b.after := by
    rw [himage, Cursor.rest, ← hdrop, twins, List.drop_append_of_le_length (by rw [length_twin]; omega)]
  have hbody : b.script.body.drop c.index = ts := by
    have hbefore := htokens
    rw [Cursor.tokens, Cursor.rest, h.skipped, Script.tokens] at hbefore
    have hbody := (List.append_inj' hbefore rfl).1
    rw [← hbody, hread.before, List.reverse_append, List.reverse_reverse, Cursor.index,
      List.drop_left' (by rw [List.length_reverse])]
  have hlike : ts.map (Token.view b.left) = (b.twin.drop c.index).map (Token.view b.right) := by
    rw [List.map_drop, ← b.alike, ← hbody, List.map_drop]
  have hbreaks : ∀ t ∈ b.twin.drop c.index, (t.kind == .newline) = true := by
    intro t ht
    have hmem : t.kind ∈ ts.map Token.kind := by
      rw [kinds_like hlike]
      exact List.mem_map_of_mem ht
    obtain ⟨u, hu, hkind⟩ := List.mem_map.mp hmem
    rw [← hkind]
    exact hts u hu
  rw [hrest, List.dropWhile_append_of_pos hbreaks] at hhead
  exact hhead

end Seam

end ShellFront
