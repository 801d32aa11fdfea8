import ShellFront.Proofs.Layout.Endings
import ShellFront.Proofs.Twins.Scripts
import ShellFront.Proofs.Twins.Shifts

/-!
# Scripts one after the other

Two scripts with a line feed between them are read one after the other. The first is sewn to the whole with a cut
where it ends: if nothing is reported about it, its statements are read there as they are by themselves, and the
reader comes to the cut with nothing to go on with. The second is sewn to the rest, where nothing follows it, so
all of it is read alike, errors and what recovery makes of them included.

## Contents
- `iterate_prefix`: statements that were read before.
- `image_skip`, `skipWhile_reads_all`: coming to the cut.
- `Smooth.joined`: a script that is read smoothly, as a part of a longer one.
- `Seam.front`, `Seam.back`, `parse_joined`.
-/

namespace ShellFront

open Outlined Parse

/-! ## Statements that were read before -/

namespace Grammar

variable {r : Rules} {ctx : Context} {st st' : State} {list : List Node} {statements kept : Array Node}

/-- A turn over statements, with others before them. -/
def turnAfter (before : Array Node) : Turn (Array Node) (List Node) → Turn (Array Node) (List Node)
  | .again next => .again (before ++ next)
  | .done list => .done (before.toList ++ list)

theorem afterError_append (before : Array Node) (start : Cursor) (e : SyntaxError) :
    afterError false (before ++ kept) start e = turnAfter before <$> afterError false kept start e := by
  rw [afterError, afterError, map_bind]
  refine congrArg (mode >>= ·) (funext fun mode => ?_)
  split
  · rw [map_bind]
    refine congrArg (recover start e >>= ·) (funext fun node => ?_)
    rw [map_pure, turnAfter, Array.append_push]
  · rw [if_neg Bool.false_ne_true, if_neg Bool.false_ne_true, map_pure, turnAfter, Array.toList_append]

theorem afterStatement_append (before : Array Node) :
    afterStatement false (before ++ kept) = turnAfter before <$> afterStatement false kept := by
  rw [afterStatement, afterStatement, map_bind]
  refine congrArg (here >>= ·) (funext fun after => ?_)
  split
  · rw [map_pure, turnAfter]
  · rw [map_bind]
    exact congrArg (refuse .statementEnd >>= ·) (funext fun e => afterError_append before after e)

theorem statementTurn_append (before : Array Node) :
    statementTurn r false (before ++ statements) = turnAfter before <$> statementTurn r false statements := by
  rw [statementTurn_eq, statementTurn_eq, map_bind]
  refine congrArg (skipSeparators >>= ·) (funext fun _ => ?_)
  rw [statementAt, statementAt, map_bind]
  refine congrArg (here >>= ·) (funext fun start => ?_)
  split
  · rw [map_pure, turnAfter, Array.toList_append]
  · rw [map_bind]
    refine congrArg (attempt r.statement >>= ·) (funext fun x => ?_)
    cases x with
    | error e => exact afterError_append before start e
    | ok node =>
        dsimp only
        rw [← Array.append_push, afterStatement_append]

/-- **A list of statements goes on as if nothing had been read before**, and what was read stays before it. -/
theorem iterate_append (before : Array Node) (n : Nat) :
    iterate (statementTurn r false) n (before ++ statements) =
      (before.toList ++ ·) <$> iterate (statementTurn r false) n statements := by
  induction n generalizing statements with
  | zero => rfl
  | succ n ih =>
      rw [iterate, iterate, statementTurn_append, map_bind, bind_map_left]
      refine congrArg (statementTurn r false statements >>= ·) (funext fun t => ?_)
      cases t with
      | again next => exact ih
      | done list => rfl

end Grammar

/-! ## Coming to the cut -/

namespace Cursor

variable {c c' : Cursor} {p : TokenKind → Bool} {ts : List Token}

/-- Skipping goes over tokens that are skipped. -/
theorem Reads.skipWhile (h : c.Reads ts c') (hts : ∀ t ∈ ts, p t.kind = true) : c.skipWhile p = c'.skipWhile p := by
  induction ts generalizing c with
  | nil => rw [h.eq_of_nil]
  | cons t ts ih =>
      obtain ⟨before, current, ahead⟩ := c
      obtain ⟨before', current', ahead'⟩ := c'
      have hrest : current :: ahead = t :: (ts ++ current' :: ahead') := h.rest
      have hbefore : before' = (t :: ts).reverse ++ before := h.before
      obtain ⟨rfl, rfl⟩ := List.cons.inj hrest
      obtain ⟨ht, hts⟩ := List.forall_mem_cons.mp hts
      obtain ⟨next, ahead, hnext⟩ : ∃ next ahead, ts ++ current' :: ahead' = next :: ahead := by
        cases ts with
        | nil => exact ⟨_, _, rfl⟩
        | cons u us => exact ⟨_, _, rfl⟩
      rw [hnext, Cursor.skipWhile, if_pos ht]
      refine ih ⟨?_, hnext.symm⟩ hts
      rw [hbefore, List.reverse_cons, List.append_assoc]
      rfl

end Cursor

theorem Cursor.ext_rest {c c' : Cursor} (hbefore : c.before = c'.before) (hrest : c.rest = c'.rest) : c = c' := by
  obtain ⟨before, current, ahead⟩ := c
  obtain ⟨before', current', ahead'⟩ := c'
  obtain ⟨rfl, rfl⟩ := List.cons.inj hrest
  exact congrArg (Cursor.mk · current ahead) hbefore

theorem Cursor.ahead_nil_of_kind {s : Script} {c : Cursor} (hc : c.tokens = s.tokens)
    (hkind : c.kind = .endOfInput) : c.ahead = [] := by
  by_contra hne
  have hbody := congrArg List.dropLast hc
  rw [Cursor.tokens, Cursor.rest, Script.tokens, List.dropLast_concat, List.dropLast_append_of_ne_nil
    (List.cons_ne_nil _ _), List.dropLast_cons_of_ne_nil hne] at hbody
  exact s.kinds c.current (by rw [← hbody]; simp) hkind

namespace Seam

variable {b : Seam} {c : Cursor} {p : TokenKind → Bool}

/-- What is skipped in a script is skipped in the other reading. -/
theorem image_skip (hc : c.tokens = b.script.tokens) :
    (b.image c).skipWhile p = (b.image (c.skipWhile p)).skipWhile p := by
  fun_induction Cursor.skipWhile p c with
  | case1 => rfl
  | case2 before current next ahead hp ih =>
      have hread : Cursor.Reads ⟨before, current, next :: ahead⟩ [current] ⟨current :: before, next, ahead⟩ :=
        ⟨rfl, rfl⟩
      have hkind := Inside.kind (b := b) (c := ⟨before, current, next :: ahead⟩) (fun _ => List.cons_ne_nil _ _) hc
      obtain ⟨t, u, us, himage, himage'⟩ := image_step hc
      rw [himage, Cursor.kind] at hkind
      rw [← ih (hread.tokens_eq.trans hc), himage, himage', Cursor.skipWhile, if_pos (by rw [hkind]; exact hp)]
  | case3 => rfl

/-- Where the script begins, the other reader has the twin ahead. -/
theorem image_start (hc : c.tokens = b.script.tokens) (hbefore : c.before = []) :
    (b.image c).before = b.before ∧ (b.image c).rest = b.twins := by
  have hindex : c.index = 0 := by rw [Cursor.index, hbefore, List.length_nil]
  obtain ⟨t, ts, hdrop, himage⟩ := image_eq hc
  rw [himage]
  rw [hindex, List.drop_zero] at hdrop
  exact ⟨by rw [hindex]; rfl, hdrop.symm⟩

/-- Where the script ends, the other reader has what comes after it ahead. -/
theorem image_end (hc : c.tokens = b.script.tokens) (hahead : c.ahead = []) :
    b.image c = ⟨b.twin.reverse ++ b.before, b.ending, b.after⟩ := by
  have hlength := length_body hc
  obtain ⟨t, ts, hdrop, himage⟩ := image_eq hc
  rw [hahead, List.length_nil, Nat.add_zero, ← length_twin] at hlength
  rw [himage]
  rw [twins, List.drop_left' hlength, List.cons.injEq] at hdrop
  rw [twins, List.take_left' hlength, ← hdrop.1, ← hdrop.2]

/-- A statement that does not end the script begins where both readers meet. -/
theorem meets_of_statement (hc : c.tokens = b.script.tokens) (hseparator : c.kind.isSeparator = false)
    (hend : c.kind ≠ .endOfInput) : b.Meets c := by
  refine ⟨hc, fun _ _ => ?_, fun _ hahead => absurd (Cursor.kind_of_ahead_nil hc hahead) hend⟩
  rw [TokenKind.isTerminator_eq, hseparator, beq_eq_false_iff_ne.mpr hend]
  rfl

end Seam

/-! ## A script as a part of a longer one -/

section

variable {b : Seam} {r r' : Rules} {s' : Script} {mode : Mode} {st st' st₁ : State} {list : List Node}

/-- A statement that is read without an error is read in the other reading, whether that is strict or not. -/
theorem statement_joined {node : Node} (hr : r.Twins b r') (hr' : r'.Sound s')
    (hstrict : mode.recovering = false) (hc : st.cursor.tokens = b.script.tokens) 
    (hc' : st'.cursor.tokens = s'.tokens) (hcursor : st'.cursor = b.image st.cursor)
    (hseparator : st.cursor.kind.isSeparator = false) (hend : st.cursor.kind ≠ .endOfInput)
    (hfuel : st.cursor.ahead.length < r.fuel - 1) (hreport : b.Agrees st.report st'.report)
    (hnode : r.statement ⟨mode, b.isBuiltin⟩ st = .ok node st₁) (recovering : Bool) :
    ∃ node' st₁', r'.statement ⟨{ mode with recovering := recovering }, b.isBuiltin'⟩ st' = .ok node' st₁' ∧
      b.Like node node' ∧ b.Meets st₁.cursor ∧ st₁.cursor.ahead.length < st.cursor.ahead.length ∧
      st₁'.cursor = b.image st₁.cursor ∧ b.Agrees st₁.report st₁'.report ∧
      st₁'.cursor.tokens = s'.tokens ∧ st₁'.cursor.ahead.length < st'.cursor.ahead.length := by
  have hmeets := Seam.meets_of_statement hc hseparator hend
  have hin := Seam.inside_of_kind hc hend
  have hkind' : st'.cursor.kind.isSeparator = false := by
    rw [hcursor, hin.kind hc]
    exact hseparator
  have htied := hr.statement st.cursor hmeets hfuel hseparator mode st st' (fun _ => hstrict) rfl hcursor hreport
  have hmatch := hr'.statement st'.cursor hkind' ⟨mode, b.isBuiltin'⟩ st' rfl hc'
  -- the twin is known for the strict reading, and soundness takes it over to the lenient one
  have hmode : (⟨mode, b.isBuiltin'⟩ : Context).strict = ⟨mode, b.isBuiltin'⟩ := by
    rw [Context.strict, ← hstrict]
  rw [hnode] at htied
  rw [hmode] at hmatch
  generalize hx : r'.statement ⟨mode, b.isBuiltin'⟩ st' = x at htied hmatch
  generalize hy : r'.statement (Context.lenient ⟨mode, b.isBuiltin'⟩) st' = y at hmatch
  cases htied with
  | stray hloose => exact hloose.elim
  | @agree _ node' _ st₁' hlike hmeets₁ hle hcursor₁ hreport₁ hlt =>
      cases hmatch with
      | agree hpass _ _ hspans =>
          refine ⟨node', st₁', ?_, hlike, hmeets₁, hlt, hcursor₁, hreport₁, hpass.reaches.tokens_eq.trans hc',
            hspans.length_lt⟩
          cases recovering with
          | true => exact hy
          | false =>
              rw [← hstrict]
              exact hx

/-- **A script that is read smoothly is read the same as a part of a longer one.** The other reader gives the same
    statements and then stands where the script ends. -/
theorem Smooth.joined (n : Nat) (statements : Array Node) (h : Smooth r ⟨mode, b.isBuiltin⟩ st list st₁)
    (hr : r.Twins b r') (hr' : r'.Sound s')
    (hstrict : mode.recovering = false) (recovering : Bool) (hc : st.cursor.tokens = b.script.tokens)
    (hc' : st'.cursor.tokens = s'.tokens) (hcursor : st'.cursor = b.image st.cursor)
    (hfuel : st.cursor.ahead.length + 1 < r.fuel) (hn : st'.cursor.ahead.length < n)
    (hreport : b.Agrees st.report st'.report) :
    let ctx : Context := ⟨{ mode with recovering := recovering }, b.isBuiltin'⟩
    ∃ list' m st₁', iterate (Grammar.statementTurn r' false) n statements ctx st' =
        iterate (Grammar.statementTurn r' false) m (statements ++ list'.toArray) ctx st₁' ∧
      b.Like list list' ∧ st₁.cursor.tokens = b.script.tokens ∧ st₁'.cursor.tokens = s'.tokens ∧
      st₁'.cursor.skipWhile TokenKind.isSeparator = (b.image st₁.cursor).skipWhile TokenKind.isSeparator ∧
      b.Agrees st₁.report st₁'.report ∧ (b.image st₁.cursor).ahead.length < m := by
  intro ctx
  induction h generalizing st' n statements with
  -- no statement is left: the other reader has not moved, and may still have separators to skip
  | @done st hend =>
      have hle : st.onward.cursor.ahead.length ≤ st.cursor.ahead.length :=
        Cursor.length_ahead_skipWhile TokenKind.isSeparator st.cursor
      obtain ⟨honward, -⟩ := st.onward_tokens hc
      refine ⟨[], n, st', by simp, rfl, honward, hc', ?_, hreport, Nat.lt_of_le_of_lt ?_ hn⟩
      · rw [hcursor]
        exact Seam.image_skip hc
      · have hbefore := Seam.length_before hc honward hle
        rw [hcursor, Seam.image_ahead hc, Seam.image_ahead honward, List.length_drop, List.length_drop,
          Cursor.index, Cursor.index]
        omega
  | @more st st₁ st₂ node list hend hnode hstop hmore ih =>
      obtain ⟨n, rfl⟩ : ∃ m, n = m + 1 := ⟨n - 1, by omega⟩
      obtain ⟨hstart, hseparator⟩ := st.onward_tokens hc
      obtain ⟨hstart', -⟩ := st'.onward_tokens hc'
      have hin := Seam.inside_of_kind hstart hend
      have honward : st'.onward.cursor = b.image st.onward.cursor := by
        rw [Parse.State.onward, hcursor]
        exact Seam.image_skipWhile hc hin
      have hle : st.onward.cursor.ahead.length ≤ st.cursor.ahead.length :=
        Cursor.length_ahead_skipWhile TokenKind.isSeparator st.cursor
      have hle' : st'.onward.cursor.ahead.length ≤ st'.cursor.ahead.length :=
        Cursor.length_ahead_skipWhile TokenKind.isSeparator st'.cursor
      obtain ⟨node', st₁', hnode', hlike, hmeets, hlt, hcursor₁, hreport₁, hc₁', hlt'⟩ :=
        statement_joined hr hr' hstrict hstart hstart' honward hseparator hend (by omega) hreport hnode recovering
      have hend' : st'.onward.cursor.kind ≠ .endOfInput := by
        rw [honward, hin.kind hstart]
        exact hend
      have hstop' : st₁'.cursor.kind.isTerminator = true := by
        rw [hcursor₁, hmeets.agrees (p := TokenKind.isTerminator) rfl]
        exact hstop
      -- one statement is read by both; the rest by the induction
      obtain ⟨list', m, st₂', hrun, hlikes, hrest⟩ :=
        ih n (statements.push node') hmeets.tokens hc₁' hcursor₁ (by omega) (by omega) hreport₁
      refine ⟨node' :: list', m, st₂', ?_, ?_, hrest⟩
      · rw [Grammar.iterate_run, Grammar.statementTurn_ok hend' hnode', Grammar.afterStatement_stop _ _ hstop']
        dsimp only
        rw [hrun]
        congr 1
        simp
      · exact congrArg₂ List.cons hlike hlikes

end

/-! ## Sewing two scripts together -/

/-- What makes a script ready to be **followed** by other tokens. -/
structure Script.Followed (s : Script) (ending : Token) (after : List Token) : Prop where
  starts : ∀ t ∈ s.body.head?, t.kind ≠ .newline
  joint : ∀ t ∈ s.body.getLast?, t.kind ≠ .newline → ending.kind = .newline ∧ ending.span.start = s.last.span.start
  nested : Nested s.body
  rests : Rests s.body
  clear : ∀ t ∈ ((ending :: after).dropWhile (fun t => t.kind == .newline)).head?,
    t.kind ≠ .keyword .elifKw ∧ t.kind ≠ .keyword .elseKw

/-- Up to where a script ends, tokens touch there as they do in the longer one. -/
theorem Script.Followed.touches {s : Script} {ending : Token} {after : List Token} (h : s.Followed ending after)
    {i : Nat} {t u t' u' : Token} (ht : s.tokens[i]? = some t) (hu : s.tokens[i + 1]? = some u)
    (ht' : (s.body ++ ending :: after)[i]? = some t') (hu' : (s.body ++ ending :: after)[i + 1]? = some u')
    (hkind : u.kind.isMark = true ∨ s.StandsApart i t) : t'.touches u' = t.touches u := by
  have hlt : i + 1 < s.tokens.length := (List.getElem?_eq_some_iff.mp hu).1
  rw [Script.tokens, List.length_append, List.length_singleton] at hlt
  have hi : i < s.body.length := Nat.lt_of_succ_lt_succ hlt
  rw [Script.tokens] at ht hu
  rw [List.getElem?_append_left hi] at ht ht'
  obtain rfl := Option.some.inj (ht.symm.trans ht')
  by_cases hnext : i + 1 < s.body.length
  · rw [List.getElem?_append_left hnext] at hu hu'
    obtain rfl := Option.some.inj (hu.symm.trans hu')
    rfl
  · -- the last token of the script: what comes after it begins in the same place
    have hlength : s.body.length = i + 1 := by omega
    rw [List.getElem?_append_right (by omega), hlength, Nat.sub_self] at hu hu'
    obtain rfl := Option.some.inj hu
    obtain rfl := Option.some.inj hu'
    have happart : s.StandsApart i t := by
      refine hkind.resolve_left fun hmark => ?_
      rw [s.last_kind] at hmark
      exact Bool.false_ne_true hmark
    have hlast : s.body.getLast? = some t := by
      rw [List.getLast?_eq_getElem?, hlength, Nat.add_sub_cancel]
      exact ht
    have hstart := (h.joint t hlast (by rw [happart.1]; exact TokenKind.noConfusion)).2
    rw [Token.touches, Token.touches, hstart]

/-- **The first of two scripts**, cut off from what follows. -/
def Seam.front (s : Script) (ending : Token) (after : List Token) (reports : List Diagnostic)
    (isBuiltin : String → Bool) (h : s.Followed ending after) : Seam where
  script := s
  left := .plain
  right := .plain
  isBuiltin := isBuiltin
  isBuiltin' := isBuiltin
  before := []
  twin := s.body
  ending := ending
  after := after
  reports := reports
  cut := true
  alike := rfl
  cover := by
    rintro span other span' other' hspan hother
    exact congrArg₂ Span.cover hspan hother
  text := by
    intro ts ts' hts
    rw [View.plain_steady.tokens, View.plain_steady.tokens] at hts
    rw [hts]
  builtin := View.builtin_self .plain isBuiltin
  qualified := View.qualified_self .plain
  touches := fun _ _ _ _ _ ht hu ht' hu' hkind => h.touches ht hu ht' hu' hkind
  starts := h.starts
  whole := fun hcut => absurd hcut.symm Bool.false_ne_true
  joint := fun _ t ht hkind => (h.joint t ht hkind).1
  nested := fun _ => h.nested
  firm := fun _ => h.rests
  clear := fun _ => h.clear

/-- **The second of two scripts**, after what stands before it. -/
def Seam.back (s : Script) (chars lines : Nat) (before : List Token) (isBuiltin : String → Bool)
    (hstarts : ∀ t ∈ s.body.head?, t.kind ≠ .newline) : Seam where
  script := s
  left := .shift chars lines
  right := .plain
  isBuiltin := isBuiltin
  isBuiltin' := isBuiltin
  before := before
  twin := s.body.map (Token.view (.shift chars lines))
  ending := s.last.view (.shift chars lines)
  after := []
  reports := []
  cut := false
  alike := (View.plain_steady.tokens _).symm
  cover := by
    rintro span other span' other' rfl rfl
    exact Span.cover_shift span other
  text := by
    intro ts ts' hts
    rw [View.plain_steady.tokens] at hts
    rw [← hts]
    exact (sourceText_shift ts).symm
  builtin := fun _ => rfl
  qualified := fun _ _ => rfl
  touches := by
    intro i t u t' u' ht hu ht' hu' _
    have htwins : s.body.map (Token.view (.shift chars lines)) ++ [s.last.view (.shift chars lines)] =
        s.tokens.map (Token.view (.shift chars lines)) := by
      rw [Script.tokens, List.map_append]
      rfl
    rw [htwins, List.getElem?_map, ht, Option.map_some, Option.some.injEq] at ht'
    rw [htwins, List.getElem?_map, hu, Option.map_some, Option.some.injEq] at hu'
    subst ht' hu'
    rw [Bool.eq_iff_iff, Token.touches, Token.touches, beq_iff_eq, beq_iff_eq]
    exact Int.add_left_inj chars
  starts := hstarts
  whole := fun _ => ⟨rfl, rfl⟩
  joint := fun hcut => absurd hcut Bool.false_ne_true
  nested := Script.nested_of_uncut
  firm := Script.firm_of_uncut
  clear := fun hcut => absurd hcut Bool.false_ne_true

/-! ## Reading two scripts -/

/-- What follows a script about which nothing is reported. -/
theorem Script.followed {first second file : String} {s s₂ : Script} {breaks after : List Token} {ending : Token}
    {chars lines : Nat} (htokens : (tokenize first file).tokens = s.tokens)
    (htokens₂ : (tokenize second file).tokens = s₂.tokens) (hbreaks : Breaks s.body s.last.span.start breaks)
    (hrest : breaks ++ s₂.tokens.map (Token.view (.shift chars lines)) = ending :: after) (hnested : Nested s.body)
    (hrests : Rests s.body)
    (hnext : ∀ t ∈ (tokenize second file).tokens.head?, t.kind ≠ .keyword .elifKw ∧ t.kind ≠ .keyword .elseKw) :
    s.Followed ending after where
  starts := Script.starts htokens
  joint := by
    intro t ht hkind
    have hne := hbreaks.joint t ht hkind
    cases breaks with
    | nil => exact absurd rfl hne
    | cons u us =>
        obtain ⟨rfl, -⟩ := List.cons.inj hrest
        exact ⟨hbreaks.newline u List.mem_cons_self, hbreaks.start u List.mem_cons_self⟩
  nested := hnested
  rests := hrests
  clear := by
    -- behind the line breaks stands the first token of the second script, and no line break
    have hskip : (breaks ++ s₂.tokens.map (Token.view (.shift chars lines))).dropWhile (fun t => t.kind == .newline) =
        s₂.tokens.map (Token.view (.shift chars lines)) := by
      have hbody := hbreaks.newline
      clear hbreaks hrest
      induction breaks with
      | nil =>
          have hstarts := tokenize_starts second file
          rw [htokens₂] at hstarts
          cases hs₂ : s₂.tokens with
          | nil => rfl
          | cons t ts =>
              rw [hs₂] at hstarts
              rw [List.nil_append, List.map_cons, List.dropWhile_cons, if_neg]
              exact fun h => hstarts t rfl (eq_of_beq h)
      | cons u us ih =>
          obtain ⟨hu, hus⟩ := List.forall_mem_cons.mp hbody
          rw [List.cons_append, List.dropWhile_cons, if_pos (beq_of_eq hu)]
          exact ih hus
    intro t ht
    rw [← hrest, hskip, List.head?_map] at ht
    obtain ⟨u, hu, rfl⟩ := Option.map_eq_some_iff.mp ht
    exact hnext u (by rw [htokens₂]; exact hu)

/-- At the beginning of a longer text, the reader stands at the image of where a script begins. -/
theorem first_image {b : Seam} {s' : Script} {source whole file file' : String}
    (htokens : (tokenize source file).tokens = b.script.tokens) (htokens' : (tokenize whole file').tokens = s'.tokens)
    (hbefore : b.before = []) (htwins : b.twins = s'.tokens) :
    (State.first whole file').cursor = b.image (State.first source file).cursor := by
  obtain ⟨hstart, hfirst⟩ := first_cursor htokens
  obtain ⟨hstart', hfirst'⟩ := first_cursor htokens'
  obtain ⟨himage, hrest⟩ := Seam.image_start hfirst hstart
  refine Cursor.ext_rest ?_ ?_
  · rw [hstart', himage, hbefore]
  · rw [hrest, htwins, ← hfirst', Cursor.tokens, hstart']
    rfl

theorem first_ahead {s : Script} {source file : String} (htokens : (tokenize source file).tokens = s.tokens) :
    (State.first source file).cursor.ahead.length = s.body.length := by
  obtain ⟨hstart, hfirst⟩ := first_cursor htokens
  have hlength := congrArg List.length hfirst
  simp only [Cursor.tokens, Cursor.rest, hstart, Script.tokens, List.reverse_nil, List.nil_append, List.length_append,
    List.length_cons, List.length_nil] at hlength
  omega

/-- Statements that were read before stay before what is read. -/
theorem iterate_joined {r : Rules} {ctx : Context} {st st' : State} {n : Nat} {before list : List Node}
    (h : iterate (Grammar.statementTurn r false) n #[] ctx st = .ok list st') :
    iterate (Grammar.statementTurn r false) n (#[] ++ before.toArray) ctx st = .ok (before ++ list) st' := by
  have hsame : #[] ++ before.toArray = before.toArray ++ #[] := by simp
  rw [hsame, Grammar.iterate_append, map_eq_pure_bind, bind_run, h]
  rfl

/-- **Parsing goes from one script to the next.** If nothing is reported about the first of two scripts and the
    second does not go on with a conditional, the two with a line feed between them are read one after the other:
    the second one as by itself, only further on, with all that is reported about it. -/
theorem parse_joined (first second file : String) (failFast : Bool) (isBuiltin : String → Bool)
    (hsilent : (parse first file failFast isBuiltin).report.hasErrors = false)
    (hnext : ∀ t ∈ (tokenize second file).tokens.head?, t.kind ≠ .keyword .elifKw ∧ t.kind ≠ .keyword .elseKw) :
    let shift := View.shift (first.length + 1) (first.toList.count '\n' + 1)
    let joined := parse (first ++ "\n" ++ second) file failFast isBuiltin
    joined.program.statements = (parse first file failFast isBuiltin).program.statements ++
        (parse second file failFast isBuiltin).program.statements.map (Node.view shift) ∧
      joined.report.toList =
        (parse second file failFast isBuiltin).report.toList.map (Diagnostic.view shift) := by
  intro shift joined
  obtain ⟨s₁, htokens₁, hplaces₁⟩ := tokenize_script first file
  obtain ⟨s₂, htokens₂, -⟩ := tokenize_script second file
  obtain ⟨s', htokens', -⟩ := tokenize_script (first ++ "\n" ++ second) file
  obtain ⟨⟨st₁, hsmooth, hsilent₁⟩, hvalid, hnested, hrests⟩ := script_smooth htokens₁ hplaces₁ failFast isBuiltin hsilent
  obtain ⟨breaks, hbreaks, hwhole, hreports⟩ := tokenize_joined second htokens₁ hvalid hnested
  rw [(Report.toList_eq_nil hplaces₁).mpr hvalid, List.nil_append] at hreports
  obtain ⟨ending, after, hrest⟩ : ∃ ending after, breaks ++ s₂.tokens.map (Token.view shift) = ending :: after :=
    List.exists_cons_of_ne_nil (by simp [Script.tokens])
  rw [htokens₂, hrest, htokens'] at hwhole
  have hlength := congrArg List.length hrest
  have hlength' := congrArg List.length hwhole
  simp only [Script.tokens, List.length_append, List.length_map, List.length_cons, List.length_nil] at hlength hlength'
  have hahead₁ := first_ahead htokens₁
  have hahead₂ := first_ahead htokens₂
  have hahead' := first_ahead htokens'
  obtain ⟨hstart₁, hfirst₁⟩ := first_cursor htokens₁
  obtain ⟨hstart₂, hfirst₂⟩ := first_cursor htokens₂
  obtain ⟨-, hfirst'⟩ := first_cursor htokens'
  -- the first script is read as a part of the whole
  let b := Seam.front s₁ ending after ((tokenize second file).report.toList.map (Diagnostic.view shift)) isBuiltin
    (Script.followed htokens₁ htokens₂ hbreaks hrest hnested hrests hnext)
  have hagrees : b.Agrees (State.first first file).report (State.first (first ++ "\n" ++ second) file).report := by
    have hfirst : (State.first first file).report.toList = [] := (Report.toList_eq_nil hplaces₁).mpr hvalid
    rw [Seam.Agrees, hfirst, List.map_nil, List.append_nil]
    exact (View.plain_steady.diagnostics _).trans hreports
  have hdepth : (State.first first file).cursor.depth ≤ (State.first (first ++ "\n" ++ second) file).cursor.depth := by
    simp only [Cursor.depth]
    omega
  obtain ⟨list, m, st', hrun, hlikes, hend₁, -, hskip, hreport, hm⟩ :=
    Smooth.joined (b := b) ((Rules.upTo (State.first (first ++ "\n" ++ second) file).cursor.depth).fuel + 1) #[]
      hsmooth (Rules.upTo_twins b hdepth) (Rules.upTo_sound s' _) rfl
      (!failFast) hfirst₁ hfirst' (first_image htokens₁ htokens' rfl hwhole.symm)
      (by rw [Rules.upTo_fuel, Cursor.depth]; omega) (by rw [Rules.upTo_fuel, Cursor.depth]; omega) hagrees
  obtain rfl : (parse first file failFast isBuiltin).program.statements = list := by
    have hsame : Viewable.view View.plain _ = Viewable.view View.plain list := hlikes
    rwa [Viewable.nodes_plain, Viewable.nodes_plain] at hsame
  have hcut := Seam.image_end hend₁ (Cursor.ahead_nil_of_kind hend₁ hsmooth.kind)
  -- the second script follows the line breaks
  let b₂ := Seam.back s₂ (first.length + 1) (first.toList.count '\n' + 1) (s₁.body ++ breaks).reverse isBuiltin
    (Script.starts htokens₂)
  have hreads : (b.image st₁.cursor).Reads breaks (b₂.image (State.first second file).cursor) := by
    obtain ⟨hbefore, hrest₂⟩ := Seam.image_start (b := b₂) hfirst₂ hstart₂
    refine ⟨?_, ?_⟩
    · rw [hbefore, hcut]
      exact (List.reverse_append ..).trans (congrArg _ (List.append_nil _).symm)
    · rw [hrest₂, hcut]
      change ending :: after = breaks ++ (s₂.body.map _ ++ [s₂.last.view _])
      rw [← hrest, Script.tokens, List.map_append]
      rfl
  have hback : st'.cursor.skipWhile TokenKind.isSeparator =
      b₂.image ((State.first second file).cursor.skipWhile TokenKind.isSeparator) := by
    rw [hskip, hreads.skipWhile fun t ht => by rw [hbreaks.newline t ht]; rfl]
    exact Seam.image_skipWhile hfirst₂ fun h => absurd h Bool.false_ne_true
  have hagrees₂ : b₂.Agrees (State.first second file).report st'.report := by
    have hreport : st'.report.toList.map (Diagnostic.view .plain) =
        (tokenize second file).report.toList.map (Diagnostic.view shift) ++
          st₁.report.toList.map (Diagnostic.view .plain) := hreport
    rw [hsilent₁, List.map_nil, List.append_nil] at hreport
    exact hreport
  have hturns : after.length < m := by
    rw [hcut] at hm
    exact hm
  have hturns₂ : (State.first second file).cursor.ahead.length < m := by omega
  obtain ⟨list₂, st₂, hrun₂⟩ := script_reads htokens₂ failFast isBuiltin
  have hdepth₂ : (State.first second file).cursor.depth ≤ (State.first (first ++ "\n" ++ second) file).cursor.depth := by
    simp only [Cursor.depth]
    omega
  obtain ⟨list', st₂', hrun', hlikes₂, hreport₂⟩ :=
    Grammar.statements_whole (b := b₂) rfl (Rules.upTo_twins b₂ hdepth₂) hfirst₂ hback
      (by rw [Rules.upTo_fuel, Cursor.depth]; omega) (by rw [Rules.upTo_fuel, Cursor.depth]; omega)
      hturns₂ hagrees₂ hrun₂
  have hjoined : scriptStatements (first ++ "\n" ++ second) file ⟨.top (!failFast), isBuiltin⟩
      (.first (first ++ "\n" ++ second) file) =
      .ok ((parse first file failFast isBuiltin).program.statements ++ list') st₂' := hrun.trans (iterate_joined hrun')
  obtain ⟨hprogram, hreported⟩ := parse_of_run failFast hjoined
  obtain ⟨hprogram₂, hreported₂⟩ := parse_of_run failFast hrun₂
  have hlist : list₂.map (Node.view shift) = list' := by
    have hsame : Viewable.view shift list₂ = Viewable.view View.plain list' := hlikes₂
    rwa [Viewable.nodes_plain] at hsame
  rw [show joined = parse (first ++ "\n" ++ second) file failFast isBuiltin from rfl, hprogram, hprogram₂, hreported,
    hreported₂]
  refine ⟨congrArg _ hlist.symm, ?_⟩
  exact (View.plain_steady.diagnostics _).symm.trans hreport₂

/-- A list over two lines, and after it a binding without a name. -/
theorem parse_joined_list :
    let first := "let x = [1,\n2]"
    let second := "let = $x"
    let shift := View.shift (first.length + 1) (first.toList.count '\n' + 1)
    let joined := parse (first ++ "\n" ++ second) "a" false fun _ => false
    (parse first "a" false fun _ => false).report.hasErrors = false ∧
      (tokenize second "a").tokens.head?.map Token.kind = some (.keyword .letKw) ∧
      joined.program.statements = (parse first "a" false fun _ => false).program.statements ++
        (parse second "a" false fun _ => false).program.statements.map (Node.view shift) ∧
      joined.report.toList =
        (parse second "a" false fun _ => false).report.toList.map (Diagnostic.view shift) := by
  have hsilent : (parse "let x = [1,\n2]" "a" false fun _ => false).report.hasErrors = false := by decide +kernel
  have hhead : (tokenize "let = $x" "a").tokens.head?.map Token.kind = some (.keyword .letKw) := by decide +kernel
  refine ⟨hsilent, hhead, parse_joined _ _ "a" false (fun _ => false) hsilent fun t ht => ?_⟩
  rw [Option.mem_def.mp ht, Option.map_some, Option.some.injEq] at hhead
  rw [hhead]
  decide

end ShellFront
