import ShellFront.Parse.Recovery
import ShellFront.Proofs.Layout.Nesting
import ShellFront.Proofs.Token.Joining
import ShellFront.Proofs.Token.Lines
import ShellFront.Proofs.Token.Respacing

/-!
# Open groups as the lexer and recovery see them

The lexer follows the open groups while it cuts a script, and recovery follows them again along the tokens, by
rules of its own. The two agree as long as every closer finds a group of its kind, or none at all. That the lexer
gave up groups reaches recovery through the line break alone, so what has to be seen is that it never gives up
groups without making one: groups that are given up hide line breaks, at the start of a line no such group is open,
and no comment, blank line or invalid token changes that.

## Contents
- `Groups.Fits` and `Groups.repair_of_fits`, the two rules for one token.
- `Lexer.Tracks` and `Lexer.step_tracks`, what one step does to the open groups.
- `Lexer.Comes`, the places that the lexer comes to, and `Lexer.Comes.tracked`, what holds at each of them.
- `Tidy` and `tokenize_groups`.
-/

namespace ShellFront

/-! ## One token -/

namespace Groups

variable {groups : Groups} {kind : TokenKind}

/-- A token **fits** the open groups if it is no closer, finds nothing open, or closes an innermost group of its own
    kind. -/
def Fits (groups : Groups) (kind : TokenKind) : Prop :=
  ∀ s, kind = .symbol s → s.isCloser = true → ∀ opener ∈ groups.head?, opener.partner? = some s

/-- Only braces are closed by a brace. -/
theorem eq_openBrace_of_partner {opener : Symbol} (h : opener.partner? = some .closeBrace) : opener = .openBrace := by
  cases opener <;> first | rfl | contradiction

/-- A closing brace that fits closes what both rules close. -/
theorem repair_closeBrace (h : groups.Fits (.symbol .closeBrace)) : groups.abandon.tail = groups.tail := by
  cases groups with
  | nil => rfl
  | cons innermost outer =>
      obtain rfl := eq_openBrace_of_partner (h _ rfl rfl innermost rfl)
      rfl

/-- Some other closer that fits finds a group that hides line breaks, or nothing to close. -/
theorem hidesNewline_or_nil {s : Symbol} (h : groups.Fits (.symbol s)) (hcloser : s.isCloser = true)
    (hbrace : s ≠ .closeBrace) : groups.hidesNewline = true ∨ groups = [] := by
  cases groups with
  | nil => exact .inr rfl
  | cons innermost outer =>
      refine .inl (bne_iff_ne.mpr ?_)
      rintro rfl
      exact hbrace (Option.some.inj (h s rfl hcloser _ rfl)).symm

/-- **The lexer and recovery follow a token alike** if it fits and is no line break. -/
theorem repair_of_fits (h : groups.Fits kind) (hkind : kind ≠ .newline) : groups.repair kind = groups.follow kind := by
  cases kind with
  | newline => exact absurd rfl hkind
  | symbol s =>
      by_cases hbrace : s = .closeBrace
      · obtain rfl := hbrace
        exact repair_closeBrace h
      · rw [repair_symbol hbrace, follow]
        cases hcloser : s.isCloser with
        | false => rw [Bool.false_and]
        | true =>
            rcases hidesNewline_or_nil h hcloser hbrace with hhides | rfl
            · rw [hhides, Bool.true_and]
            · rfl
  | _ => rfl

/-- Groups that do not hide line breaks are not given up. -/
theorem abandon_of_shows (h : groups.hidesNewline = false) : groups.abandon = groups := by
  cases groups with
  | nil => rfl
  | cons innermost outer => exact List.dropWhile_cons_of_neg (Bool.not_eq_true _ ▸ h)

end Groups

namespace Lexer

/-! ## One step -/

/-- What a step does to the open groups, with what it makes. -/
inductive Tracks (groups : Groups) (atLineStart : Bool) (s : Step) : Prop where
  | passes (hpiece : s.piece = none) (hgroups : s.groups = groups) (hline : s.atLineStart = atLineStart)
      (habandons : s.abandons = false)
  | breaks {piece : Piece} (hpiece : s.piece = some piece) (hkind : piece.kind = .newline)
      (hbefore : atLineStart = false) (hgroups : s.groups = groups.abandon) (hline : s.atLineStart = true)
  | makes {piece : Piece} (hpiece : s.piece = some piece) (hkind : piece.kind ≠ .newline)
      (hgroups : s.groups = groups.follow piece.kind) (hline : s.atLineStart = false) (habandons : s.abandons = false)

variable {groups : Groups} {atLineStart : Bool}

theorem comment_tracks (groups : Groups) (atLineStart : Bool) (cs : List Char) :
    Tracks groups atLineStart (comment groups atLineStart cs) := by
  unfold comment
  split
  · split
    · exact .passes rfl rfl rfl rfl
    · exact .makes rfl (Piece.bad_solid _ _).ne_break rfl rfl rfl
  · exact .passes rfl rfl rfl rfl

/-- A line break becomes a token wherever groups are given up, because something stands on the line then. -/
theorem lineBreak_tracks (hcounts : Counts groups atLineStart) (cs : List Char) :
    Tracks groups atLineStart (lineBreak groups atLineStart cs) := by
  unfold lineBreak
  dsimp only
  cases hhides : groups.hidesNewline with
  | false =>
      rw [Bool.false_and, if_neg Bool.false_ne_true, hhides, Bool.or_false]
      split
      · exact .passes rfl rfl rfl rfl
      · next hline => exact .breaks rfl rfl (Bool.not_eq_true _ ▸ hline) (Groups.abandon_of_shows hhides).symm rfl
  | true =>
      have hline : atLineStart = false := by
        cases hline : atLineStart with
        | false => rfl
        | true => exact absurd ((hcounts hline).symm.trans hhides) Bool.false_ne_true
      cases hopens : opensStatement cs with
      | false =>
          rw [Bool.true_and, if_neg Bool.false_ne_true, hhides, Bool.or_true]
          exact .passes rfl rfl rfl rfl
      | true =>
          rw [Bool.true_and, if_pos rfl, hidesNewline_abandon, hline]
          exact .breaks rfl rfl rfl rfl rfl

/-- **What one step does to the open groups.** -/
theorem step_tracks (hcounts : Counts groups atLineStart) (previous : Option Char) (c : Char) (cs : List Char) :
    Tracks groups atLineStart (step previous groups atLineStart c cs) := by
  unfold step
  split
  · exact .passes rfl rfl rfl rfl
  · split
    · exact comment_tracks groups atLineStart cs
    · split
      · exact lineBreak_tracks hcounts cs
      · exact .makes rfl (Piece.next_solid _ c cs).ne_break rfl rfl rfl

theorem Tracks.counts {s : Step} (h : Tracks groups atLineStart s) (hcounts : Counts groups atLineStart) :
    Counts s.groups s.atLineStart := by
  cases h with
  | passes _ hgroups hline => rwa [hgroups, hline]
  | breaks _ _ _ hgroups => exact fun _ => hgroups ▸ hidesNewline_abandon groups
  | makes _ _ _ hline => exact fun h => absurd (hline.symm.trans h) Bool.false_ne_true

/-! ## The places that the lexer comes to -/

variable {source file : String} {st : State} {c : Char} {cs rest : List Char}

/-- What the lexer does next at a place where `c` and then `cs` follow. -/
abbrev State.step (st : State) (c : Char) (cs : List Char) : Step :=
  Lexer.step st.previous st.groups st.atLineStart c cs

/-- The state after that step. -/
abbrev State.after (st : State) (file : String) (c : Char) (cs : List Char) : State :=
  st.take file (st.step c cs) ((c :: cs).take (st.step c cs).length)

/-- The states that the lexer **comes** to in a script, each with the rest of the text. -/
inductive Comes (source file : String) : State → List Char → Prop where
  | first : Comes source file (.first .empty) source.toList
  | step {st : State} {c : Char} {cs : List Char} (h : Comes source file st (c :: cs)) :
      Comes source file (st.after file c cs) ((c :: cs).drop (st.step c cs).length)

/-- From every place that it comes to, the lexer goes on to the end of the script. -/
theorem Comes.run (h : Comes source file st rest) : run file st rest = run file (.first .empty) source.toList := by
  induction h with
  | first => rfl
  | step _ ih => rw [← ih, run.eq_def _ _ (_ :: _)]

/-- The lexer comes to the end. -/
theorem Comes.last (h : Comes source file st rest) : Comes source file (Lexer.run file st rest) [] := by
  fun_induction Lexer.run file st rest with
  | case1 => exact h
  | case2 st c cs s ih => exact ih h.step

/-- What the lexer has found at some place are the first tokens of the script. -/
theorem Comes.found (h : Comes source file st rest) : st.tokens.toList <+: (tokenize source file).tokens := by
  simp only [tokenize, Array.toList_push, ← h.run]
  exact (run_tokens file st rest).trans (List.prefix_append _ _)

/-- **Line breaks count at the start of a line, wherever the lexer comes.** -/
theorem Comes.counts (h : Comes source file st rest) : Counts st.groups st.atLineStart := by
  induction h with
  | first => exact fun _ => rfl
  | step _ ih => exact (step_tracks ih _ _ _).counts ih

theorem Comes.tracks (h : Comes source file st (c :: cs)) : Tracks st.groups st.atLineStart (st.step c cs) :=
  step_tracks h.counts _ c cs

theorem Comes.lined (h : Comes source file st rest) : Lined st := by
  induction h with
  | first => exact first_lined .empty
  | step _ ih => exact ih.step file _ _

/-! ## What has been found -/

theorem after_tokens_none (hpiece : (st.step c cs).piece = none) : (st.after file c cs).tokens = st.tokens := by
  simp only [State.after, State.take, hpiece]

theorem after_tokens_some (file : String) {piece : Piece} (hpiece : (st.step c cs).piece = some piece) :
    ∃ t, t.kind = piece.kind ∧ (st.after file c cs).tokens = st.tokens.push t := by
  simp only [State.after, State.take, hpiece]
  exact ⟨_, rfl, rfl⟩

/-- Among the first tokens of a script, all that stand before some place and no more have been found somewhere. -/
theorem Comes.exists_found {p : List Token} (h : Comes source file st rest) (hlow : st.tokens.toList <+: p)
    (hhigh : p <+: (Lexer.run file st rest).tokens.toList) :
    ∃ st' rest', Comes source file st' rest' ∧ st'.tokens.toList = p := by
  fun_induction Lexer.run file st rest with
  | case1 st => exact ⟨st, [], h, hlow.eq_of_length_le hhigh.length_le⟩
  | case2 st c cs s ih =>
      by_cases hsame : st.tokens.toList = p
      · exact ⟨st, c :: cs, h, hsame⟩
      · refine ih h.step ?_ hhigh
        have hgrows := run_tokens file (st.after file c cs) ((c :: cs).drop s.length)
        cases hpiece : (st.step c cs).piece with
        | none => rwa [after_tokens_none hpiece]
        | some piece =>
            -- one token is not more than is missing
            obtain ⟨t, -, htokens⟩ := after_tokens_some file hpiece
            refine List.prefix_of_prefix_length_le hgrows hhigh ?_
            have hlength : st.tokens.toList.length < p.length :=
              lt_of_le_of_ne hlow.length_le (mt hlow.eq_of_length hsame)
            rw [htokens, Array.toList_push, List.length_append]
            exact hlength

end Lexer

/-! ## Agreement -/

/-- After the first tokens `p` of a script the lexer has `groups` open. The end of the input is made after the
    walk. -/
def LeavesOpen (source file : String) (p : List Token) (groups : Groups) : Prop :=
  ∃ st rest, Lexer.Comes source file st rest ∧ st.groups = groups ∧
    (st.tokens.toList = p ∨ rest = [] ∧ (tokenize source file).tokens = p)

/-- Every closer among the first tokens of a script finds no group open or an innermost one of its own kind. -/
def Tidy (source file : String) (p : List Token) : Prop :=
  ∀ before t after, p = before ++ t :: after → ∀ groups, LeavesOpen source file before groups → groups.Fits t.kind

variable {source file : String} {p before : List Token} {groups : Groups} {t : Token}

/-- The groups that recovery sees after one token more. -/
theorem openedBy_snoc (p : List Token) (t : Token) : (openedBy (p ++ [t])).1 = (openedBy p).1.repair t.kind := by
  rw [openedBy, List.foldl_append]
  rfl

theorem Tidy.init (h : Tidy source file (p ++ [t])) : Tidy source file p := by
  rintro before u after rfl
  exact h before u (after ++ [t]) (by simp)

theorem Tidy.fits (h : Tidy source file (p ++ [t])) (hgroups : LeavesOpen source file p groups) : groups.Fits t.kind :=
  h p t [] rfl groups hgroups

/-- **The lexer and recovery have the same groups open wherever the lexer comes.** -/
theorem Lexer.Comes.agrees {st : State} {rest : List Char} (h : Comes source file st rest)
    (htidy : Tidy source file st.tokens.toList) : (openedBy st.tokens.toList).1 = st.groups := by
  induction h with
  | first => rfl
  | @step st c cs h ih =>
      cases h.tracks with
      | passes hpiece hgroups =>
          rw [after_tokens_none hpiece] at htidy ⊢
          rw [ih htidy]
          exact hgroups.symm
      | breaks hpiece hkind _ hgroups =>
          obtain ⟨t, ht, htokens⟩ := after_tokens_some file hpiece
          rw [htokens, Array.toList_push] at htidy ⊢
          rw [openedBy_snoc, ih htidy.init, ht, hkind]
          exact hgroups.symm
      | makes hpiece hkind hgroups =>
          obtain ⟨t, ht, htokens⟩ := after_tokens_some file hpiece
          rw [htokens, Array.toList_push] at htidy ⊢
          have hfits := htidy.fits ⟨st, _, h, rfl, .inl rfl⟩
          rw [openedBy_snoc, ih htidy.init, Groups.repair_of_fits hfits (ht ▸ hkind), ht]
          exact hgroups.symm

/-- No two line breaks follow each other in what the lexer has found. -/
theorem Lexer.Comes.chain {st : State} {rest : List Char} (h : Comes source file st rest) :
    st.tokens.toList.IsChain (fun a b => ¬ (a.kind = .newline ∧ b.kind = .newline)) := by
  induction h with
  | first => exact .nil
  | @step st c cs h ih =>
      cases h.tracks with
      | passes hpiece =>
          rw [after_tokens_none hpiece]
          exact ih
      | breaks hpiece _ hbefore =>
          obtain ⟨t, -, htokens⟩ := after_tokens_some file hpiece
          rw [htokens, Array.toList_push, List.isChain_append]
          refine ⟨ih, .singleton t, fun a ha b _ hboth => ?_⟩
          -- the lexer would be at the start of a line
          have hline := h.lined.line.mpr fun u hu => Option.some.inj (hu.symm.trans ha) ▸ hboth.1
          exact absurd (hbefore.symm.trans hline) Bool.false_ne_true
      | makes hpiece hkind =>
          obtain ⟨t, ht, htokens⟩ := after_tokens_some file hpiece
          rw [htokens, Array.toList_push, List.isChain_append]
          refine ⟨ih, .singleton t, fun a _ b hb hboth => hkind ?_⟩
          obtain rfl := Option.some.inj hb
          exact ht ▸ hboth.2

/-- At the end the lexer has found all tokens but the last one. -/
theorem Lexer.Comes.tokens {st : State} (h : Comes source file st []) :
    (tokenize source file).tokens = st.tokens.toList ++ [.endMark file st.place] := by
  rw [← show Lexer.run file st [] = st by rw [Lexer.run]]
  simp only [tokenize, Array.toList_push, h.run]

/-- **The lexer and recovery agree about open groups.** After any first tokens of a script where each closer finds
    nothing open or an innermost group of its own kind, the groups that recovery sees are those of the lexer. Tokens
    do not begin with a line break, no two line breaks follow each other, and wherever the lexer gives up groups it
    makes a line break. -/
theorem tokenize_groups (source file : String) :
    let tokens := (tokenize source file).tokens
    (∀ p, p <+: tokens → (∃ groups, LeavesOpen source file p groups) ∧
      ∀ groups, LeavesOpen source file p groups → Tidy source file p → (openedBy p).1 = groups) ∧
    (∀ t ∈ tokens.head?, t.kind ≠ .newline) ∧
    tokens.IsChain (fun a b => ¬ (a.kind = .newline ∧ b.kind = .newline)) ∧
    ∀ st c cs, Lexer.Comes source file st (c :: cs) → (st.step c cs).abandons = true →
      ∃ t, t.kind = .newline ∧ (st.after file c cs).tokens = st.tokens.push t := by
  intro tokens
  have hlast := (@Lexer.Comes.first source file).last
  refine ⟨fun p hp => ⟨?_, ?_⟩, tokenize_starts source file, ?_, ?_⟩
  · rw [show tokens = _ from hlast.tokens, List.prefix_concat_iff] at hp
    rcases hp with rfl | hp
    · exact ⟨_, _, [], hlast, rfl, .inr ⟨rfl, hlast.tokens⟩⟩
    · obtain ⟨st, rest, hst, htokens⟩ := Lexer.Comes.first.exists_found (List.nil_prefix) hp
      exact ⟨_, st, rest, hst, rfl, .inl htokens⟩
  · rintro groups ⟨st, rest, hst, rfl, rfl | ⟨rfl, rfl⟩⟩ htidy
    · exact hst.agrees htidy
    · rw [hst.tokens] at htidy ⊢
      rw [openedBy_snoc]
      exact hst.agrees htidy.init
  · rw [show tokens = _ from hlast.tokens, List.isChain_append]
    refine ⟨hlast.chain, .singleton _, fun a _ b hb hboth => ?_⟩
    obtain rfl := Option.some.inj hb
    exact absurd hboth.2 (by decide : TokenKind.endOfInput ≠ .newline)
  · intro st c cs hst habandons
    cases hst.tracks with
    | passes _ _ _ hkeeps => exact absurd (hkeeps.symm.trans habandons) Bool.false_ne_true
    | makes _ _ _ _ hkeeps => exact absurd (hkeeps.symm.trans habandons) Bool.false_ne_true
    | breaks hpiece hkind =>
        obtain ⟨t, ht, htokens⟩ := Lexer.after_tokens_some file hpiece
        exact ⟨t, ht.trans hkind, htokens⟩

end ShellFront
