import ShellFront.Proofs.Token.Pared
import ShellFront.Proofs.Token.Respacing

/-!
# Line comments leave no trace

The line comments of a script can be left out, and the tokens are the same but for their places, bad ones too, and the
same is reported. Pieces are read as before, since a pared text is the same to them. What changes is where open groups
are given up. The lexer looks for a keyword that opens the next statement over blank lines, but not over a comment; so
with the comment gone the groups are given up some lines earlier. There is nothing but blanks, line feeds and comments
in between, and the one token for the end of the line is made either way.

## Contents
- `Lexer.withoutComments`, `uncommented`.
- `Lexer.step_pared`, `Lexer.words_gives_up` and `Lexer.words_withoutComments`.
- `tokenize_uncommented`.
-/

namespace ShellFront

namespace Lexer

variable {previous previous' : Option Char} {groups groups' : Groups} {atLineStart atLineStart' : Bool} {c : Char}
  {cs cs' text more : List Char}

/-! ## Leaving out line comments -/

/-- A line comment begins with `c`, where `cs` follows it: with a number sign that opens no block comment. -/
def OpensLineComment (c : Char) (cs : List Char) : Prop := c = '#' ∧ ¬ ['#', '#'].isPrefixOf cs = true

instance (c : Char) (cs : List Char) : Decidable (OpensLineComment c cs) :=
  inferInstanceAs (Decidable (c = '#' ∧ ¬ ['#', '#'].isPrefixOf cs = true))

/-- The text without the line comments that the lexer passes over. It goes through the text in the steps of the lexer
    and keeps what each step takes, unless this is a line comment. -/
def withoutComments (previous : Option Char) (groups : Groups) (atLineStart : Bool) : List Char → List Char
  | [] => []
  | c :: cs =>
      let s := step previous groups atLineStart c cs
      let lexeme := (c :: cs).take s.length
      let rest := withoutComments lexeme.getLast? s.groups s.atLineStart ((c :: cs).drop s.length)
      if OpensLineComment c cs then rest else lexeme ++ rest
termination_by text => text.length
decreasing_by
  have := step_length_pos previous groups atLineStart c cs
  simp only [List.length_drop, List.length_cons]
  omega

/-- The step at a line comment takes the rest of the line and changes nothing. -/
theorem step_lineComment (h : OpensLineComment c cs) (previous : Option Char) (groups : Groups) (atLineStart : Bool) :
    step previous groups atLineStart c cs = ⟨1 + runLength (· != '\n') cs, none, groups, atLineStart, false⟩ := by
  obtain ⟨rfl, hopen⟩ := h
  change comment groups atLineStart cs = _
  rw [comment, if_neg hopen]

/-- **A text without its line comments is pared.** -/
theorem withoutComments_pared (previous : Option Char) (groups : Groups) (atLineStart : Bool) (text : List Char) :
    Pared text (withoutComments previous groups atLineStart text) := by
  fun_induction withoutComments previous groups atLineStart text with
  | case1 => exact .nil
  | case2 previous groups atLineStart c cs s lexeme rest hcomment ih =>
      have hlength : s.length = 1 + runLength (· != '\n') cs :=
        congrArg Step.length (step_lineComment hcomment previous groups atLineStart)
      obtain ⟨rfl, hopen⟩ := hcomment
      refine .skip hopen ?_
      rw [← (take_drop_line cs).2, ← hlength]
      exact ih
  | case3 previous groups atLineStart c cs s lexeme rest hcomment ih =>
      have happend := ih.append lexeme
      rwa [List.take_append_drop] at happend

/-! ## Steps -/

/-- How far a step goes does not depend on the open groups. -/
theorem step_length (previous : Option Char) (groups groups' : Groups) (atLineStart atLineStart' : Bool) (c : Char)
    (cs : List Char) :
    (step previous groups atLineStart c cs).length = (step previous groups' atLineStart' c cs).length := by
  have hsign (groups : Groups) (atLineStart : Bool) :
      (comment groups atLineStart cs).length = (comment [] true cs).length := by
    rw [comment, comment]
    split
    · cases findText ['#', '#', '#'] (cs.drop 2) <;> rfl
    · rfl
  rw [step, step]
  split
  · rfl
  · split
    · rw [hsign groups, hsign groups']
    · split
      · rw [lineBreak_length, lineBreak_length]
      · rfl

/-- A block comment is the same before a pared text. -/
theorem comment_pared (hopen : ['#', '#'].isPrefixOf cs = true)
    (h : ParedAfter ((comment groups atLineStart cs).length - 1) cs cs') :
    comment groups atLineStart cs' = comment groups atLineStart cs := by
  obtain ⟨more, hmore, rfl⟩ := h
  cases hfound : findText ['#', '#', '#'] (cs.drop 2) with
  | none =>
      have hlength : (comment groups atLineStart cs).length - 1 = cs.length := by
        rw [comment, if_pos hopen, hfound]
        exact Nat.add_sub_cancel_left ..
      rw [hlength, List.drop_length] at hmore
      rw [hlength, List.take_length, hmore.eq_nil, List.append_nil]
  | some n =>
      have hlength : (comment groups atLineStart cs).length - 1 = n + 5 := by
        rw [comment, if_pos hopen, hfound]
        rfl
      have hbody : 2 ≤ cs.length := (List.isPrefixOf_iff_prefix.mp hopen).length_le
      have hopen' : ['#', '#'].isPrefixOf (cs.take (n + 5) ++ more) = true :=
        isPrefixOf_cut hopen (Nat.le_add_left 2 (n + 3)) more
      have hcut : findText ['#', '#', '#'] ((cs.take (n + 5) ++ more).drop 2) = some n := by
        rw [drop_cut (Nat.le_add_left 2 (n + 3)) hbody]
        exact findText_cut hfound (Nat.le_refl _) more
      rw [hlength, comment, comment, if_pos hopen, if_pos hopen', hcut, hfound]

/-- **A step is the same before a pared text**, unless it has to look whether the next line opens a statement. -/
theorem step_pared (hcomment : ¬ OpensLineComment c cs)
    (h : ParedAfter ((step previous groups atLineStart c cs).length - 1) cs cs')
    (hopens : c = '\n' → groups.hidesNewline = true → opensStatement cs' = opensStatement cs) :
    step previous groups atLineStart c cs' = step previous groups atLineStart c cs := by
  rw [step] at h ⊢
  rw [step]
  split
  · rfl
  · next hspace =>
      rw [if_neg hspace] at h
      split
      · next hsign =>
          rw [if_pos hsign] at h
          exact comment_pared (not_not.mp fun hopen => hcomment ⟨hsign, hopen⟩) h
      · next hsign =>
          rw [if_neg hsign] at h
          split
          · next hfeed =>
              have hsame : (groups.hidesNewline && opensStatement cs') =
                  (groups.hidesNewline && opensStatement cs) := by
                cases hhides : groups.hidesNewline with
                | false => rfl
                | true => rw [hopens hfeed hhides]
              rw [lineBreak, lineBreak, hsame]
          · next hfeed =>
              rw [if_neg hfeed] at h
              rw [Piece.next_pared h]

/-! ## Groups that are given up earlier -/

/-- No statement opens with a number sign. -/
theorem opensStatement_sign (cs : List Char) : opensStatement ('#' :: cs) = false := rfl

/-- A line that opens a statement still does so in a pared text. -/
theorem opensStatement_pared (hpared : Pared text more) (h : opensStatement text = true) :
    opensStatement more = true := by
  induction hpared with
  | nil => exact h
  | @keep text more c rest ih =>
      by_cases hc : (isBlank c || c == '\n') = true
      · rw [opensStatement_skip hc] at h ⊢
        exact ih h
      · obtain ⟨k, hk, hopens⟩ := exists_keyword hc h
        rw [← (Pared.keep c rest).same (takeWhile_stem (by decide : Stemmed isNameChar))] at hk
        rw [opensStatement_keyword hk, hopens]
  | skip hopen rest ih => exact absurd h (by rw [opensStatement_sign]; decide)

/-- The token at the end of a line. -/
def newlineWord : Word := (['\n'], ⟨.newline, 1, none, none⟩)

/-- A line feed that makes no token, because nothing stands on the line or the open groups hide it. -/
theorem words_feed_quiet (hhides : (atLineStart || groups.hidesNewline) = true)
    (hkeeps : (groups.hidesNewline && opensStatement cs) = false) (previous : Option Char) :
    words previous groups atLineStart ('\n' :: cs) = words (some '\n') groups atLineStart cs := by
  have hstep : step previous groups atLineStart '\n' cs = ⟨1, none, groups, atLineStart, false⟩ := by
    change lineBreak groups atLineStart cs = _
    rw [lineBreak, hkeeps, if_neg Bool.false_ne_true, if_pos hhides]
  rw [words, hstep]
  rfl

/-- A line feed where open groups are given up. -/
theorem words_feed_gives_up (hhides : groups.hidesNewline = true) (hopens : opensStatement cs = true)
    (previous : Option Char) : words previous groups atLineStart ('\n' :: cs) =
      (if atLineStart then [] else [newlineWord]) ++ words (some '\n') groups.abandon true cs := by
  have hstep : step previous groups atLineStart '\n' cs =
      ⟨1, if atLineStart then none else some ⟨.newline, 1, none, none⟩, groups.abandon, true, true⟩ := by
    change lineBreak groups atLineStart cs = _
    have hgives : (groups.hidesNewline && opensStatement cs) = true := by rw [hhides, hopens, Bool.and_true]
    rw [lineBreak, hgives, if_pos rfl, hidesNewline_abandon, Bool.or_false]
    cases atLineStart <;> rfl
  rw [words, hstep]
  cases atLineStart <;> rfl

/-- Where a line ends the character before does not count. -/
theorem words_lineEnd (h : LineEnd text) (previous previous' : Option Char) (groups : Groups) (atLineStart : Bool) :
    words previous groups atLineStart text = words previous' groups atLineStart text := by
  cases text with
  | nil => rw [words, words]
  | cons c text =>
      obtain rfl : c = '\n' := h c rfl
      rw [words, words]
      rfl

/-- A line comment is passed over. -/
theorem words_lineComment (hopen : ¬ ['#', '#'].isPrefixOf cs = true) (previous : Option Char) (groups : Groups)
    (atLineStart : Bool) : words previous groups atLineStart ('#' :: cs) =
      words previous groups atLineStart (cs.dropWhile (· != '\n')) := by
  rw [words, step_lineComment ⟨rfl, hopen⟩]
  dsimp only
  rw [(take_drop_line cs).2]
  exact words_lineEnd (lineEnd_dropWhile cs) ..

/-- **Open groups may be given up earlier.** Where the next line opens a statement only when line comments are left
    out, the lexer comes to give up the groups, and makes the one token for the end of the line. -/
theorem words_gives_up (hpared : Pared text more) (hhides : groups.hidesNewline = true)
    (hnot : opensStatement text = false) (hopens : opensStatement more = true) (previous : Option Char) :
    words previous groups atLineStart text =
      (if atLineStart then [] else [newlineWord]) ++ words previous groups.abandon true text := by
  have habandon (cs : List Char) (previous : Option Char) :
      words previous groups.abandon true ('\n' :: cs) = words (some '\n') groups.abandon true cs :=
    words_feed_quiet rfl (by rw [hidesNewline_abandon, Bool.false_and]) previous
  induction hpared generalizing previous with
  | nil => contradiction
  | @keep text more c rest ih =>
      by_cases hc : (isBlank c || c == '\n') = true
      · rw [opensStatement_skip hc] at hnot hopens
        by_cases hblank : isBlank c = true
        · have hpass := @words_blanks [c] (by simpa using hblank) (List.cons_ne_nil c []) previous
          rw [← List.singleton_append, hpass, hpass]
          exact ih hnot hopens none
        · obtain rfl : c = '\n' := by simpa [hblank] using hc
          rw [words_feed_quiet (by rw [hhides, Bool.or_true]) (by rw [hnot, Bool.and_false]), habandon]
          exact ih hnot hopens (some '\n')
      · obtain ⟨k, hk, hkopens⟩ := exists_keyword hc hopens
        rw [(Pared.keep c rest).same (takeWhile_stem (by decide : Stemmed isNameChar))] at hk
        rw [opensStatement_keyword hk, hkopens] at hnot
        contradiction
  | @skip text more hopen rest ih =>
      rw [words_lineComment hopen, words_lineComment hopen]
      cases hnext : opensStatement (text.dropWhile (· != '\n')) with
      | false => exact ih hnext hopens previous
      | true =>
          -- the comment is the last one before the statement, so the groups are given up right after it
          have hend := lineEnd_dropWhile text
          generalize text.dropWhile (· != '\n') = tail at hnext hend
          cases tail with
          | nil => contradiction
          | cons d tail =>
              obtain rfl : d = '\n' := hend d rfl
              rw [opensStatement_skip (by decide)] at hnext
              rw [words_feed_gives_up hhides hnext, habandon]

/-- After a line feed that opens no statement before line comments are left out, and opens one then. -/
theorem words_feed_pared (hpared : Pared cs more) (hhides : groups.hidesNewline = true)
    (hne : opensStatement more ≠ opensStatement cs)
    (hrest : words (some '\n') groups.abandon true more = words (some '\n') groups.abandon true cs)
    (previous : Option Char) (atLineStart : Bool) :
    words previous groups atLineStart ('\n' :: more) = words previous groups atLineStart ('\n' :: cs) := by
  have hnot : opensStatement cs = false := by
    cases hopens : opensStatement cs with
    | false => rfl
    | true => exact absurd ((opensStatement_pared hpared hopens).trans hopens.symm) hne
  have hopens : opensStatement more = true := by
    rw [hnot] at hne
    exact Bool.not_eq_false _ ▸ hne
  calc words previous groups atLineStart ('\n' :: more)
    _ = (if atLineStart then [] else [newlineWord]) ++ words (some '\n') groups.abandon true more :=
      words_feed_gives_up hhides hopens previous
    _ = (if atLineStart then [] else [newlineWord]) ++ words (some '\n') groups.abandon true cs := congrArg _ hrest
    _ = words (some '\n') groups atLineStart cs := (words_gives_up hpared hhides hnot hopens _).symm
    _ = words previous groups atLineStart ('\n' :: cs) :=
      (words_feed_quiet (by rw [hhides, Bool.or_true]) (by rw [hnot, Bool.and_false]) previous).symm

/-! ## The walk -/

/-- A step that is the same goes on with the same words if these are the same after it. -/
theorem words_kept {s : Step} (hstep : step previous groups atLineStart c cs = s)
    (hstep' : step previous groups atLineStart c cs' = s) (hcs' : c :: cs' = (c :: cs).take s.length ++ more)
    (hpared : Pared ((c :: cs).drop s.length) more)
    (hrest : let lexeme := (c :: cs).take s.length
      words lexeme.getLast? s.groups s.atLineStart more =
        words lexeme.getLast? s.groups s.atLineStart ((c :: cs).drop s.length)) :
    words previous groups atLineStart (c :: cs') = words previous groups atLineStart (c :: cs) := by
  have hsplit : (c :: cs').take s.length = (c :: cs).take s.length ∧ (c :: cs').drop s.length = more := by
    rw [hcs']
    rcases Nat.le_total s.length (c :: cs).length with hle | hle
    · have hlength : ((c :: cs).take s.length).length = s.length := by rw [List.length_take, Nat.min_eq_left hle]
      exact ⟨List.take_left' hlength, List.drop_left' hlength⟩
    · rw [List.drop_eq_nil_of_le hle] at hpared
      rw [hpared.eq_nil, List.append_nil, List.take_of_length_le hle, List.take_of_length_le hle,
        List.drop_eq_nil_of_le hle]
      exact ⟨rfl, rfl⟩
  rw [words, words, hstep, hstep', hsplit.1, hsplit.2]
  dsimp only at hrest ⊢
  rw [hrest]

/-- **The words of a text are the same without line comments.** The lexer may be in any state, also in another one than
    when the comments were found. -/
theorem words_withoutComments (previous : Option Char) (groups groups' : Groups) (atLineStart atLineStart' : Bool)
    (text : List Char) : words previous groups atLineStart (withoutComments previous groups' atLineStart' text) =
      words previous groups atLineStart text := by
  fun_induction withoutComments previous groups' atLineStart' text generalizing groups atLineStart with
  | case1 => rfl
  | case2 previous groups' atLineStart' c cs s lexeme rest hcomment ih =>
      have hlength : s.length = 1 + runLength (· != '\n') cs :=
        congrArg Step.length (step_lineComment hcomment previous groups' atLineStart')
      have htail : (c :: cs).drop s.length = cs.dropWhile (· != '\n') := by
        rw [hlength, hcomment.1, (take_drop_line cs).2]
      -- a comment goes up to the end of its line, and the end of a line stays one without the comments after it
      have hend : LineEnd rest := by
        refine (lineEnd_dropWhile cs).pared ?_
        rw [← htail]
        exact withoutComments_pared ..
      obtain ⟨rfl, hopen⟩ := hcomment
      rw [words_lineEnd hend previous lexeme.getLast?, ih, htail, words_lineComment hopen]
      exact words_lineEnd (lineEnd_dropWhile cs) ..
  | case3 previous groups' atLineStart' c cs s lexeme rest hcomment ih =>
      have hlength : (step previous groups atLineStart c cs).length = s.length := step_length ..
      have hpos : 0 < s.length := step_length_pos ..
      have hpared : Pared ((c :: cs).drop s.length) rest := withoutComments_pared ..
      obtain ⟨k, hk⟩ : ∃ k, s.length = k + 1 := ⟨s.length - 1, by omega⟩
      rw [hk, List.drop_succ_cons] at hpared
      have hfront : lexeme ++ rest = c :: (cs.take k ++ rest) := by
        rw [show lexeme = (c :: cs).take s.length from rfl, hk, List.take_succ_cons, List.cons_append]
      have hafter : ParedAfter ((step previous groups atLineStart c cs).length - 1) cs (cs.take k ++ rest) := by
        rw [hlength, hk, Nat.add_sub_cancel]
        exact ⟨rest, hpared, rfl⟩
      rw [hfront]
      -- a comment at the start of the next line can hide that it opens a statement
      by_cases hopens : c = '\n' → groups.hidesNewline = true →
          opensStatement (cs.take k ++ rest) = opensStatement cs
      · refine words_kept rfl (step_pared hcomment hafter hopens) ?_ (?_ : Pared _ rest) ?_
        · rw [hlength]
          exact hfront.symm
        · rw [hlength]
          exact withoutComments_pared ..
        · rw [hlength]
          exact ih ..
      · -- the groups are given up here without the comments, and later with them
        simp only [Classical.not_imp] at hopens
        obtain ⟨rfl, hhides, hne⟩ := hopens
        obtain rfl : k = 0 := Nat.succ.inj (hk.symm.trans (lineBreak_length groups' atLineStart' cs))
        have hlexeme : lexeme = ['\n'] := by
          rw [show lexeme = ('\n' :: cs).take s.length from rfl, hk]
          rfl
        have hrest : words lexeme.getLast? groups.abandon true rest =
            words lexeme.getLast? groups.abandon true (('\n' :: cs).drop s.length) := ih ..
        rw [hlexeme, hk] at hrest
        exact words_feed_pared hpared hhides hne hrest previous atLineStart

end Lexer

/-! ## Scripts -/

/-- What is reported about words: a message for each of those that have a problem. -/
def Lexer.messages (found : List Lexer.Word) : List String :=
  found.filterMap fun w => w.2.problem.map LexicalProblem.message

/-- A walk reports the problems of the words of the text. -/
theorem Lexer.run_messages (file : String) (st : State) (text : List Char) :
    (run file st text).report.toList.map (·.message) = st.report.toList.map (·.message) ++
      messages (words st.previous st.groups st.atLineStart text) := by
  fun_induction run file st text with
  | case1 st => rw [words, messages, List.filterMap_nil, List.append_nil]
  | case2 st c cs s ih =>
      rw [ih, words]
      cases hpiece : (step st.previous st.groups st.atLineStart c cs).piece with
      | none => simp only [State.take, s, hpiece, Option.bind_none]
      | some piece =>
          cases hproblem : piece.problem with
          | none =>
              rw [messages, messages, List.filterMap_cons_none (by rw [hproblem]; rfl)]
              simp only [State.take, s, hpiece, hproblem, Option.bind_some]
          | some problem =>
              rw [messages, messages, List.filterMap_cons_some (by rw [hproblem]; rfl)]
              simp only [State.take, s, hpiece, hproblem, Option.bind_some, Report.toList_add, List.map_append,
                List.append_assoc]
              rfl

/-- A script without its line comments. -/
def uncommented (source : String) : String := String.ofList (Lexer.withoutComments none [] true source.toList)

/-- **Line comments leave no trace.** When the line comments of a script are left out, each from its number sign to the
    end of the line, the script has the same tokens but for their places, bad ones too, and the same messages are
    reported about it. -/
theorem tokenize_uncommented (source file file' : String) :
    (tokenize (uncommented source) file').tokens.map Token.content = (tokenize source file).tokens.map Token.content ∧
      (tokenize (uncommented source) file').report.toList.map (·.message) =
        (tokenize source file).report.toList.map (·.message) := by
  have hwords : Lexer.words none [] true (uncommented source).toList = Lexer.words none [] true source.toList := by
    rw [uncommented, String.toList_ofList]
    exact Lexer.words_withoutComments ..
  have hmessages (text file : String) : (tokenize text file).report.toList.map (·.message) =
      Lexer.messages (Lexer.words none [] true text.toList) := Lexer.run_messages file (.first .empty) text.toList
  refine ⟨?_, ?_⟩
  · rw [tokenize_content, tokenize_content, hwords]
  · rw [hmessages, hmessages, hwords]

/-- No line comment begins in a block comment or in a string. -/
example : uncommented "(a # b\n# \"c\nlet x ### # ### = \"#\"" = "(a \n\nlet x ### # ### = \"#\"" := by
  decide +kernel

end ShellFront
