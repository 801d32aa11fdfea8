import ShellFront.Proofs.Token.Alone
import ShellFront.Proofs.Token.Lossless

/-!
# Tokens set apart

The lexemes of a script can be written out again with other blanks between them, and the tokens are the same. The
lexer is followed along its words alone, the characters and the piece of each token, since the place of a token is
all that changes. A word is the same when it is cut out; what has to be seen besides is that the open groups take
the same course, also where they are given up because the next line opens with a keyword: the first word of that
line holds the whole keyword, so it opens the next line in the new text as well.

## Contents
- `Lexer.words` and `Lexer.run_words`.
- `Apart`, `Respaced`.
- `Lexer.words_apart`, `tokenize_respaced`.
-/

namespace ShellFront

/-- What a token says: all of it but its place. -/
def Token.content (t : Token) : TokenKind × String × Option String := (t.kind, t.lexeme, t.value)

namespace Lexer

/-! ## Words -/

/-- A word of a script: the characters of a token and the piece that they make. -/
abbrev Word := List Char × Piece

/-- What the token that is made of a word says. -/
def content (w : Word) : TokenKind × String × Option String :=
  (w.2.kind, String.ofList w.1, w.2.value.map String.ofList)

/-- The words that the lexer finds in a text. -/
def words (previous : Option Char) (groups : Groups) (atLineStart : Bool) : List Char → List Word
  | [] => []
  | c :: cs =>
      let s := step previous groups atLineStart c cs
      let lexeme := (c :: cs).take s.length
      let rest := words lexeme.getLast? s.groups s.atLineStart ((c :: cs).drop s.length)
      match s.piece with
      | some piece => (lexeme, piece) :: rest
      | none => rest
termination_by text => text.length
decreasing_by
  have := step_length_pos previous groups atLineStart c cs
  simp only [List.length_drop, List.length_cons]
  omega

variable {previous previous' : Option Char} {groups : Groups} {atLineStart : Bool} {c : Char} {cs rest text : List Char}

/-- A step that makes a token finds a word. -/
theorem words_step {s : Step} {piece : Piece} (h : step previous groups atLineStart c cs = s)
    (hpiece : s.piece = some piece) :
    words previous groups atLineStart (c :: cs) = ((c :: cs).take s.length, piece) ::
      words ((c :: cs).take s.length).getLast? s.groups s.atLineStart ((c :: cs).drop s.length) := by
  rw [words, h, hpiece]

/-- Where no word has a problem a step finds none, and none is found after it. -/
theorem words_problem (h : ∀ w ∈ words previous groups atLineStart (c :: cs), w.2.problem = none) :
    let s := step previous groups atLineStart c cs
    (∀ piece ∈ s.piece, piece.problem = none) ∧
      ∀ w ∈ words ((c :: cs).take s.length).getLast? s.groups s.atLineStart ((c :: cs).drop s.length),
        w.2.problem = none := by
  rw [words] at h
  dsimp only
  cases hpiece : (step previous groups atLineStart c cs).piece with
  | none =>
      simp only [hpiece] at h
      exact ⟨fun piece hmem => absurd hmem (Option.not_mem_none piece), h⟩
  | some piece =>
      simp only [hpiece, List.forall_mem_cons] at h
      exact ⟨fun piece' hmem => Option.mem_some_iff.mp hmem ▸ h.1, h.2⟩

/-- The tokens that a walk finds are made of the words of the text. -/
theorem run_words (file : String) (st : State) (text : List Char) :
    (run file st text).tokens.toList.map Token.content = st.tokens.toList.map Token.content ++
      (words st.previous st.groups st.atLineStart text).map content := by
  fun_induction run file st text with
  | case1 st => rw [words, List.map_nil, List.append_nil]
  | case2 st c cs s ih =>
      rw [ih, words]
      cases hpiece : (step st.previous st.groups st.atLineStart c cs).piece with
      | none => simp only [State.take, s, hpiece]
      | some piece =>
          simp only [State.take, s, hpiece, Array.toList_push, List.map_append, List.map_cons, List.map_nil,
            List.append_assoc, List.cons_append, List.nil_append]
          rfl

/-- A walk reports nothing when no word has a problem. -/
theorem run_report (file : String) (st : State) (text : List Char)
    (h : ∀ w ∈ words st.previous st.groups st.atLineStart text, w.2.problem = none) :
    (run file st text).report = st.report := by
  fun_induction run file st text with
  | case1 => rfl
  | case2 st c cs s ih =>
      obtain ⟨hpieces, hrest⟩ := words_problem h
      have hnone : s.piece.bind Piece.problem = none := Option.bind_eq_none_iff.mpr hpieces
      rw [ih hrest, State.take]
      simp only [hnone]

/-- Every word is proper. -/
theorem words_proper (previous : Option Char) (groups : Groups) (atLineStart : Bool) (text : List Char) :
    ∀ w ∈ words previous groups atLineStart text, w.2.Proper := by
  fun_induction words previous groups atLineStart text with
  | case1 => exact fun _ h => absurd h List.not_mem_nil
  | case2 previous groups atLineStart c cs s lexeme rest piece hpiece ih =>
      refine List.forall_mem_cons.mpr ⟨?_, ih⟩
      rcases step_trivia_or_piece previous groups atLineStart c cs with ⟨hnone, -⟩ | ⟨piece', hs, hproper⟩
      · exact absurd (hnone.symm.trans hpiece) (Option.some_ne_none _).symm
      · exact Option.some.inj (hs.symm.trans hpiece) ▸ hproper
  | case3 previous groups atLineStart c cs s lexeme rest hpiece ih => exact ih

/-- Of the character before a text only this counts: whether a word can begin after it. -/
theorem words_previous (h : isWordStart previous = isWordStart previous') (groups : Groups) (atLineStart : Bool)
    (text : List Char) : words previous groups atLineStart text = words previous' groups atLineStart text := by
  cases text with
  | nil => rw [words, words]
  | cons c cs =>
      have hstep : step previous groups atLineStart c cs = step previous' groups atLineStart c cs := by
        rw [step, step, h]
      rw [words, words, hstep]

theorem isWordStart_blank (hc : isBlank c = true) : isWordStart (some c) = true := by
  have hblank := isBlank_iff.mp hc
  simp only [List.mem_cons, List.not_mem_nil, or_false] at hblank
  rcases hblank with rfl | rfl | rfl <;> rfl

/-- Blanks are passed over. -/
theorem words_blanks {gap : List Char} (hblank : ∀ c ∈ gap, isBlank c = true) (hgap : gap ≠ [])
    (previous : Option Char) (groups : Groups) (atLineStart : Bool) (rest : List Char) :
    words previous groups atLineStart (gap ++ rest) = words none groups atLineStart rest := by
  induction gap generalizing previous with
  | nil => contradiction
  | cons c gap ih =>
      obtain ⟨hc, hblank⟩ := List.forall_mem_cons.mp hblank
      have hstep : step previous groups atLineStart c (gap ++ rest) = ⟨1, none, groups, atLineStart, false⟩ :=
        if_pos hc
      rw [List.cons_append, words, hstep]
      dsimp only [List.drop_one, List.tail_cons, List.take_succ_cons, List.take_zero, List.getLast?_singleton]
      by_cases hgap : gap = []
      · rw [hgap, List.nil_append]
        exact words_previous (isWordStart_blank hc) groups atLineStart rest
      · exact ih hblank hgap (some c)

/-! ## Steps -/

/-- Line breaks count at the start of a line. -/
def Counts (groups : Groups) (atLineStart : Bool) : Prop := atLineStart = true → groups.hidesNewline = false

/-- After groups are given up line breaks count. -/
theorem hidesNewline_abandon (groups : Groups) : groups.abandon.hidesNewline = false := by
  induction groups with
  | nil => rfl
  | cons s outer ih =>
      rw [Groups.abandon, List.dropWhile_cons]
      split
      · exact ih
      · next hs => exact Bool.not_eq_true _ ▸ hs

/-- A character that begins a word: no blank, no comment and no line break begins with it. -/
def BeginsWord (c : Char) : Prop := ¬ isBlank c = true ∧ c ≠ '#' ∧ c ≠ '\n'

theorem step_word (hc : BeginsWord c) (previous : Option Char) (groups : Groups) (atLineStart : Bool) (cs : List Char) :
    let piece := Piece.next (isWordStart previous) c cs
    step previous groups atLineStart c cs = ⟨piece.length, some piece, groups.follow piece.kind, false, false⟩ := by
  rw [step, if_neg hc.1, if_neg hc.2.1, if_neg hc.2.2]

/-- A comment makes no token, unless it is not closed. -/
theorem comment_cases (groups : Groups) (atLineStart : Bool) (cs : List Char) :
    let s := comment groups atLineStart cs
    (s.piece = none ∧ s.groups = groups ∧ s.atLineStart = atLineStart) ∨
      ∃ piece, s.piece = some piece ∧ piece.problem ≠ none := by
  unfold comment
  split
  · split
    · exact .inl ⟨rfl, rfl, rfl⟩
    · exact .inr ⟨_, rfl, Option.some_ne_none _⟩
  · exact .inl ⟨rfl, rfl, rfl⟩

/-- A step that **ends a line** with a token. -/
structure EndsLine (groups : Groups) (cs : List Char) (s : Step) : Prop where
  piece : s.piece = some ⟨.newline, 1, none, none⟩
  length : s.length = 1
  counts : s.groups.hidesNewline = false
  line : s.atLineStart = true
  gives : groups.hidesNewline = true → opensStatement cs = true

theorem lineBreak_length (groups : Groups) (atLineStart : Bool) (cs : List Char) :
    (lineBreak groups atLineStart cs).length = 1 := by
  rw [lineBreak]
  generalize (if (groups.hidesNewline && opensStatement cs) = true then groups.abandon else groups) = after
  split <;> rfl

/-- A line break that makes no token leaves the open groups as they are. -/
theorem lineBreak_cases (hcounts : Counts groups atLineStart) (cs : List Char) :
    let s := lineBreak groups atLineStart cs
    (s.piece = none ∧ s.groups = groups ∧ s.atLineStart = atLineStart) ∨ EndsLine groups cs s := by
  unfold lineBreak
  cases hgives : groups.hidesNewline && opensStatement cs with
  | false =>
      dsimp only
      rw [if_neg Bool.false_ne_true]
      split
      · exact .inl ⟨rfl, rfl, rfl⟩
      · next hshows =>
          rw [Bool.or_eq_true, not_or, Bool.not_eq_true, Bool.not_eq_true] at hshows
          refine .inr ⟨rfl, rfl, hshows.2, rfl, fun hhides => ?_⟩
          rw [hshows.2] at hhides
          contradiction
  | true =>
      obtain ⟨hhides, hopens⟩ := (Bool.and_eq_true _ _).mp hgives
      -- groups that are given up hide line breaks, so something stands on the line
      have hline : atLineStart = false := by
        cases hline : atLineStart with
        | false => rfl
        | true =>
            rw [hcounts hline] at hhides
            contradiction
      have hafter := hidesNewline_abandon groups
      dsimp only
      rw [if_pos rfl, hline, hafter, if_neg (by decide)]
      exact .inr ⟨rfl, rfl, hafter, rfl, fun _ => hopens⟩

/-- **What a step can do**: pass over something, end a line, make a word, or find a comment that is not closed. -/
theorem step_cases (hcounts : Counts groups atLineStart) (previous : Option Char) (c : Char) (cs : List Char) :
    let s := step previous groups atLineStart c cs
    (s.piece = none ∧ s.groups = groups ∧ s.atLineStart = atLineStart) ∨ (c = '\n' ∧ EndsLine groups cs s) ∨
      BeginsWord c ∨ ∃ piece, s.piece = some piece ∧ piece.problem ≠ none := by
  by_cases hspace : isBlank c = true
  · have hstep : step previous groups atLineStart c cs = ⟨1, none, groups, atLineStart, false⟩ := if_pos hspace
    rw [hstep]
    exact .inl ⟨rfl, rfl, rfl⟩
  · by_cases hsign : c = '#'
    · rw [step, if_neg hspace, if_pos hsign]
      rcases comment_cases groups atLineStart cs with hquiet | hbad
      · exact .inl hquiet
      · exact .inr (.inr (.inr hbad))
    · by_cases hfeed : c = '\n'
      · rw [step, if_neg hspace, if_neg hsign, if_pos hfeed]
        rcases lineBreak_cases hcounts cs with hquiet | hends
        · exact .inl hquiet
        · exact .inr (.inl ⟨hfeed, hends⟩)
      · exact .inr (.inr (.inl ⟨hspace, hsign, hfeed⟩))

/-- A step that makes no token leaves the open groups as they are. -/
theorem step_quiet (hcounts : Counts groups atLineStart)
    (h : (step previous groups atLineStart c cs).piece = none) :
    (step previous groups atLineStart c cs).groups = groups ∧
      (step previous groups atLineStart c cs).atLineStart = atLineStart := by
  rcases step_cases hcounts previous c cs with ⟨-, hkeeps⟩ | ⟨-, hends⟩ | hword | ⟨piece, hbad, -⟩
  · exact hkeeps
  · exact absurd (h.symm.trans hends.piece) (Option.some_ne_none _).symm
  · rw [step_word hword] at h
    contradiction
  · exact absurd (h.symm.trans hbad) (Option.some_ne_none _).symm

/-- A step that makes a token without a problem ends a line or makes a word. -/
theorem step_loud {piece : Piece} (hcounts : Counts groups atLineStart)
    (h : (step previous groups atLineStart c cs).piece = some piece) (hproblem : piece.problem = none) :
    (c = '\n' ∧ EndsLine groups cs (step previous groups atLineStart c cs)) ∨ BeginsWord c := by
  rcases step_cases hcounts previous c cs with ⟨hnone, -⟩ | hends | hword | ⟨piece', hbad, hproblem'⟩
  · exact absurd (hnone.symm.trans h) (Option.some_ne_none _).symm
  · exact .inl hends
  · exact .inr hword
  · obtain rfl := Option.some.inj (h.symm.trans hbad)
    exact absurd hproblem hproblem'

/-- After a step that makes a token line breaks count at the start of a line. -/
theorem step_counts {piece : Piece} (hcounts : Counts groups atLineStart)
    (h : (step previous groups atLineStart c cs).piece = some piece) (hproblem : piece.problem = none) :
    Counts (step previous groups atLineStart c cs).groups (step previous groups atLineStart c cs).atLineStart := by
  rcases step_loud hcounts h hproblem with ⟨-, hends⟩ | hword
  · exact fun _ => hends.counts
  · rw [step_word hword]
    exact fun hline => absurd hline Bool.false_ne_true

/-- **A token that is cut out is made by the same step**, if the next line still opens with a keyword where the
    groups are given up for it. -/
theorem step_cut {piece : Piece} (hcounts : Counts groups atLineStart)
    (h : (step previous groups atLineStart c cs).piece = some piece) (hproblem : piece.problem = none)
    (hrest : Gap rest)
    (hopens : EndsLine groups cs (step previous groups atLineStart c cs) → c = '\n' → opensStatement cs = true →
      opensStatement rest = true) :
    (step previous groups atLineStart c cs).length ≤ 1 + cs.length ∧
      step none groups atLineStart c (cs.take ((step previous groups atLineStart c cs).length - 1) ++ rest) =
        step previous groups atLineStart c cs := by
  rcases step_loud hcounts h hproblem with ⟨rfl, hends⟩ | hword
  · have hsame : (groups.hidesNewline && opensStatement rest) = (groups.hidesNewline && opensStatement cs) := by
      cases hhides : groups.hidesNewline with
      | false => rfl
      | true => rw [hends.gives hhides, hopens hends rfl (hends.gives hhides)]
    rw [hends.length, List.take_zero, List.nil_append]
    refine ⟨Nat.le_add_right 1 _, ?_⟩
    change lineBreak groups atLineStart rest = lineBreak groups atLineStart cs
    rw [lineBreak, lineBreak, hsame]
  · rw [step_word hword] at h
    obtain rfl := Option.some.inj h
    rw [step_word hword, step_word hword]
    refine ⟨(Piece.next_append_feed hproblem []).1, ?_⟩
    dsimp only
    rw [show isWordStart none = true from rfl, Piece.next_cut hproblem hrest]

/-! ## Keywords that open a statement -/

variable {k : Keyword}

/-- A text whose first name is a keyword begins with a letter. -/
theorem startsWith_keyword (h : Keyword.ofText? (String.ofList (text.takeWhile isNameChar)) = some k) :
    startsWith isNameStart text = true := by
  have hspelled : k.text = String.ofList (text.takeWhile isNameChar) := by simpa using List.find?_some h
  have hname : k.text.toList = text.takeWhile isNameChar := by rw [hspelled, String.toList_ofList]
  have hhead : startsWith isNameStart k.text.toList = true := by cases k <;> decide
  cases text with
  | nil =>
      rw [hname] at hhead
      contradiction
  | cons d ds =>
      rw [hname, List.takeWhile_cons] at hhead
      split at hhead
      · exact hhead
      · contradiction

theorem not_space_of_isNameStart (hc : isNameStart c = true) : ¬ (isBlank c || c == '\n') = true := by
  intro hspace
  rcases (Bool.or_eq_true _ _).mp hspace with hblank | hfeed
  · rw [Unspaced.blank (by decide : Unspaced isNameStart) hblank] at hc
    contradiction
  · rw [eq_of_beq hfeed] at hc
    contradiction

/-- Whether a line opens a statement is told by its first name, if this is a keyword. -/
theorem opensStatement_keyword (h : Keyword.ofText? (String.ofList (text.takeWhile isNameChar)) = some k) :
    opensStatement text = k.opensStatement := by
  have hself : text.dropWhile (fun c => isBlank c || c == '\n') = text := by
    cases text with
    | nil => rfl
    | cons d ds => rw [List.dropWhile_cons, if_neg (not_space_of_isNameStart (startsWith_keyword h))]
  rw [opensStatement, hself, h]

theorem opensStatement_skip (hc : (isBlank c || c == '\n') = true) (cs : List Char) :
    opensStatement (c :: cs) = opensStatement cs := by
  rw [opensStatement, opensStatement, List.dropWhile_cons, if_pos hc]

theorem opensStatement_blanks {gap : List Char} (hblank : ∀ c ∈ gap, isBlank c = true) (rest : List Char) :
    opensStatement (gap ++ rest) = opensStatement rest := by
  induction gap with
  | nil => rfl
  | cons c gap ih =>
      obtain ⟨hc, hblank⟩ := List.forall_mem_cons.mp hblank
      rw [List.cons_append, opensStatement_skip (by rw [hc, Bool.true_or]), ih hblank]

/-- Where a line opens a statement its first name is a keyword that does so. -/
theorem exists_keyword (hc : ¬ (isBlank c || c == '\n') = true) (h : opensStatement (c :: cs) = true) :
    ∃ k, Keyword.ofText? (String.ofList ((c :: cs).takeWhile isNameChar)) = some k ∧ k.opensStatement = true := by
  have hself : (c :: cs).dropWhile (fun c => isBlank c || c == '\n') = c :: cs := by
    rw [List.dropWhile_cons, if_neg hc]
  rw [opensStatement, hself] at h
  split at h
  · next k hk => exact ⟨k, hk, h⟩
  · contradiction

/-- The first word of a line that opens a statement is the piece where its keyword stands. -/
theorem words_first (h : opensStatement text = true) (hgroups : groups.hidesNewline = false) (previous : Option Char) :
    ∃ d ds k wordStart ws, Keyword.ofText? (String.ofList ((d :: ds).takeWhile isNameChar)) = some k ∧
      k.opensStatement = true ∧ words previous groups true text =
        ((d :: ds).take (Piece.next wordStart d ds).length, Piece.next wordStart d ds) :: ws := by
  induction text generalizing previous with
  | nil => contradiction
  | cons c cs ih =>
      by_cases hc : (isBlank c || c == '\n') = true
      · rw [opensStatement_skip hc] at h
        -- blanks and line breaks before the keyword leave the lexer at the start of a line
        have hstep : (step previous groups true c cs).length = 1 ∧ (step previous groups true c cs).piece = none ∧
            (step previous groups true c cs).groups = groups ∧ (step previous groups true c cs).atLineStart = true := by
          by_cases hblank : isBlank c = true
          · rw [step, if_pos hblank]
            exact ⟨rfl, rfl, rfl, rfl⟩
          · obtain rfl : c = '\n' := by simpa [hblank] using hc
            change (lineBreak groups true cs).length = 1 ∧ (lineBreak groups true cs).piece = none ∧
              (lineBreak groups true cs).groups = groups ∧ (lineBreak groups true cs).atLineStart = true
            rw [lineBreak, hgroups]
            exact ⟨rfl, rfl, rfl, rfl⟩
        obtain ⟨hlength, hpiece, hkeeps, hline⟩ := hstep
        rw [words]
        simp only [hlength, hpiece, hkeeps, hline]
        exact ih h _
      · obtain ⟨k, hk, hopens⟩ := exists_keyword hc h
        have hstart : isNameStart c = true := startsWith_keyword hk
        have hword : BeginsWord c := by
          refine ⟨fun hblank => hc (by rw [hblank, Bool.true_or]), ?_, fun hfeed => hc (by rw [hfeed]; rfl)⟩
          rintro rfl
          contradiction
        rw [words, step_word hword]
        exact ⟨c, cs, k, _, _, hk, hopens, rfl⟩

/-- **The first word of a line that opens a statement opens a statement by itself.** -/
theorem words_opens (h : opensStatement text = true) (hgroups : groups.hidesNewline = false)
    (previous : Option Char) : ∃ w ws, words previous groups true text = w :: ws ∧
      ∀ more, Gap more → opensStatement (w.1 ++ more) = true := by
  obtain ⟨d, ds, k, wordStart, ws, hk, hopens, hwords⟩ := words_first h hgroups previous
  refine ⟨_, ws, hwords, fun more hmore => ?_⟩
  have hname := takeWhile_cut (by decide : Unspaced isNameChar) hmore
    (Piece.runLength_le_next (startsWith_keyword hk) wordStart ds)
  rw [opensStatement_keyword (hname ▸ hk)]
  exact hopens

end Lexer

/-! ## Words set apart -/

/-- A text that holds words one after another, each of them after some blanks. -/
inductive Apart : List (List Char) → List Char → Prop where
  | nil : Apart [] []
  | cons {word : List Char} {words : List (List Char)} {gap rest : List Char} (hgap : gap ≠ [])
      (hblank : ∀ c ∈ gap, isBlank c = true) (hrest : Apart words rest) :
      Apart (word :: words) (gap ++ (word ++ rest))

/-- A text that is made of words with blanks between any two of them. -/
def Respaced (words : List (List Char)) (text : List Char) : Prop :=
  match words with
  | [] => text = []
  | word :: words => ∃ rest, text = word ++ rest ∧ Apart words rest

variable {found : List (List Char)} {text : List Char}

theorem Apart.gap (h : Apart found text) : Gap text := by
  cases h with
  | nil => exact fun c hc => absurd hc (Option.not_mem_none c)
  | cons hgap hblank hrest =>
      intro c hc
      rw [List.head?_append_of_ne_nil _ hgap] at hc
      exact hblank c (List.mem_of_mem_head? hc)

/-- After a blank, words with blanks between them are set apart. -/
theorem Respaced.apart (h : Respaced found text) (hne : found ≠ []) : Apart found (' ' :: text) := by
  cases found with
  | nil => contradiction
  | cons word words =>
      obtain ⟨rest, rfl, hrest⟩ := h
      exact @Apart.cons word words [' '] rest (by decide) (by decide) hrest

/-- Words with the same gap between any two of them. -/
theorem respaced_intercalate {gap : List Char} (hgap : gap ≠ []) (hblank : ∀ c ∈ gap, isBlank c = true)
    (found : List (List Char)) : Respaced found (gap.intercalate found) := by
  cases found with
  | nil => rfl
  | cons word found =>
      induction found generalizing word with
      | nil => exact ⟨[], by simp [List.intercalate], .nil⟩
      | cons next found ih =>
          obtain ⟨rest, hrest, hapart⟩ := ih next
          refine ⟨gap ++ (next ++ rest), ?_, .cons hgap hblank hapart⟩
          rw [← hrest]
          simp [List.intercalate]

namespace Lexer

variable {groups : Groups} {atLineStart : Bool}

/-- A line that opens a statement still does so when its words are set apart. -/
theorem apart_opens {previous : Option Char} (h : opensStatement text = true) (hgroups : groups.hidesNewline = false)
    {text' : List Char} (hapart : Apart ((words previous groups true text).map Prod.fst) text') :
    opensStatement text' = true := by
  obtain ⟨w, ws, hwords, hopens⟩ := words_opens h hgroups previous
  rw [hwords, List.map_cons] at hapart
  cases hapart with
  | cons hgap hblank hrest =>
      rw [opensStatement_blanks hblank]
      exact hopens _ hrest.gap

/-- **Words that are set apart are the words of the text.** -/
theorem words_apart {previous : Option Char} (hvalid : ∀ w ∈ words previous groups atLineStart text, w.2.problem = none)
    (hcounts : Counts groups atLineStart) {text' : List Char}
    (hapart : Apart ((words previous groups atLineStart text).map Prod.fst) text') (previous' : Option Char) :
    words previous' groups atLineStart text' = words previous groups atLineStart text := by
  -- the induction is on the walk over the old text; the new one is a gap and a word ahead at each token
  fun_induction words previous groups atLineStart text generalizing previous' text' with
  | case1 =>
      cases hapart with
      | nil => rw [words]
  | case2 previous groups atLineStart c cs s lexeme rest piece hpiece =>
      rename_i ih
      obtain ⟨hproblem, hvalid⟩ := List.forall_mem_cons.mp hvalid
      rw [List.map_cons] at hapart
      cases hapart with
      | @cons _ _ gap more hgap hblank hrest =>
          have hopens : EndsLine groups cs s → c = '\n' → opensStatement cs = true → opensStatement more = true := by
            intro hends hc hcs
            have hline : rest = words lexeme.getLast? s.groups true cs := by
              simp only [rest, hends.line, hends.length, List.drop_one, List.tail_cons]
            rw [hline] at hrest
            exact apart_opens hcs hends.counts hrest
          obtain ⟨hlength, hstep⟩ := step_cut hcounts hpiece hproblem hrest.gap hopens
          have hpos : 0 < s.length := step_length_pos previous groups atLineStart c cs
          have hlexeme : lexeme = c :: cs.take (s.length - 1) := by
            obtain ⟨k, hk⟩ : ∃ k, s.length = k + 1 := ⟨s.length - 1, by omega⟩
            simp only [lexeme, hk, List.take_succ_cons, Nat.add_sub_cancel]
          have hsize : lexeme.length = s.length := by
            change s.length ≤ 1 + cs.length at hlength
            rw [List.length_take, List.length_cons]
            omega
          have hagain := words_step hstep hpiece
          rw [← List.cons_append, ← hlexeme, List.take_left' hsize, List.drop_left' hsize] at hagain
          rw [words_blanks hblank hgap, hagain, ih hvalid (step_counts hcounts hpiece hproblem) hrest]
  | case3 previous groups atLineStart c cs s lexeme rest hpiece =>
      rename_i ih
      obtain ⟨hgroups, hline⟩ : s.groups = groups ∧ s.atLineStart = atLineStart := step_quiet hcounts hpiece
      rw [hgroups, hline] at ih
      simp only [rest, hgroups, hline] at hvalid hapart ⊢
      exact ih hvalid hcounts hapart previous'

end Lexer

/-! ## Scripts -/

/-- The tokens of a script are made of its words, and the end of the input comes after them. -/
theorem tokenize_content (source file : String) : (tokenize source file).tokens.map Token.content =
    (Lexer.words none [] true source.toList).map Lexer.content ++ [(.endOfInput, "", none)] := by
  simp only [tokenize, Array.toList_push, List.map_append, Lexer.run_words]
  rfl

/-- The lexemes of a script, all but the empty one at the end, are its words. -/
theorem tokenize_lexemes (source file : String) :
    ((tokenize source file).tokens.filter (·.kind != .endOfInput)).map (·.lexeme.toList) =
      (Lexer.words none [] true source.toList).map Prod.fst := by
  have hends : ((Lexer.words none [] true source.toList).map Lexer.content).filter (·.1 != .endOfInput) =
      (Lexer.words none [] true source.toList).map Lexer.content := by
    rw [List.filter_eq_self, List.forall_mem_map]
    intro w hw
    exact bne_iff_ne.mpr (Lexer.words_proper _ _ _ _ w hw).ne_end
  have hcontent : ((tokenize source file).tokens.filter (·.kind != .endOfInput)).map (·.lexeme.toList) =
      (((tokenize source file).tokens.map Token.content).filter (·.1 != .endOfInput)).map (·.2.1.toList) := by
    rw [List.filter_map, List.map_map]
    rfl
  rw [hcontent, tokenize_content, List.filter_append, hends]
  simp [Lexer.content, Function.comp_def]

/-- A script without invalid tokens has words without problems. -/
theorem words_valid {source file : String} (h : ∀ t ∈ (tokenize source file).tokens, t.kind ≠ .invalid) :
    ∀ w ∈ Lexer.words none [] true source.toList, w.2.problem = none := by
  intro w hw
  have hcontent : Lexer.content w ∈ (tokenize source file).tokens.map Token.content := by
    rw [tokenize_content]
    exact List.mem_append_left _ (List.mem_map_of_mem hw)
  obtain ⟨t, ht, htw⟩ := List.mem_map.mp hcontent
  have hkind : w.2.kind ≠ .invalid := by
    rw [show w.2.kind = t.kind from (congrArg Prod.fst htw).symm]
    exact h t ht
  cases hproblem : w.2.problem with
  | none => rfl
  | some problem =>
      exact absurd ((Lexer.words_proper _ _ _ _ w hw).problem_iff.mp (by rw [hproblem]; rfl)) hkind

/-- **Blanks between tokens are all alike.** When no token of a script is invalid and its lexemes are written one after
    another with blanks between them, the new script has the same tokens but for their places, and nothing is reported
    about it. -/
theorem tokenize_respaced (source text file file' : String)
    (hvalid : ∀ t ∈ (tokenize source file).tokens, t.kind ≠ .invalid)
    (hspaced : Respaced (((tokenize source file).tokens.filter (·.kind != .endOfInput)).map (·.lexeme.toList))
      text.toList) :
    (tokenize text file').tokens.map Token.content = (tokenize source file).tokens.map Token.content ∧
      (tokenize text file').report.toList = [] := by
  have hproblem := words_valid hvalid
  rw [tokenize_lexemes] at hspaced
  -- the words are the same, and tokens but for their places are made of words
  have hsame : Lexer.words none [] true text.toList = Lexer.words none [] true source.toList := by
    by_cases hempty : Lexer.words none [] true source.toList = []
    · rw [hempty] at hspaced ⊢
      have htext : text.toList = [] := hspaced
      rw [htext, Lexer.words]
    · have hapart := hspaced.apart (mt List.map_eq_nil_iff.mp hempty)
      have hblank := @Lexer.words_blanks [' '] (by decide) (by decide) none [] true text.toList
      rw [← hblank]
      exact Lexer.words_apart hproblem (fun _ => rfl) hapart none
  rw [tokenize_content, tokenize_content, hsame]
  refine ⟨rfl, ?_⟩
  have hreport := Lexer.run_report file' (.first .empty) text.toList (by
    change ∀ w ∈ Lexer.words none [] true text.toList, w.2.problem = none
    rw [hsame]
    exact hproblem)
  change (Lexer.run file' (.first .empty) text.toList).report.toList = []
  rw [hreport]
  exact Report.toList_empty

/-- A group that is given up for the keyword on the next line, with a tab between any two tokens. -/
theorem tokenize_respaced_tabs :
    let source := "(ls -la/x # all\nlet x=2-1"
    let tokens := (tokenize source "a").tokens
    let text := String.ofList (['\t'].intercalate ((tokens.filter (·.kind != .endOfInput)).map (·.lexeme.toList)))
    (∀ t ∈ tokens, t.kind ≠ .invalid) ∧ text = "(\tls\t-la\t/\tx\t\n\tlet\tx\t=\t2\t-\t1" ∧
      (tokenize text "b").tokens.map Token.content = tokens.map Token.content ∧
      (tokenize text "b").report.toList = [] := by
  intro source tokens text
  have hvalid : ∀ t ∈ (tokenize source "a").tokens, t.kind ≠ .invalid := by decide +kernel
  refine ⟨hvalid, by decide +kernel, tokenize_respaced source text "a" "b" hvalid ?_⟩
  rw [String.toList_ofList]
  exact respaced_intercalate (by decide) (by decide) _

end ShellFront
