import ShellFront.Proofs.Token.OpenGroups

/-!
# The line after a group that was given up

The lexer gives up open groups when it guesses that the next line opens a statement. It guesses by the first run of
letters, digits and underscores on that line. A name goes on over a dash when another such character follows, so the
guess can be wrong in one way: the word on the next line begins with the keyword and a dash. In all other cases it is
the keyword itself.

## Contents
- `Piece.nameLength_cases`: where a name goes on after its first run of name characters.
- `Opens` and `Piece.next_opens`, the word where the guess was made.
- `groupsGivenUp_opens`, and `groupsGivenUp_dash` where the guess is wrong.
-/

namespace ShellFront

namespace Piece

variable {c : Char} {cs : List Char} {k : Keyword}

/-- A name ends with its first run of name characters, or a dash follows there that belongs to it. -/
theorem nameLength_cases (cs : List Char) : nameLength cs = runLength isNameChar cs ∨
    cs.takeWhile isNameChar ++ ['-'] <+: cs.take (nameLength cs) := by
  induction cs with
  | nil => exact .inl rfl
  | cons d ds ih =>
      rw [nameLength, runLength, List.takeWhile_cons]
      cases hd : isNameChar d with
      | true =>
          rw [Bool.true_or, if_pos rfl, if_pos rfl, List.length_cons, Nat.add_comm 1, List.take_succ_cons]
          rcases ih with hends | hdash
          · exact .inl (by rw [hends, runLength])
          · exact .inr ((List.prefix_cons_inj d).mpr hdash)
      | false =>
          rw [Bool.false_or, if_neg Bool.false_ne_true, List.nil_append]
          split
          · next hdash =>
              rw [Bool.and_eq_true, beq_iff_eq] at hdash
              rw [Nat.add_comm, List.take_succ_cons, hdash.1]
              exact .inr (List.prefix_append ['-'] _)
          · exact .inl rfl

/-- No keyword holds a dash. -/
theorem dash_notMem_keyword (k : Keyword) : '-' ∉ k.text.toList := by
  cases k <;> decide

/-- The characters that spell a keyword. -/
theorem text_of_ofText? {text : List Char} (h : Keyword.ofText? (String.ofList text) = some k) :
    k.text.toList = text := by
  have hspelled : k.text = String.ofList text := by simpa using List.find?_some h
  rw [hspelled, String.toList_ofList]

end Piece

/-- A word **opens** like a keyword: it is the keyword, or a name or path that goes on with a dash after it. -/
def Opens (k : Keyword) (kind : TokenKind) (lexeme : List Char) : Prop :=
  kind = .keyword k ∨ (kind = .identifier ∨ kind = .path) ∧ k.text.toList ++ ['-'] <+: lexeme

namespace Piece

variable {c : Char} {cs : List Char} {k : Keyword}

/-- A word whose first run of name characters is a keyword opens like it. -/
theorem word?_opens (h : Keyword.ofText? (String.ofList ((c :: cs).takeWhile isNameChar)) = some k) :
    ∃ piece, word? c cs = some piece ∧ Opens k piece.kind ((c :: cs).take piece.length) := by
  have hstart : isNameStart c = true := Lexer.startsWith_keyword h
  have hname : (c :: cs).takeWhile isNameChar = c :: cs.takeWhile isNameChar := by
    rw [List.takeWhile_cons, if_pos (isNameChar_of_isNameStart hstart)]
  rw [word?, hstart, if_neg (by decide)]
  dsimp only
  rcases nameLength_cases cs with hends | hdash
  · have hrun : cs.take (nameLength cs) = cs.takeWhile isNameChar := by
      rw [hends, runLength, ← List.prefix_iff_eq_take.mp (List.takeWhile_prefix _)]
    rw [hrun, ← hname, h]
    exact ⟨_, rfl, .inl rfl⟩
  · have hlong : k.text.toList ++ ['-'] <+: (c :: cs).take (1 + nameLength cs) := by
      rw [text_of_ofText? h, hname, Nat.add_comm, List.take_succ_cons, List.cons_append, List.prefix_cons_inj]
      exact hdash
    split
    · next k' hk' =>
        -- the whole name would be a keyword with a dash
        refine absurd ?_ (dash_notMem_keyword k')
        rw [text_of_ofText? hk', ← List.take_succ_cons, Nat.add_comm]
        exact hlong.subset (List.mem_append_right _ (List.mem_singleton_self '-'))
    · split
      · refine ⟨_, rfl, .inr ⟨.inr rfl, hlong.trans ?_⟩⟩
        exact List.take_prefix_take_left (Nat.le_add_right _ _)
      · exact ⟨_, rfl, .inr ⟨.inl rfl, hlong⟩⟩

/-- **A piece whose first run of name characters is a keyword opens like it.** -/
theorem next_opens (h : Keyword.ofText? (String.ofList ((c :: cs).takeWhile isNameChar)) = some k)
    (wordStart : Bool) : Opens k (next wordStart c cs).kind ((c :: cs).take (next wordStart c cs).length) := by
  have hstart : isNameStart c = true := Lexer.startsWith_keyword h
  have hquote : ¬ startsWith (· == '\x22') cs = true := by
    -- a quote would end the keyword after one letter
    intro hquote
    cases cs with
    | nil => contradiction
    | cons d ds =>
        obtain rfl := eq_of_beq (show (d == '\x22') = true from hquote)
        have hone : k.text.toList = [c] := by
          rw [text_of_ofText? h, List.takeWhile_cons, if_pos (isNameChar_of_isNameStart hstart)]
          rfl
        have hlong : k.text.toList.length ≠ 1 := by cases k <;> decide
        exact hlong (by rw [hone, List.length_singleton])
  have hshell : (if wordStart then shellWord? c cs else none) = none := by
    split
    · exact shellWord_of_isNameStart hstart cs
    · rfl
  obtain ⟨piece, hword, hopens⟩ := word?_opens h
  rw [next_eq, literal?_of_isNameStart hstart hquote, hshell, hword, Option.none_or, Option.none_or, Option.some_or,
    Option.getD_some]
  exact hopens

end Piece

namespace Lexer

variable {source file : String} {st : State} {cs rest : List Char}

/-- The words of the rest of a text are the tokens that are still to be found. -/
theorem Comes.words (h : Comes source file st rest) : (tokenize source file).tokens.map Token.content =
    st.tokens.toList.map Token.content ++
      (words st.previous st.groups st.atLineStart rest).map content ++ [(.endOfInput, "", none)] := by
  rw [← run_words file, h.run]
  simp only [tokenize, Array.toList_push, List.map_append]
  rfl

/-- A line feed that becomes a token ends a line. -/
theorem endsLine_of_piece (hcounts : Counts st.groups st.atLineStart) (hpiece : (st.step '\n' cs).piece ≠ none) :
    EndsLine st.groups cs (st.step '\n' cs) := by
  rcases lineBreak_cases hcounts cs with ⟨hnone, -⟩ | hends
  · exact absurd hnone hpiece
  · exact hends

end Lexer

/-- **Groups are given up only in front of a word that opens like a statement keyword.** Where the lexer makes a line
    break out of a line feed that the innermost open group hides, the next token is a keyword that opens a statement,
    or a name or path that begins with such a keyword and a dash. -/
theorem groupsGivenUp_opens {source file : String} {st : Lexer.State} {cs : List Char}
    (h : Lexer.Comes source file st ('\n' :: cs)) (hhides : st.groups.hidesNewline = true)
    (hmakes : (st.step '\n' cs).piece ≠ none) : ∃ feed t more k,
      (tokenize source file).tokens = st.tokens.toList ++ feed :: t :: more ∧ feed.kind = .newline ∧
      k.opensStatement = true ∧ Opens k t.kind t.lexeme.toList := by
  have hends := Lexer.endsLine_of_piece h.counts hmakes
  obtain ⟨feed, hfeed, htokens⟩ := Lexer.after_tokens_some file hends.piece
  have hnext : Lexer.Comes source file (st.after file '\n' cs) cs := by
    have hstep := h.step
    rwa [hends.length] at hstep
  obtain ⟨d, ds, k, wordStart, ws, hk, hopens, hwords⟩ :=
    Lexer.words_first (hends.gives hhides) hends.counts (st.after file '\n' cs).previous
  -- what follows the line break is made of the words of the next line
  obtain ⟨found, hfound⟩ := hnext.found
  have hcontent : found.map Token.content = Lexer.content ((d :: ds).take (Piece.next wordStart d ds).length,
      Piece.next wordStart d ds) :: (ws.map Lexer.content ++ [(.endOfInput, "", none)]) := by
    have hsame := hnext.words
    rw [show (st.after file '\n' cs).atLineStart = true from hends.line,
      show (st.after file '\n' cs).groups = (st.step '\n' cs).groups from rfl, hwords, ← hfound, List.map_append,
      List.append_assoc] at hsame
    exact List.append_cancel_left hsame
  cases found with
  | nil => contradiction
  | cons t more =>
      have ht := (List.cons.inj hcontent).1
      refine ⟨feed, t, more, k, ?_, hfeed, hopens, ?_⟩
      · rw [← hfound, htokens, Array.toList_push, List.append_assoc, List.singleton_append]
      · have hkind : t.kind = _ := congrArg Prod.fst ht
        have hlexeme : t.lexeme = _ := congrArg (·.2.1) ht
        rw [hkind, hlexeme]
        exact String.toList_ofList ▸ Piece.next_opens hk wordStart

/-- In front of a line that opens with a keyword an open parenthesis is given up. -/
theorem groupsGivenUp_let :
    let st := (Lexer.State.first .empty).after "a" '(' ['\n', 'l', 'e', 't', ' ', 'x']
    let cs := ['l', 'e', 't', ' ', 'x']
    Lexer.Comes "(\nlet x" "a" st ('\n' :: cs) ∧ st.groups.hidesNewline = true ∧ (st.step '\n' cs).piece ≠ none ∧
      ∃ feed t more k, (tokenize "(\nlet x" "a").tokens = st.tokens.toList ++ feed :: t :: more ∧
        feed.kind = .newline ∧ k.opensStatement = true ∧ Opens k t.kind t.lexeme.toList := by
  intro st cs
  have hcomes : Lexer.Comes "(\nlet x" "a" st ('\n' :: cs) := by
    have hfirst := @Lexer.Comes.first "(\nlet x" "a"
    rw [show "(\nlet x".toList = '(' :: '\n' :: cs by decide] at hfirst
    exact hfirst.step
  have hhides : st.groups.hidesNewline = true := by decide +kernel
  have hmakes : (st.step '\n' cs).piece ≠ none := by decide +kernel
  exact ⟨hcomes, hhides, hmakes, groupsGivenUp_opens hcomes hhides hmakes⟩

/-- A name that begins with a keyword and a dash makes the lexer give up the group as well, though it opens no
    statement. -/
theorem groupsGivenUp_dash :
    (tokenize "(\nlet-x" "a").tokens.map Token.content =
      [(.symbol .openParen, "(", none), (.newline, "\n", none), (.identifier, "let-x", none), (.endOfInput, "", none)] ∧
      (tokenize "(\nlet-x" "a").log[0]? = some (.groupAbandoned 2) := by
  decide +kernel

end ShellFront
