import ShellFront.Proofs.Token.Joining

/-!
# Texts between quotes

A text is written between quotes with a backslash before each quote and each backslash in it, or just as it is where
the quotes do not occur in it. Either way the closing quote is found right after the text. One function looks for it and
another one takes the escapes out again; they agree, since both take a backslash together with what follows it.

## Contents
- `hidden`, `Piece.closingQuote_hidden`, `Piece.unescape_hidden`.
- `findText_closing`, and when single and triple quotes are found after a text.
-/

namespace ShellFront

/-! ## Quotes that are hidden -/

/-- A text with a backslash before each backslash and each quote of one kind. -/
def hidden (quote : Char) (text : List Char) : List Char :=
  text.flatMap fun c => if c = quote ∨ c = '\\' then ['\\', c] else [c]

variable {quote c : Char} {text more : List Char}

theorem hidden_cons_pos (hc : c = quote ∨ c = '\\') (text : List Char) :
    hidden quote (c :: text) = '\\' :: c :: hidden quote text := by
  rw [hidden, List.flatMap_cons, if_pos hc]
  rfl

theorem hidden_cons_neg (hc : ¬ (c = quote ∨ c = '\\')) (text : List Char) :
    hidden quote (c :: text) = c :: hidden quote text := by
  rw [hidden, List.flatMap_cons, if_neg hc]
  rfl

namespace Piece

/-- **The first quote that is not hidden closes the string.** -/
theorem closingQuote_hidden (hquote : quote ≠ '\\') (text more : List Char) :
    closingQuote quote (hidden quote text ++ quote :: more) = some (hidden quote text).length := by
  induction text with
  | nil =>
      show closingQuote quote (quote :: more) = some 0
      rw [closingQuote_cons hquote, if_pos rfl]
  | cons c text ih =>
      by_cases hc : c = quote ∨ c = '\\'
      · -- the backslash and what it hides are passed over together
        have hskip : closingQuote quote ('\\' :: c :: (hidden quote text ++ quote :: more)) =
            (closingQuote quote (hidden quote text ++ quote :: more)).map (· + 2) := rfl
        rw [hidden_cons_pos hc, List.cons_append, List.cons_append, hskip, ih]
        rfl
      · have hplain := not_or.mp hc
        rw [hidden_cons_neg hc, List.cons_append, closingQuote_cons hplain.2, if_neg hplain.1, ih]
        rfl

theorem unescape_cons (hc : c ≠ '\\') (cs : List Char) : unescape (c :: cs) = c :: unescape cs := by
  rw [unescape]
  exact fun _ _ h => absurd h hc

/-- **What was hidden is found again**, if an escape stands for the quote. -/
theorem unescape_hidden (hquote : escaped? quote = some quote) (text : List Char) :
    unescape (hidden quote text) = text := by
  induction text with
  | nil => rfl
  | cons c text ih =>
      by_cases hc : c = quote ∨ c = '\\'
      · have hfound : escaped? c = some c := by
          rcases hc with rfl | rfl
          · exact hquote
          · rfl
        rw [hidden_cons_pos hc, unescape, hfound, ih]
      · rw [hidden_cons_neg hc, unescape_cons (not_or.mp hc).2, ih]

end Piece

/-! ## Quotes that do not occur -/

/-- A mark after a text is found there if it begins nowhere in the text. -/
theorem findText_closing {mark : List Char} (hmark : mark ≠ [])
    (h : ∀ suffix, suffix ≠ [] → suffix <:+ text → ¬ mark <+: suffix ++ (mark ++ more)) :
    findText mark (text ++ (mark ++ more)) = some text.length := by
  induction text with
  | nil =>
      obtain ⟨d, ds, rfl⟩ := List.exists_cons_of_ne_nil hmark
      have hstart : (d :: ds).isPrefixOf (d :: (ds ++ more)) = true :=
        List.isPrefixOf_iff_prefix.mpr (List.prefix_append (d :: ds) more)
      rw [List.nil_append, List.cons_append, findText, if_pos hstart]
      rfl
  | cons c text ih =>
      have hnot : ¬ mark.isPrefixOf (c :: (text ++ (mark ++ more))) = true := fun hstart =>
        h _ (List.cons_ne_nil c text) (List.suffix_refl _) (List.isPrefixOf_iff_prefix.mp hstart)
      rw [List.cons_append, findText, if_neg hnot,
        ih fun suffix hne hsuffix => h suffix hne (hsuffix.trans (List.suffix_cons c text))]
      rfl

/-- A quote closes a text that it does not occur in. -/
theorem findText_quote (h : quote ∉ text) (more : List Char) :
    findText [quote] (text ++ quote :: more) = some text.length := by
  refine findText_closing (List.cons_ne_nil _ _) fun suffix hne hsuffix hstart => ?_
  obtain ⟨d, ds, rfl⟩ := List.exists_cons_of_ne_nil hne
  obtain rfl : quote = d := (List.cons_prefix_cons.mp hstart).1
  exact h (hsuffix.subset List.mem_cons_self)

/-- Three quotes close a text if there are no three in a row in it, and it does not end with one. -/
theorem findText_quotes (h : ¬ [quote, quote, quote] <:+: text) (hlast : text.getLast? ≠ some quote)
    (more : List Char) :
    findText [quote, quote, quote] (text ++ quote :: quote :: quote :: more) = some text.length := by
  refine findText_closing (List.cons_ne_nil _ _) fun suffix hne hsuffix hstart => ?_
  have hends : suffix.getLast? ≠ some quote := by
    obtain ⟨front, rfl⟩ := hsuffix
    intro hend
    rw [List.getLast?_append, hend] at hlast
    exact hlast rfl
  -- the three quotes begin in the text, and they cannot end in it
  rcases suffix with - | ⟨a, - | ⟨b, - | ⟨d, ds⟩⟩⟩
  · contradiction
  · simp only [List.singleton_append, List.cons_prefix_cons] at hstart
    exact hends (by rw [← hstart.1]; rfl)
  · simp only [List.cons_append, List.cons_prefix_cons] at hstart
    exact hends (by rw [← hstart.2.1]; rfl)
  · simp only [List.cons_append, List.cons_prefix_cons] at hstart
    obtain ⟨rfl, rfl, rfl, -⟩ := hstart
    exact h ((List.prefix_append [quote, quote, quote] ds).isInfix.trans hsuffix.isInfix)

end ShellFront
