import Mathlib.Data.List.TakeWhile
import ShellFront.Proofs.Number.Spellings
import ShellFront.Proofs.Token.Lossless

/-!
# Tokens and their text

What the lexer calls a keyword, a symbol, a name or a variable is spelled like one: the kind of a token and its text
go together. So of these tokens nothing has to be known but their kind, or their name. An integer has the mark of its
radix and characters for it.

## Contents
- `SpeltAs`, what text and what value go with a kind.
- `Piece.next_spelt`, with one lemma for each recogniser.
- `Token.Spelt` and `tokenize_spelt`.
-/

namespace ShellFront

/-- What text and what value a token of some kind has. -/
def SpeltAs (text : List Char) (value : Option (List Char)) : TokenKind → Prop
  | .symbol s => text = s.text.toList ∧ value = none
  | .keyword k => text = k.text.toList ∧ value = none
  | .identifier => Keyword.ofText? (String.ofList text) = none ∧ value = none
  | .variableName => ∃ name, text = '$' :: name ∧ value = some name
  | .integer radix =>
      (∃ digits, text = radix.mark.toList ++ digits ∧ digits ≠ [] ∧ ∀ d ∈ digits, radix.allows d = true) ∧ value = none
  | .newline => text = ['\n'] ∧ value = none
  | _ => True

namespace Piece

variable {c : Char} {cs : List Char} {piece : Piece}

/-- A piece is **spelt** as its kind at the front of a text. -/
def Spelt (piece : Piece) (text : List Char) : Prop := SpeltAs (text.take piece.length) piece.value piece.kind

theorem string?_spelt (h : string? c cs = some piece) : piece.Spelt (c :: cs) := by
  have hverbatim {style opener needle body} : (verbatim style opener needle body (unclosed cs)).Spelt (c :: cs) := by
    unfold verbatim
    split <;> trivial
  have hescaped {style delimiter body} : (escapedString style delimiter body (unclosed cs)).Spelt (c :: cs) := by
    unfold escapedString
    split <;> trivial
  unfold string? at h
  split at h <;> cases h
  · exact hverbatim
  · exact hverbatim
  · exact hverbatim
  · exact hescaped
  · exact hescaped

theorem radixMark?_mark {m : Char} {radix : Radix} {allowed : Char → Bool}
    (h : radixMark? m = some (radix, allowed)) : radix.mark.toList = ['0', m] ∧ radix.allows = allowed := by
  unfold radixMark? at h
  split at h <;> cases h <;> exact ⟨rfl, rfl⟩

theorem marked?_spelt (h : marked? c cs = some piece) : piece.Spelt (c :: cs) := by
  unfold marked? at h
  split at h
  · next m ds =>
      split at h
      · next radix allowed hmark =>
          obtain ⟨htext, rfl⟩ := radixMark?_mark hmark
          split at h <;> cases h
          next hstart =>
            refine ⟨⟨ds.takeWhile radix.allows, ?_, ?_, fun d hd => List.mem_takeWhile_imp hd⟩, rfl⟩
            · dsimp only
              rw [Nat.add_comm, List.take_succ_cons, List.take_succ_cons, runLength,
                ← List.prefix_iff_eq_take.mp (List.takeWhile_prefix _), htext]
              rfl
            · cases ds with
              | nil => contradiction
              | cons d ds =>
                  rw [List.takeWhile_cons_of_pos (p := radix.allows) hstart]
                  exact List.cons_ne_nil _ _
      · contradiction
  · contradiction

theorem number?_spelt (h : number? c cs = some piece) : piece.Spelt (c :: cs) := by
  unfold number? at h
  split at h
  · contradiction
  · next hc =>
      rw [Bool.not_eq_true', Bool.not_eq_false] at hc
      split at h
      · next hmarked =>
          cases h
          exact marked?_spelt hmarked
      · cases h
        unfold Spelt
        dsimp only
        split
        · next hwhole =>
            obtain ⟨hfraction, hexponent⟩ := Nat.add_eq_zero_iff.mp hwhole
            refine ⟨⟨c :: cs.takeWhile isDigit, ?_, List.cons_ne_nil _ _, fun d hd => ?_⟩, rfl⟩
            · rw [hexponent, hfraction, Nat.add_zero, Nat.add_comm 1, List.take_succ_cons, runLength,
                ← List.prefix_iff_eq_take.mp (List.takeWhile_prefix _)]
              rfl
            · rcases List.mem_cons.mp hd with rfl | hd
              · exact hc
              · exact List.mem_takeWhile_imp hd
        · trivial

theorem variableForm_spelt (cs : List Char) : (variableForm cs).Spelt ('$' :: cs) := by
  unfold variableForm
  dsimp only
  split
  · trivial
  · split
    · trivial
    · refine ⟨cs.takeWhile isNameChar, ?_, rfl⟩
      dsimp only
      rw [Nat.add_comm, List.take_succ_cons, ← List.prefix_iff_eq_take.mp (List.takeWhile_prefix _)]

theorem dollar?_spelt (h : dollar? c cs = some piece) : piece.Spelt (c :: cs) := by
  unfold dollar? at h
  split at h
  · contradiction
  · next hc =>
      obtain rfl : c = '$' := by simpa using hc
      split at h
      · next hopen =>
          cases h
          cases cs with
          | nil => contradiction
          | cons d ds =>
              obtain rfl : d = '(' := eq_of_beq hopen
              exact ⟨rfl, rfl⟩
      · split at h <;> cases h
        · exact variableForm_spelt cs
        · trivial

theorem flag?_spelt (h : flag? c cs = some piece) : piece.Spelt (c :: cs) := by
  unfold flag? at h
  split at h
  · contradiction
  · split at h
    · cases h
      trivial
    · split at h <;> cases h
      trivial

theorem path?_spelt (h : path? c cs = some piece) : piece.Spelt (c :: cs) := by
  obtain ⟨n, _, rfl⟩ := Option.map_eq_some_iff.mp h
  trivial

theorem word?_spelt (h : word? c cs = some piece) : piece.Spelt (c :: cs) := by
  unfold word? at h
  split at h
  · contradiction
  · dsimp only at h
    split at h
    · next k hk =>
        cases h
        have hspelled : k.text = String.ofList (c :: cs.take (nameLength cs)) := by simpa using List.find?_some hk
        refine ⟨?_, rfl⟩
        dsimp only
        rw [Nat.add_comm, List.take_succ_cons, hspelled, String.toList_ofList]
    · next hk =>
        split at h <;> cases h
        · trivial
        · refine ⟨?_, rfl⟩
          dsimp only
          rw [Nat.add_comm, List.take_succ_cons]
          exact hk

theorem symbol?_spelt (h : symbol? c cs = some piece) : piece.Spelt (c :: cs) := by
  obtain ⟨s, hs, rfl⟩ := Option.map_eq_some_iff.mp h
  have hfound := List.find?_some hs
  have hprefix : s.text.toList <+: c :: cs := List.isPrefixOf_iff_prefix.mp hfound
  refine ⟨?_, rfl⟩
  dsimp only
  rw [← String.length_toList]
  exact (List.prefix_iff_eq_take.mp hprefix).symm

/-- **Every piece is spelt as its kind.** -/
theorem next_spelt (wordStart : Bool) (c : Char) (cs : List Char) : (next wordStart c cs).Spelt (c :: cs) := by
  have hor {first second : Option Piece} (hfirst : ∀ p, first = some p → p.Spelt (c :: cs))
      (hsecond : ∀ p, second = some p → p.Spelt (c :: cs)) : ∀ p, first.or second = some p → p.Spelt (c :: cs) := by
    intro p hp
    rcases Option.or_eq_some_iff.mp hp with hp | ⟨-, hp⟩
    · exact hfirst p hp
    · exact hsecond p hp
  have hshell : ∀ p, (if wordStart then (flag? c cs).or (path? c cs) else none) = some p → p.Spelt (c :: cs) := by
    intro p hp
    split at hp
    · exact hor (fun _ => flag?_spelt) (fun _ => path?_spelt) p hp
    · contradiction
  have hall := hor (hor (hor (hor (hor (fun _ => string?_spelt) fun _ => number?_spelt) fun _ => dollar?_spelt)
    hshell) fun _ => word?_spelt) fun _ => symbol?_spelt
  unfold next
  dsimp only
  generalize hfound : Option.or _ (symbol? c cs) = found
  cases found with
  | none => trivial
  | some p => exact hall p hfound

end Piece

/-! ## The tokens of a script -/

/-- A token is **spelt** as its kind. -/
def Token.Spelt (t : Token) : Prop := ∃ value, t.value = value.map String.ofList ∧ SpeltAs t.lexeme.toList value t.kind

namespace Lexer

theorem step_spelt {previous : Option Char} {groups : Groups} {atLineStart : Bool} {c : Char} {cs : List Char}
    {piece : Piece} (h : (step previous groups atLineStart c cs).piece = some piece) :
    SpeltAs ((c :: cs).take (step previous groups atLineStart c cs).length) piece.value piece.kind := by
  unfold step at h ⊢
  by_cases hblank : isBlank c = true
  · rw [if_pos hblank] at h
    contradiction
  rw [if_neg hblank] at h ⊢
  by_cases hcomment : c = '#'
  · rw [if_pos hcomment] at h
    unfold comment at h
    split at h
    · split at h <;> cases h
      trivial
    · contradiction
  rw [if_neg hcomment] at h ⊢
  by_cases hfeed : c = '\n'
  · rw [if_pos hfeed] at h ⊢
    unfold lineBreak at h ⊢
    dsimp only at h ⊢
    generalize (if groups.hidesNewline && opensStatement cs then groups.abandon else groups) = after at h ⊢
    split at h <;> cases h
    next hline =>
      rw [if_neg hline, hfeed]
      exact ⟨rfl, rfl⟩
  · rw [if_neg hfeed] at h ⊢
    cases h
    exact Piece.next_spelt _ c cs

/-- **The walk over a text ends with tokens that are spelt as their kinds.** -/
theorem run_spelt (file : String) (text : List Char) {st : State} (h : ∀ t ∈ st.tokens.toList, t.Spelt) :
    ∀ t ∈ (run file st text).tokens.toList, t.Spelt := by
  fun_induction run file st text with
  | case1 => exact h
  | case2 st c cs s ih =>
      refine ih fun t ht => ?_
      cases hpiece : s.piece with
      | none =>
          simp only [State.take, hpiece] at ht
          exact h t ht
      | some piece =>
          simp only [State.take, hpiece, Array.toList_push, List.mem_append, List.mem_singleton] at ht
          rcases ht with ht | rfl
          · exact h t ht
          · exact ⟨piece.value, rfl, by rw [placed, String.toList_ofList]; exact step_spelt hpiece⟩

end Lexer

/-- **The tokens of a script are spelt as their kinds.** -/
theorem tokenize_spelt (source file : String) : ∀ t ∈ (tokenize source file).tokens, t.Spelt := by
  intro t ht
  simp only [tokenize, Array.toList_push, List.mem_append, List.mem_singleton] at ht
  rcases ht with ht | rfl
  · exact Lexer.run_spelt file source.toList (by simp [Lexer.State.first]) t ht
  · exact ⟨none, rfl, trivial⟩

end ShellFront
