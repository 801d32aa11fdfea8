import ShellFront.Token.Piece

/-!
# What a piece can be

Every recogniser yields a piece of one of two sorts: a token proper, with no problem, or bad text, whose
kind is `invalid` and whose problem says why. No piece is the end of the input, or a line break. The lexer adds an error to
the report exactly for the pieces that carry a problem, so this is what ties errors to `invalid` tokens.

## Contents
- `Piece.Solid`, one lemma for each recogniser, and `Piece.next_solid`.
-/

namespace ShellFront.Piece

/-- A piece is **proper** when it is not the end of the input and has a problem just when it is
    `invalid`. -/
structure Proper (piece : Piece) : Prop where
  ne_end : piece.kind ≠ .endOfInput
  problem_iff : piece.problem.isSome ↔ piece.kind = .invalid

/-- A piece is **solid** when it is proper and no line break. -/
structure Solid (piece : Piece) : Prop extends Proper piece where
  ne_break : piece.kind ≠ .newline

/-! ## The two sorts of pieces -/

/-- Bad text is solid. -/
theorem bad_solid (problem : LexicalProblem) (length : Nat) : (bad problem length).Solid :=
  ⟨⟨nofun, ⟨fun _ => rfl, fun _ => rfl⟩⟩, nofun⟩

/-- A piece without a problem is proper when its kind is that of a token. -/
theorem proper_of_kind {kind : TokenKind} (hend : kind ≠ .endOfInput) (hbad : kind ≠ .invalid)
    (length : Nat) (value : Option (List Char)) : (⟨kind, length, value, none⟩ : Piece).Proper :=
  ⟨hend, ⟨nofun, fun h => absurd h hbad⟩⟩

/-- A piece without a problem is solid when its kind is that of a token and no line break. -/
theorem solid_of_kind {kind : TokenKind} (hend : kind ≠ .endOfInput) (hbad : kind ≠ .invalid)
    (hbreak : kind ≠ .newline) (length : Nat) (value : Option (List Char)) :
    (⟨kind, length, value, none⟩ : Piece).Solid :=
  ⟨proper_of_kind hend hbad length value, hbreak⟩

/-! ## Strings and numbers -/

theorem unclosed_solid (cs : List Char) : (unclosed cs).Solid := bad_solid _ _

theorem verbatim_solid {style opener needle body otherwise} (h : otherwise.Solid) :
    (verbatim style opener needle body otherwise).Solid := by
  unfold verbatim
  split
  · exact solid_of_kind (by nofun) (by nofun) (by nofun) _ _
  · exact h

theorem escapedString_solid {style delimiter body otherwise} (h : otherwise.Solid) :
    (escapedString style delimiter body otherwise).Solid := by
  unfold escapedString
  split
  · exact solid_of_kind (by nofun) (by nofun) (by nofun) _ _
  · exact h

theorem string?_solid {c cs piece} (h : string? c cs = some piece) : piece.Solid := by
  have broken := unclosed_solid cs
  unfold string? at h
  split at h <;> cases h
  · exact verbatim_solid (unclosed_solid _)
  · exact verbatim_solid (unclosed_solid _)
  · exact verbatim_solid broken
  · exact escapedString_solid broken
  · exact escapedString_solid broken

theorem marked?_solid {c cs piece} (h : marked? c cs = some piece) : piece.Solid := by
  unfold marked? at h
  split at h
  · split at h
    · split at h <;> cases h
      exact solid_of_kind (by nofun) (by nofun) (by nofun) _ _
    · cases h
  · cases h

theorem number?_solid {c cs piece} (h : number? c cs = some piece) : piece.Solid := by
  unfold number? at h
  split at h
  · cases h
  · split at h
    · next hm =>
        cases h
        exact marked?_solid hm
    · cases h
      refine solid_of_kind ?_ ?_ ?_ _ _ <;> split <;> nofun

/-! ## Dollar forms, flags, paths, names and symbols -/

theorem variableForm_solid (cs : List Char) : (variableForm cs).Solid := by
  unfold variableForm
  dsimp only
  split
  · exact solid_of_kind (by nofun) (by nofun) (by nofun) _ _
  · split <;> exact solid_of_kind (by nofun) (by nofun) (by nofun) _ _

theorem dollar?_solid {c cs piece} (h : dollar? c cs = some piece) : piece.Solid := by
  unfold dollar? at h
  split at h
  · cases h
  · split at h
    · cases h
      exact solid_of_kind (by nofun) (by nofun) (by nofun) _ _
    · split at h <;> cases h
      · exact variableForm_solid cs
      · exact bad_solid _ _

theorem flag?_solid {c cs piece} (h : flag? c cs = some piece) : piece.Solid := by
  unfold flag? at h
  split at h
  · cases h
  · split at h
    · cases h
      exact solid_of_kind (by nofun) (by nofun) (by nofun) _ _
    · split at h <;> cases h
      exact solid_of_kind (by nofun) (by nofun) (by nofun) _ _

theorem path?_solid {c cs piece} (h : path? c cs = some piece) : piece.Solid := by
  obtain ⟨n, _, rfl⟩ := Option.map_eq_some_iff.mp h
  exact solid_of_kind (by nofun) (by nofun) (by nofun) _ _

theorem word?_solid {c cs piece} (h : word? c cs = some piece) : piece.Solid := by
  unfold word? at h
  split at h
  · cases h
  · dsimp only at h
    split at h
    · cases h
      exact solid_of_kind (by nofun) (by nofun) (by nofun) _ _
    · split at h <;> cases h <;> exact solid_of_kind (by nofun) (by nofun) (by nofun) _ _

theorem symbol?_solid {c cs piece} (h : symbol? c cs = some piece) : piece.Solid := by
  obtain ⟨s, _, rfl⟩ := Option.map_eq_some_iff.mp h
  exact solid_of_kind (by nofun) (by nofun) (by nofun) _ _

/-- Of two recognisers, the second is asked where the first finds nothing. -/
theorem or_solid {first second : Option Piece} (hfirst : ∀ {piece}, first = some piece → piece.Solid)
    (hsecond : ∀ {piece}, second = some piece → piece.Solid) {piece : Piece}
    (h : first.or second = some piece) : piece.Solid := by
  rcases Option.or_eq_some_iff.mp h with h | ⟨-, h⟩
  · exact hfirst h
  · exact hsecond h

theorem shellWord_solid {wordStart : Bool} {c cs piece}
    (h : (if wordStart then (flag? c cs).or (path? c cs) else none) = some piece) :
    piece.Solid := by
  split at h
  · exact or_solid flag?_solid path?_solid h
  · cases h

/-- **Whatever a text begins with is a solid piece.** -/
theorem next_solid (wordStart : Bool) (c : Char) (cs : List Char) :
    (next wordStart c cs).Solid := by
  unfold next
  dsimp only
  generalize hfound : Option.or _ _ = found
  cases found with
  | none => exact bad_solid _ _
  | some piece =>
      -- The recognisers are tried in this order, and the first that finds something decides.
      refine or_solid (or_solid (or_solid (or_solid (or_solid ?_ ?_) ?_) ?_) ?_) ?_ hfound
      · exact string?_solid
      · exact number?_solid
      · exact dollar?_solid
      · exact shellWord_solid
      · exact word?_solid
      · exact symbol?_solid

theorem next_proper (wordStart : Bool) (c : Char) (cs : List Char) : (next wordStart c cs).Proper :=
  (next_solid wordStart c cs).toProper

end ShellFront.Piece
