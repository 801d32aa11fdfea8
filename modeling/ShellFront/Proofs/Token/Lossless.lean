import Mathlib.Data.List.Chain
import ShellFront.Proofs.Token.Trivia

/-!
# Tokens lose nothing

The tokens of a script and the trivia between them are the script: every token is the part of the text that
it spans, tokens follow one another in order, and what stands between two of them is trivia. The report
names exactly the `invalid` tokens.

The walk keeps `Lexer.Faithful`, which says this of the text read so far; one step is
`Lexer.Faithful.take`, the whole run is `Lexer.run_faithful`.

## Contents
- `slice`, `Joined`, `Strung`: tokens strung along a text.
- `Token.Placed`, `Lexer.Faithful` and what a step and a run keep of it.
- `tokenize_shape`, the shape of a token list that readers of tokens rely on.
- `tokenize_lossless`.
-/

namespace ShellFront

/-! ## Tokens along a text -/

/-- The part of a text from one offset to another. -/
def slice (text : List Char) (start stop : Nat) : List Char := (text.drop start).take (stop - start)

theorem slice_self (text : List Char) (n : Nat) : slice text n n = [] := by
  rw [slice, Nat.sub_self, List.take_zero]

theorem slice_append {text : List Char} {a b c : Nat} (hab : a ≤ b) (hbc : b ≤ c) :
    slice text a b ++ slice text b c = slice text a c := by
  have hdrop : text.drop b = (text.drop a).drop (b - a) := by
    rw [List.drop_drop, Nat.add_sub_cancel' hab]
  have hlen : c - a = (b - a) + (c - b) := by omega
  rw [slice, slice, slice, hdrop, hlen, List.take_add]

/-- The text between two offsets is trivia. -/
structure Joined (text : List Char) (stop start : Int) : Prop where
  le : stop ≤ start
  trivia : Trivia (slice text stop.toNat start.toNat) (text.drop start.toNat)

theorem Joined.refl (text : List Char) (n : Int) : Joined text n n :=
  ⟨Int.le_refl n, by rw [slice_self]; exact .nil⟩

theorem Joined.trans {text : List Char} {a b c : Int} (hab : Joined text a b) (hbc : Joined text b c) :
    Joined text a c := by
  refine ⟨Int.le_trans hab.le hbc.le, ?_⟩
  have ha := Int.toNat_le_toNat hab.le
  have hb := Int.toNat_le_toNat hbc.le
  have hrest : text.drop b.toNat = slice text b.toNat c.toNat ++ text.drop c.toNat := by
    rw [slice, ← Nat.add_sub_cancel' hb, ← List.drop_drop, Nat.add_sub_cancel_left,
      List.take_append_drop]
  rw [← slice_append ha hb]
  exact (hrest ▸ hab.trivia).append hbc.trivia

/-- The offset at which the last of some tokens ends. -/
def lastStop (tokens : List Token) : Int := (tokens.getLast?.map (·.span.stop)).getD 0

/-- Tokens **strung along** a text up to an offset: before the first, between any two that follow one
    another, and after the last there is only trivia. -/
structure Strung (text : List Char) (tokens : List Token) (offset : Int) : Prop where
  first : ∀ t ∈ tokens.head?, Joined text 0 t.span.start
  chain : tokens.IsChain (fun t next => Joined text t.span.stop next.span.start)
  rest : Joined text (lastStop tokens) offset

theorem Strung.nil (text : List Char) : Strung text [] 0 := ⟨by simp, .nil, .refl text 0⟩

/-- Trivia may follow. -/
theorem Strung.pass {text : List Char} {tokens : List Token} {a b : Int} (h : Strung text tokens a)
    (hab : Joined text a b) : Strung text tokens b := ⟨h.first, h.chain, h.rest.trans hab⟩

/-- A token may follow. -/
theorem Strung.push {text : List Char} {tokens : List Token} {t : Token}
    (h : Strung text tokens t.span.start) : Strung text (tokens ++ [t]) t.span.stop := by
  refine ⟨?_, List.isChain_append.mpr ⟨h.chain, .singleton t, ?_⟩, ?_⟩
  · intro u hu
    cases tokens with
    | nil =>
        cases hu
        exact h.rest
    | cons v vs => exact h.first u hu
  · intro u hu v hv
    cases hv
    have hrest := h.rest
    rw [lastStop, Option.mem_def.mp hu] at hrest
    exact hrest
  · rw [lastStop, List.getLast?_concat]
    exact .refl text _

/-! ## What the walk keeps -/

/-- A token **placed** in a text: it is not empty and is the part of the text that it spans. -/
structure Token.Placed (text : List Char) (t : Token) : Prop where
  kind : t.kind ≠ .endOfInput
  start : 0 ≤ t.span.start
  nonempty : t.span.start < t.span.stop
  lexeme : t.lexeme = String.ofList (slice text t.span.start.toNat t.span.stop.toNat)

/-- What a report shows of the lexer's errors: their severity, their category and their place. -/
def Report.places (report : Report) : List (Severity × Category × Option Span) :=
  report.toList.map fun d => (d.severity, d.category, d.span)

/-- The errors that tokens call for: one at each `invalid` token. -/
def invalidPlaces (tokens : List Token) : List (Severity × Category × Option Span) :=
  (tokens.filter (fun t => t.kind == .invalid)).map fun t => (.error, .lexical, some t.span)

theorem Report.places_error (report : Report) (message : String) (span : Span) :
    (report.add (.error .lexical message span)).places
      = report.places ++ [(.error, .lexical, some span)] := by
  rw [places, toList_add, List.map_append]
  rfl

theorem invalidPlaces_concat (tokens : List Token) (t : Token) :
    invalidPlaces (tokens ++ [t])
      = invalidPlaces tokens ++ if t.kind = .invalid then [(.error, .lexical, some t.span)] else [] := by
  rw [invalidPlaces, List.filter_append, List.map_append]
  by_cases hkind : t.kind = .invalid <;> simp [invalidPlaces, hkind]

namespace Lexer

/-- A state **faithful** to a text of which `rest` is still to be read: the tokens so far are placed in
    the text and strung along it, and the report names the `invalid` ones. -/
structure Faithful (text rest : List Char) (st : State) : Prop where
  split : text.drop st.place.offset = rest
  bound : st.place.offset ≤ text.length
  placed : ∀ t ∈ st.tokens.toList, t.Placed text
  strung : Strung text st.tokens.toList st.place.offset
  report : st.report.places = invalidPlaces st.tokens.toList

theorem first_faithful (text : List Char) : Faithful text text (.first .empty) where
  split := rfl
  bound := Nat.zero_le _
  placed := by simp [State.first]
  strung := .nil text
  report := rfl

/-! ### The text that a step takes -/

theorem slice_of_drop {text rest : List Char} {n : Nat} (hsplit : text.drop n = rest) (k : Nat) :
    slice text n (n + (rest.take k).length) = rest.take k := by
  rw [slice, hsplit, Nat.add_sub_cancel_left, List.length_take, List.take_eq_take_iff]
  omega

theorem drop_of_drop {text rest : List Char} {n : Nat} (hsplit : text.drop n = rest) (k : Nat) :
    text.drop (n + (rest.take k).length) = rest.drop k := by
  rw [← List.drop_drop, hsplit, List.length_take]
  rcases Nat.le_total k rest.length with hle | hle
  · rw [Nat.min_eq_left hle]
  · rw [Nat.min_eq_right hle, List.drop_length, List.drop_eq_nil_of_le hle]

theorem length_of_drop {text rest : List Char} {n : Nat} (hsplit : text.drop n = rest)
    (hbound : n ≤ text.length) (k : Nat) : n + (rest.take k).length ≤ text.length := by
  have hlen := congrArg List.length hsplit
  have htake := List.length_take_le' k rest
  rw [List.length_drop] at hlen
  omega

theorem take_offset (file : String) (st : State) (s : Step) (lexeme : List Char) :
    (st.take file s lexeme).place.offset = st.place.offset + lexeme.length :=
  st.place.advanceBy_offset lexeme

/-! ### Steps -/

/-- A step that makes no token passes over trivia. -/
theorem Faithful.pass {text rest : List Char} {st : State} (h : Faithful text rest st) (file : String)
    {s : Step} (hpiece : s.piece = none) (htrivia : Trivia (rest.take s.length) (rest.drop s.length)) :
    Faithful text (rest.drop s.length) (st.take file s (rest.take s.length)) where
  split := by rw [take_offset, drop_of_drop h.split]
  bound := by
    rw [take_offset]
    exact length_of_drop h.split h.bound _
  placed := by simpa only [State.take, hpiece] using h.placed
  strung := by
    rw [take_offset]
    simp only [State.take, hpiece]
    refine h.strung.pass ⟨by omega, ?_⟩
    rw [Int.toNat_natCast, Int.toNat_natCast, slice_of_drop h.split, drop_of_drop h.split]
    exact htrivia
  report := by simpa only [State.take, hpiece, Option.bind_none] using h.report

/-- A token that a step makes is placed in the text. -/
theorem placed_placed {text rest : List Char} {st : State} (h : Faithful text rest st) (file : String)
    {k : Nat} (hk : rest.take k ≠ []) {piece : Piece} (hpiece : piece.Proper) :
    (placed file st.place (st.place.advanceBy (rest.take k)) (rest.take k) piece).Placed text := by
  have hpos : 0 < (rest.take k).length := List.length_pos_iff.mpr hk
  have hstop := st.place.advanceBy_offset (rest.take k)
  refine ⟨hpiece.ne_end, Int.natCast_nonneg _, ?_, ?_⟩
  · simp only [placed, Span.between, hstop]
    omega
  · simp only [placed, Span.between, hstop, Int.toNat_natCast]
    rw [slice_of_drop h.split]

/-- The report names a new token just when it is `invalid`. -/
theorem take_report {file : String} {st : State} {s : Step} {piece : Piece} {lexeme : List Char}
    (hs : s.piece = some piece) (hpiece : piece.Proper)
    (hreport : st.report.places = invalidPlaces st.tokens.toList) :
    (st.take file s lexeme).report.places = invalidPlaces (st.take file s lexeme).tokens.toList := by
  simp only [State.take, hs, Option.bind_some, Array.toList_push]
  rw [invalidPlaces_concat]
  cases hproblem : piece.problem with
  | none =>
      have hkind : piece.kind ≠ .invalid := fun hk => by
        simpa [hproblem] using hpiece.problem_iff.mpr hk
      rw [if_neg (show (placed file _ _ _ piece).kind ≠ .invalid from hkind), List.append_nil]
      exact hreport
  | some problem =>
      have hkind : piece.kind = .invalid := hpiece.problem_iff.mp (by rw [hproblem]; rfl)
      rw [if_pos (show (placed file _ _ _ piece).kind = .invalid from hkind), ← hreport]
      exact Report.places_error ..

/-- A step that makes a proper piece adds a token. -/
theorem Faithful.push {text rest : List Char} {st : State} (h : Faithful text rest st) (file : String)
    {s : Step} {piece : Piece} (hs : s.piece = some piece) (hpiece : piece.Proper)
    (hne : rest.take s.length ≠ []) :
    Faithful text (rest.drop s.length) (st.take file s (rest.take s.length)) where
  split := by rw [take_offset, drop_of_drop h.split]
  bound := by
    rw [take_offset]
    exact length_of_drop h.split h.bound _
  placed := by
    intro t ht
    simp only [State.take, hs, Array.toList_push, List.mem_append, List.mem_singleton] at ht
    rcases ht with ht | rfl
    · exact h.placed t ht
    · exact placed_placed h file hne hpiece
  strung := by
    simp only [State.take, hs, Array.toList_push]
    exact Strung.push (t := Lexer.placed file st.place _ _ piece) h.strung
  report := take_report hs hpiece h.report

/-- **One step keeps the state faithful.** -/
theorem Faithful.step {text cs : List Char} {c : Char} {st : State} (h : Faithful text (c :: cs) st)
    (file : String) :
    let s := step st.previous st.groups st.atLineStart c cs
    Faithful text ((c :: cs).drop s.length) (st.take file s ((c :: cs).take s.length)) := by
  intro s
  have hpos : 0 < s.length := step_length_pos ..
  have hne : (c :: cs).take s.length ≠ [] := by
    rw [Ne, List.take_eq_nil_iff]
    exact not_or.mpr ⟨Nat.pos_iff_ne_zero.mp hpos, nofun⟩
  -- Either way the text splits where the step ends.
  rcases step_trivia_or_piece st.previous st.groups st.atLineStart c cs with
    ⟨hpiece, htrivia⟩ | ⟨piece, hs, hpiece⟩
  · exact h.pass file hpiece htrivia
  · exact h.push file hs hpiece hne

/-- **The walk over a text ends faithful to the whole of it.** -/
theorem run_faithful {text rest : List Char} {file : String} {st : State} (h : Faithful text rest st) :
    Faithful text [] (run file st rest) := by
  fun_induction run file st rest with
  | case1 => exact h
  | case2 st c cs s ih => exact ih (h.step file)

end Lexer

/-! ## The tokens of a script -/

/-- The tokens of a script: those placed in its text, then the end of the input. The report names the
    `invalid` ones. -/
theorem tokenize_shape (source file : String) :
    ∃ body place, (tokenize source file).tokens = body ++ [.endMark file place] ∧
      place.offset = source.length ∧ (∀ t ∈ body, t.Placed source.toList) ∧
      Strung source.toList (body ++ [.endMark file place]) source.length ∧
      (tokenize source file).report.places = invalidPlaces body := by
  have h : Lexer.Faithful source.toList [] (Lexer.run file (.first .empty) source.toList) :=
    Lexer.run_faithful (Lexer.first_faithful source.toList)
  have hstop : (Lexer.run file (.first .empty) source.toList).place.offset = source.length := by
    have hle := List.drop_eq_nil_iff.mp h.split
    exact Nat.le_antisymm (String.length_toList ▸ h.bound) (String.length_toList ▸ hle)
  refine ⟨_, _, ?_, hstop, h.placed, ?_, h.report⟩
  · simp only [tokenize, Array.toList_push]
  · have hend := Strung.push (t := .endMark file (Lexer.run file (.first .empty) source.toList).place)
      h.strung
    simpa only [Token.endMark, Span.between, hstop] using hend

/-- **Tokens lose nothing.** The tokens of a script end with the only end of the input, which stands,
    empty, at the end of the text. Every other token is a part of the text that is not empty; tokens follow
    one another in order, and before the first and between any two there is only trivia. The report holds
    one lexical error for each `invalid` token, at its place and in order, and nothing else. -/
theorem tokenize_lossless (source file : String) :
    let text := source.toList
    let tokens := (tokenize source file).tokens
    (∃ body last, tokens = body ++ [last] ∧ (∀ t ∈ body, t.Placed text) ∧ last.kind = .endOfInput ∧
      last.lexeme = "" ∧ last.span.start = (source.length : Int) ∧
      last.span.stop = (source.length : Int)) ∧
    (∀ t ∈ tokens.head?, Joined text 0 t.span.start) ∧
    tokens.IsChain (fun t next => Joined text t.span.stop next.span.start) ∧
    (tokenize source file).report.places = invalidPlaces tokens := by
  obtain ⟨body, place, htokens, hplace, hplaced, hstrung, hreport⟩ := tokenize_shape source file
  dsimp only
  rw [htokens]
  refine ⟨⟨body, _, rfl, hplaced, rfl, rfl, ?_, ?_⟩, hstrung.first, hstrung.chain, ?_⟩
  · exact congrArg Int.ofNat hplace
  · exact congrArg Int.ofNat hplace
  · rw [hreport, invalidPlaces_concat]
    exact (List.append_nil _).symm

end ShellFront
