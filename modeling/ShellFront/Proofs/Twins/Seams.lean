import ShellFront.Proofs.Layout.Readings
import ShellFront.Proofs.Twins.Views

/-!
# A script and its twin

A script is read twice, and the second time other tokens stand in the place of its own: its **twin**. Seen in
the right way, token for token, the two are alike. The twin may be the script with other blanks, the same script
read with other commands built in, or the script as a part of a longer one; then other tokens stand before it, or
another script follows. If one follows, the script is **cut**: where it ends when it is alone, there is a line
break after its last statement, and none of its tokens calls for more.

A reader of the script at a cursor has an `image` in the second reading. Both see the same as long as the first
one is `Inside`; past the cut it can only give up.

## Contents
- `Script.StandsApart`, `Seam`, `Seam.Like`, `Seam.image`.
- `Seam.Inside`, `Seam.Meets`, `Seam.Lost`, `Seam.Spent`: how the two readers stand to each other.
- `image_advance`, `image_skipWhile` and what the image of a cursor sees.
- `Seam.Fresh`, `Seam.Past`: where productions begin and go on.
-/

namespace ShellFront

/-- Whether a kind of token is neither a line break nor the end of the input. At a cut one stands in the place
    of the other. -/
def TokenKind.isMark : TokenKind → Bool
  | newline | endOfInput => false
  | _ => true

theorem TokenKind.isMark_iff {kind : TokenKind} :
    kind.isMark = true ↔ kind ≠ .newline ∧ kind ≠ .endOfInput := by
  cases kind <;> simp [isMark]

/-- A minus sign **stands apart** from the token before it, so that it may begin a negative argument. -/
def Script.StandsApart (s : Script) (i : Nat) (t : Token) : Prop :=
  t.kind = .symbol .minus ∧ ∃ j v, i = j + 1 ∧ s.tokens[j]? = some v ∧ v.touches t = false

/-- How the two readings of a script are **sewn** together. -/
structure Seam where
  script : Script
  /-- How what the first reader gives is seen. -/
  left : View
  /-- How what the second reader gives is seen. -/
  right : View
  /-- Which commands are built in for the first reader. -/
  isBuiltin : String → Bool
  /-- Which commands are built in for the second reader. -/
  isBuiltin' : String → Bool
  /-- What stands before the twin, latest first. -/
  before : List Token
  /-- What stands in the place of the script's own tokens. -/
  twin : List Token
  /-- What stands where the script has its end. -/
  ending : Token
  /-- What comes after that. -/
  after : List Token
  /-- How what was reported before is seen. -/
  reports : List Diagnostic
  /-- Whether another script follows. -/
  cut : Bool
  alike : script.body.map (Token.view left) = twin.map (Token.view right)
  cover : ∀ {span other span' other'}, left.span span = right.span span' → left.span other = right.span other' →
    left.span (span.cover other) = right.span (span'.cover other')
  text : ∀ {ts ts'}, ts.map (Token.view left) = ts'.map (Token.view right) →
    left.text (sourceText ts) = right.text (sourceText ts')
  builtin : ∀ name, left.builtin none name (isBuiltin name) = right.builtin none name (isBuiltin' name)
  qualified : ∀ qualifier name, left.builtin (some qualifier) name false = right.builtin (some qualifier) name false
  /-- Tokens touch in both readings alike, as far as anything depends on it. -/
  touches : ∀ (i : Nat) (t u t' u' : Token), script.tokens[i]? = some t → script.tokens[i + 1]? = some u →
    (twin ++ ending :: after)[i]? = some t' → (twin ++ ending :: after)[i + 1]? = some u' →
    u.kind.isMark = true ∨ script.StandsApart i t → t'.touches u' = t.touches u
  starts : ∀ t ∈ script.body.head?, t.kind ≠ .newline
  whole : cut = false → script.last.view left = ending.view right ∧ after = []
  joint : cut = true → ∀ t ∈ script.body.getLast?, t.kind ≠ .newline → ending.kind = .newline
  nested : cut = true → Nested script.body
  firm : cut = true → ∀ xs t ys, script.body = xs ++ t :: ys → (∀ y ∈ ys, y.kind = .newline) →
    t.kind = .newline ∨ t.kind.isFirm = true
  clear : cut = true → ∀ t ∈ ((ending :: after).dropWhile (fun t => t.kind == .newline)).head?,
    t.kind ≠ .keyword .elifKw ∧ t.kind ≠ .keyword .elseKw

namespace Seam

variable {b : Seam} {c c' : Cursor} {ts ts' : List Token} {t t' u : Token}

/-- What the two readers give is **alike**: it is seen as the same. -/
def Like {α : Type} [Viewable α] (b : Seam) (a a' : α) : Prop :=
  Viewable.view b.left a = Viewable.view b.right a'

/-! ## Tokens that are alike -/

/-- Tokens that are alike are of one kind, -/
theorem Like.kind (h : b.Like t t') : t'.kind = t.kind := (congrArg Token.kind h).symm

/-- have one text, -/
theorem Like.lexeme (h : b.Like t t') : t'.lexeme = t.lexeme := (congrArg Token.lexeme h).symm

/-- and one value. -/
theorem Like.payload (h : b.Like t t') : t'.payload = t.payload :=
  congrArg (fun v => v.getD "") (congrArg Token.value h).symm

/-- They stand at places that are alike. -/
theorem Like.place (h : b.Like t t') : b.Like t.span t'.span := congrArg Token.span h

/-- The cover of places that are alike is alike. -/
theorem Like.covers {span span' other other' : Span} (h : b.Like span span') (h' : b.Like other other') :
    b.Like (span.cover other) (span'.cover other') := b.cover h h'

/-- Nodes that are alike stand at places that are alike. -/
theorem Like.node {n n' : Node} (h : b.Like n n') : b.Like n.span n'.span :=
  (n.span_view b.left).symm.trans ((congrArg Node.span h).trans (n'.span_view b.right))

/-- An error is alike if the token is and the place. -/
theorem Like.error {problem : Problem} {span span' : Span} (h : b.Like t t') (hspan : b.Like span span') :
    b.Like (⟨problem, t, span⟩ : SyntaxError) ⟨problem, t', span'⟩ :=
  congrArg₂ (SyntaxError.mk problem) h hspan

theorem Like.found {e e' : SyntaxError} (h : b.Like e e') : b.Like e.found e'.found :=
  congrArg SyntaxError.found h

/-- Errors that are alike have one message, -/
theorem Like.message {e e' : SyntaxError} (h : b.Like e e') : e'.message = e.message := by
  have hproblem : e'.problem = e.problem := (congrArg SyntaxError.problem h).symm
  rw [SyntaxError.message, SyntaxError.message, hproblem, Token.describe, Token.describe, h.found.kind,
    h.found.lexeme]

/-- and are reported alike. -/
theorem Like.diagnostic {e e' : SyntaxError} (h : b.Like e e') : b.Like e.diagnostic e'.diagnostic := by
  have hproblem : e'.problem = e.problem := (congrArg SyntaxError.problem h).symm
  have hspan : b.left.span e.span = b.right.span e'.span := congrArg SyntaxError.span h
  simp only [Like, Viewable.view, Diagnostic.view, SyntaxError.diagnostic, Diagnostic.error, h.message,
    SyntaxError.category, hproblem, Option.map_some, hspan]

/-- Line breaks are taken off alike, whatever stands before. -/
theorem trimNewlines_like (us : List Token) (hts : ts.map (Token.view b.left) = ts'.map (Token.view b.right))
    (hne : ts ≠ []) (hlast : ∀ t ∈ ts.getLast?, t.kind ≠ .newline) :
    ∃ t t', (Cursor.trimNewlines ts).head? = some t ∧ (Cursor.trimNewlines (ts' ++ us)).head? = some t' ∧
      b.Like t t' := by
  fun_induction Cursor.trimNewlines ts generalizing ts' with
  | case1 t u ts hkind ih =>
      obtain ⟨t', ts', rfl, ht, hts⟩ := List.map_eq_cons_iff.mp hts.symm
      obtain ⟨u', ts', rfl, -, -⟩ := List.map_eq_cons_iff.mp hts
      -- a line break before another token is taken off in both lists
      have hkind' : t'.kind = .newline := (show b.Like t t' from ht.symm).kind.trans hkind
      rw [List.cons_append, List.cons_append, Cursor.trimNewlines, if_pos hkind']
      exact ih hts.symm (List.cons_ne_nil u ts) (by simpa using hlast)
  | case2 t u ts hkind =>
      obtain ⟨t', ts', rfl, ht, hts⟩ := List.map_eq_cons_iff.mp hts.symm
      obtain ⟨u', ts', rfl, -, -⟩ := List.map_eq_cons_iff.mp hts
      have hlike : b.Like t t' := ht.symm
      rw [List.cons_append, List.cons_append, Cursor.trimNewlines, if_neg (by rw [hlike.kind]; exact hkind)]
      exact ⟨t, t', rfl, rfl, hlike⟩
  | case3 ts hshort =>
      -- a single token is left, which is no line break; behind its twin there may be more
      obtain ⟨t, rfl⟩ : ∃ t, ts = [t] := by
        rcases ts with - | ⟨t, - | ⟨u, ts⟩⟩
        · contradiction
        · exact ⟨t, rfl⟩
        · exact absurd rfl (hshort t u ts)
      obtain ⟨t', ts', rfl, ht, hts⟩ := List.map_eq_cons_iff.mp hts.symm
      obtain rfl := List.map_eq_nil_iff.mp hts
      have hlike : b.Like t t' := ht.symm
      have hkind : ¬ t'.kind = .newline := by
        rw [hlike.kind]
        exact hlast t rfl
      refine ⟨t, t', rfl, ?_, hlike⟩
      cases us with
      | nil => rfl
      | cons u us =>
          rw [List.singleton_append, Cursor.trimNewlines, if_neg hkind]
          rfl

/-! ## Images -/

/-- All that the second reader has before it from the beginning of the script on. -/
def twins (b : Seam) : List Token := b.twin ++ b.ending :: b.after

/-- Where the second reader stands when the first one has read as far as a cursor. -/
def image (b : Seam) (c : Cursor) : Cursor :=
  match b.twins.drop c.index with
  | [] => c
  | t :: ts => ⟨(b.twins.take c.index).reverse ++ b.before, t, ts⟩

/-- A twin is as long as the script. -/
theorem length_twin : b.twin.length = b.script.body.length := by
  simpa using (congrArg List.length b.alike).symm

/-- How much of a script there is at a cursor. -/
theorem length_body (hc : c.tokens = b.script.tokens) : b.script.body.length = c.index + c.ahead.length := by
  have hlength := congrArg List.length hc
  simp only [Cursor.tokens, Cursor.rest, Script.tokens, List.length_append, List.length_reverse,
    List.length_cons, List.length_nil] at hlength
  rw [Cursor.index]
  omega

/-- The image of a cursor stands at the same index. -/
theorem image_eq (hc : c.tokens = b.script.tokens) : ∃ t ts, b.twins.drop c.index = t :: ts ∧
    b.image c = ⟨(b.twins.take c.index).reverse ++ b.before, t, ts⟩ := by
  have hlength := length_body hc
  have hne : b.twins.drop c.index ≠ [] := by
    rw [Ne, List.drop_eq_nil_iff, twins, List.length_append, length_twin, List.length_cons]
    omega
  obtain ⟨t, ts, hdrop⟩ := List.exists_cons_of_ne_nil hne
  exact ⟨t, ts, hdrop, by rw [image, hdrop]⟩

/-! ## How two readers stand to each other -/

/-- A cursor has not come to a cut. -/
def Inside (b : Seam) (c : Cursor) : Prop := b.cut = true → c.ahead ≠ []

/-- A cursor and its image **meet**: neither has read beyond the script. -/
structure Meets (b : Seam) (c : Cursor) : Prop where
  tokens : c.tokens = b.script.tokens
  start : b.before ≠ [] → c.before = [] → c.kind.isTerminator = false
  edge : b.cut = true → c.ahead = [] → c.before ≠ [] ∧ c.previous.kind ≠ .newline

/-- A reader of the script alone has come to a cut, and the other one may have gone on. -/
structure Lost (b : Seam) (c : Cursor) : Prop where
  tokens : c.tokens = b.script.tokens
  cut : b.cut = true
  ahead : c.ahead = []

/-- Before a cut there are only line breaks. -/
structure Spent (b : Seam) (c : Cursor) : Prop where
  tokens : c.tokens = b.script.tokens
  cut : b.cut = true
  skipped : (c.skipWhile (· == .newline)).ahead = []

/-- What a mode must be like: before a cut, errors are not recovered from. -/
def Allows (b : Seam) (mode : Mode) : Prop := b.cut = true → mode.recovering = false

/-- What both readers have reported. -/
def Agrees (b : Seam) (report report' : Report) : Prop :=
  report'.toList.map (Diagnostic.view b.right) = b.reports ++ report.toList.map (Diagnostic.view b.left)

/-- Who is lost sees the end of the script, -/
theorem Lost.kind (h : b.Lost c) : c.kind = .endOfInput := Cursor.kind_of_ahead_nil h.tokens h.ahead

/-- has only line breaks before it, -/
theorem Lost.spent (h : b.Lost c) : b.Spent c := by
  refine ⟨h.tokens, h.cut, ?_⟩
  rw [Cursor.skipWhile_of_not (by rw [h.kind]; rfl)]
  exact h.ahead

/-- Who has only line breaks before it stands at one or at the end. -/
theorem Spent.kind (h : b.Spent c) : c.kind = .newline ∨ c.kind = .endOfInput := by
  cases hbreak : c.kind == .newline with
  | true => exact .inl (eq_of_beq hbreak)
  | false =>
      have hahead := h.skipped
      rw [Cursor.skipWhile_of_not hbreak] at hahead
      exact .inr (Cursor.kind_of_ahead_nil h.tokens hahead)

/-- Nothing can be read any more. -/
theorem Lost.reaches (h : b.Lost c) (hreach : c.Reaches c') : c' = c := by
  obtain ⟨ts, hread⟩ := hreach
  have hlength := congrArg List.length hread.rest
  simp only [Cursor.rest, h.ahead, List.length_append, List.length_cons, List.length_nil] at hlength
  have hts : ts = [] := List.length_eq_zero_iff.mp (by omega)
  subst hts
  exact hread.eq_of_nil

/-- and stays where it is. -/
theorem Lost.stays (h : b.Lost c) (hreach : c.Reaches c') : b.Lost c' := by
  rw [h.reaches hreach]
  exact h

/-- Where a cursor that is not inside stands, the second reading has a line break. -/
theorem Meets.lost (h : b.Meets c) (hc : ¬ b.Inside c) : b.Lost c := by
  simp only [Inside, Classical.not_imp, not_not] at hc
  exact ⟨h.tokens, hc.1, hc.2⟩

/-- A reader of the script is inside or lost. -/
theorem inside_or_lost (hc : c.tokens = b.script.tokens) : b.Inside c ∨ b.Lost c := by
  by_cases h : b.Inside c
  · exact .inl h
  · simp only [Inside, Classical.not_imp, not_not] at h
    exact .inr ⟨hc, h.1, h.2⟩

/-- Before the end it is inside. -/
theorem inside_of_kind (hc : c.tokens = b.script.tokens) (hkind : c.kind ≠ .endOfInput) : b.Inside c :=
  fun _ hahead => hkind (Cursor.kind_of_ahead_nil hc hahead)

/-! ## What the image of a cursor sees -/

/-- The last token of a script is its end. -/
theorem current_of_ahead_nil (hc : c.tokens = b.script.tokens) (hahead : c.ahead = []) :
    c.current = b.script.last := by
  rw [Cursor.tokens, Cursor.rest, hahead] at hc
  exact List.singleton_inj.mp (List.append_inj' hc rfl).2

/-- The body of a script up to the last token before its end. -/
theorem body_of_ahead_nil (hc : c.tokens = b.script.tokens) (hahead : c.ahead = []) :
    b.script.body = c.before.reverse := by
  rw [Cursor.tokens, Cursor.rest, hahead, Script.tokens] at hc
  exact (List.append_inj' hc rfl).1.symm

/-- A script and its twin, up to some token before the end. -/
theorem alike_take {n : Nat} (hn : n ≤ b.script.body.length) :
    (b.script.body.take n).map (Token.view b.left) = (b.twins.take n).map (Token.view b.right) := by
  rw [twins, List.take_append_of_le_length (by rw [length_twin]; exact hn), List.map_take, List.map_take, b.alike]

/-- What both have read. -/
theorem alike_before (hc : c.tokens = b.script.tokens) :
    c.before.map (Token.view b.left) = (b.twins.take c.index).reverse.map (Token.view b.right) := by
  have hlength := length_body hc
  have hbody : b.script.tokens.take c.index = b.script.body.take c.index :=
    List.take_append_of_le_length (by omega)
  have hbefore : b.script.body.take c.index = c.before.reverse := by
    rw [← hbody, ← hc, Cursor.tokens, List.take_left' (by rw [List.length_reverse, Cursor.index])]
  rw [List.map_reverse, ← alike_take (by omega), hbefore, List.map_reverse, List.reverse_reverse]

/-- **Inside, the image of a cursor stands at the twin of its token.** -/
theorem Inside.current (h : b.Inside c) (hc : c.tokens = b.script.tokens) :
    b.Like c.current (b.image c).current := by
  obtain ⟨t, ts, hdrop, himage⟩ := image_eq hc
  have ht : b.twins[c.index]? = some t := by rw [← List.head?_drop, hdrop, List.head?_cons]
  have hlength := length_body hc
  have hcurrent : (b.script.body ++ [b.script.last])[c.index]? = some c.current := by
    rw [← Script.tokens, ← hc, Cursor.tokens, List.getElem?_append_right (by rw [List.length_reverse]; exact Nat.le_refl _),
      List.length_reverse, Cursor.index, Nat.sub_self]
    rfl
  rw [himage]
  change c.current.view b.left = t.view b.right
  cases hahead : c.ahead with
  | nil =>
      have hcut : b.cut = false := Bool.eq_false_iff.mpr fun hcut => h hcut hahead
      obtain ⟨hending, -⟩ := b.whole hcut
      rw [hahead, List.length_nil, Nat.add_zero] at hlength
      rw [twins, List.getElem?_append_right (by rw [length_twin, hlength]), length_twin, hlength, Nat.sub_self] at ht
      rw [current_of_ahead_nil hc hahead, hending]
      exact congrArg _ (Option.some.inj ht)
  | cons u us =>
      rw [hahead, List.length_cons] at hlength
      have hlt : c.index < b.script.body.length := by omega
      rw [List.getElem?_append_left hlt] at hcurrent
      rw [twins, List.getElem?_append_left (by rw [length_twin]; exact hlt)] at ht
      have h := congrArg (fun ts => ts[c.index]?) b.alike
      simpa only [List.getElem?_map, hcurrent, ht, Option.map_some, Option.some.injEq] using h

/-- Inside, both readers see a token of the same kind. -/
theorem Inside.kind (h : b.Inside c) (hc : c.tokens = b.script.tokens) : (b.image c).kind = c.kind :=
  (h.current hc).kind

/-- What the reader of the twin has read. -/
theorem image_before (hc : c.tokens = b.script.tokens) :
    (b.image c).before = (b.twins.take c.index).reverse ++ b.before := by
  obtain ⟨t, ts, -, himage⟩ := image_eq hc
  rw [himage]

/-- What is still before the reader of the twin. -/
theorem image_ahead (hc : c.tokens = b.script.tokens) : (b.image c).ahead = b.twins.drop (c.index + 1) := by
  obtain ⟨t, ts, hdrop, himage⟩ := image_eq hc
  have htail := congrArg List.tail hdrop
  rw [List.tail_drop, List.tail_cons] at htail
  rw [himage, htail]

/-- **At a cut there is a line break.** -/
theorem Meets.at_cut (h : b.Meets c) (hc : ¬ b.Inside c) :
    c.kind = .endOfInput ∧ (b.image c).kind = .newline := by
  have hlost := h.lost hc
  obtain ⟨hbefore, hprevious⟩ := h.edge hlost.cut hlost.ahead
  have hlast : b.script.body.getLast? = some c.previous := by
    obtain ⟨p, ps, hp⟩ := List.exists_cons_of_ne_nil hbefore
    rw [body_of_ahead_nil h.tokens hlost.ahead, List.getLast?_reverse, Cursor.previous, hp]
    rfl
  have hkind := b.joint hlost.cut _ hlast hprevious
  have hlength := length_body h.tokens
  obtain ⟨t, ts, hdrop, himage⟩ := image_eq h.tokens
  rw [hlost.ahead, List.length_nil, Nat.add_zero] at hlength
  rw [twins, List.drop_append_of_le_length (by rw [length_twin, hlength]), List.drop_eq_nil_of_le
    (by rw [length_twin, hlength]), List.nil_append, List.cons.injEq] at hdrop
  refine ⟨hlost.kind, ?_⟩
  rw [himage, Cursor.kind, ← hdrop.1, hkind]

/-- What does not tell a line break from the end of the input. -/
theorem Meets.agrees {γ : Type} {p : TokenKind → γ} (h : b.Meets c) (hp : p .newline = p .endOfInput) :
    p (b.image c).kind = p c.kind := by
  by_cases hc : b.Inside c
  · rw [hc.kind h.tokens]
  · obtain ⟨hkind, himage⟩ := h.at_cut hc
    rw [hkind, himage, hp]

/-- The token read last is the twin of the one that the other reader read last. -/
theorem image_previous (hc : c.tokens = b.script.tokens) (hbefore : c.before ≠ []) :
    b.Like c.previous (b.image c).previous := by
  obtain ⟨p, ps, hp⟩ := List.exists_cons_of_ne_nil hbefore
  have halike := alike_before hc
  rw [hp] at halike
  obtain ⟨p', ps', hp', hlike, -⟩ := List.map_eq_cons_iff.mp halike.symm
  rw [Cursor.previous, Cursor.previous, image_before hc, hp, hp']
  exact hlike.symm

/-- The first token of a script is the last of those read. -/
theorem getLast_before (hc : c.tokens = b.script.tokens) {t : Token} (ht : t ∈ c.before.getLast?) :
    t.kind ≠ .newline := by
  refine b.starts t ?_
  have hhead := congrArg List.head? hc
  have hne : c.before.reverse ≠ [] := by
    intro hnil
    rw [List.reverse_eq_nil_iff.mp hnil] at ht
    contradiction
  rw [Cursor.tokens, List.head?_append_of_ne_nil _ hne, List.head?_reverse, Option.mem_def.mp ht,
    Script.tokens] at hhead
  cases hbody : b.script.body with
  | cons u us =>
      rw [hbody] at hhead
      exact hhead.symm
  | nil =>
      -- a script without tokens has nothing to read
      have hlength := length_body hc
      have hpos := List.length_pos_iff.mpr hne
      rw [hbody, List.length_nil] at hlength
      rw [List.length_reverse] at hpos
      rw [Cursor.index] at hlength
      omega

/-- Both blame the same place. -/
theorem Inside.blamed (h : b.Inside c) (hc : b.Meets c) : b.Like c.blamed (b.image c).blamed := by
  rw [Cursor.blamed, Cursor.blamed, h.kind hc.tokens, image_before hc.tokens]
  split
  · next hkind =>
      by_cases hnil : c.before = []
      · -- a place at the beginning is blamed itself, and nothing stands before it
        have hbefore : b.before = [] := by
          by_contra hbefore
          rw [hc.start hbefore hnil] at hkind
          contradiction
        rw [Cursor.index, hnil, List.length_nil, List.take_zero, List.reverse_nil, List.nil_append, hbefore]
        exact (h.current hc.tokens).place
      · obtain ⟨t, t', ht, ht', hlike⟩ :=
          trimNewlines_like b.before (alike_before hc.tokens) hnil fun t => getLast_before hc.tokens
        rw [ht, ht']
        exact hlike.place
  · exact (h.current hc.tokens).place

/-! ## Moving -/

/-- Reading a token that is no line break, both stay together. -/
theorem Meets.advance (h : b.Meets c) (hend : c.kind ≠ .endOfInput) (hbreak : c.kind ≠ .newline) :
    b.Meets c.advance := by
  have hread := Cursor.advance_reads h.tokens hend
  have hprevious := Cursor.advance_previous h.tokens hend
  have hbefore : c.advance.before ≠ [] := by
    rw [hread.before]
    exact List.append_ne_nil_of_left_ne_nil (by simp) _
  refine ⟨hread.tokens_eq.trans h.tokens, fun _ hnil => absurd hnil hbefore, fun _ _ => ⟨hbefore, ?_⟩⟩
  rw [hprevious]
  exact hbreak

/-- Both readers go on over a mark. -/
theorem Meets.advance_mark (h : b.Meets c) (hkind : c.kind.isMark = true) : b.Meets c.advance :=
  h.advance (TokenKind.isMark_iff.mp hkind).2 (TokenKind.isMark_iff.mp hkind).1

/-- The image of a cursor with one more token read. -/
theorem image_step {before ahead : List Token} {current next : Token}
    (hc : Cursor.tokens ⟨before, current, next :: ahead⟩ = b.script.tokens) :
    ∃ t u us, b.image ⟨before, current, next :: ahead⟩ =
        ⟨(b.twins.take before.length).reverse ++ b.before, t, u :: us⟩ ∧
      b.image ⟨current :: before, next, ahead⟩ =
        ⟨t :: ((b.twins.take before.length).reverse ++ b.before), u, us⟩ := by
  have hread : Cursor.Reads ⟨before, current, next :: ahead⟩ [current] ⟨current :: before, next, ahead⟩ :=
    ⟨rfl, rfl⟩
  obtain ⟨t, ts, hdrop, himage⟩ := image_eq hc
  obtain ⟨u, us, hdrop', himage'⟩ := image_eq (hread.tokens_eq.trans hc)
  have hts : ts = u :: us := by
    have h := congrArg List.tail hdrop
    rw [List.tail_drop, List.tail_cons] at h
    exact h.symm.trans hdrop'
  have htake : b.twins.take (before.length + 1) = b.twins.take before.length ++ [t] := by
    have ht : b.twins[before.length]? = some t := by
      rw [← List.head?_drop]
      exact congrArg List.head? hdrop
    rw [List.take_add_one, ht]
    rfl
  refine ⟨t, u, us, by rw [himage, hts]; rfl, ?_⟩
  rw [himage']
  change Cursor.mk ((b.twins.take (before.length + 1)).reverse ++ b.before) u us = _
  rw [htake, List.reverse_append]
  rfl

/-- The image of a cursor reads the twin of the token. -/
theorem image_advance (h : b.Inside c) (hc : c.tokens = b.script.tokens) (hend : c.kind ≠ .endOfInput) :
    (b.image c).advance = b.image c.advance := by
  obtain ⟨before, current, ahead⟩ := c
  have hkind := h.kind hc
  rw [Cursor.advance, Cursor.advance, if_neg (by rw [hkind]; exact hend), if_neg hend]
  cases ahead with
  | nil => exact absurd (Cursor.kind_of_ahead_nil hc rfl) hend
  | cons next ahead =>
      obtain ⟨t, u, us, himage, himage'⟩ := image_step hc
      rw [himage, himage']

/-- Skipping leads to the image of where it leads, unless it leads to a cut. -/
theorem image_skipWhile {p : TokenKind → Bool} (hc : c.tokens = b.script.tokens)
    (h : b.Inside (c.skipWhile p)) : (b.image c).skipWhile p = b.image (c.skipWhile p) := by
  fun_induction Cursor.skipWhile p c with
  | case1 before current =>
      -- skipping came to the end of the script, so there is no cut
      have hcut : b.cut = false := Bool.eq_false_iff.mpr fun hcut => h hcut rfl
      have hlength := length_body hc
      have hahead := image_ahead hc
      rw [twins, (b.whole hcut).2, List.drop_eq_nil_of_le (by
        rw [List.length_append, length_twin, List.length_singleton, hlength]; exact Nat.le_refl _)] at hahead
      obtain ⟨t, ts, -, himage⟩ := image_eq hc
      rw [himage] at hahead ⊢
      obtain rfl : ts = [] := hahead
      rw [Cursor.skipWhile]
  | case2 before current next ahead hp ih =>
      have hread : Cursor.Reads ⟨before, current, next :: ahead⟩ [current] ⟨current :: before, next, ahead⟩ :=
        ⟨rfl, rfl⟩
      have hkind := Inside.kind (b := b) (c := ⟨before, current, next :: ahead⟩) (fun _ => List.cons_ne_nil _ _) hc
      obtain ⟨t, u, us, himage, himage'⟩ := image_step hc
      rw [himage, Cursor.kind] at hkind
      rw [← ih (hread.tokens_eq.trans hc) h, himage, himage', Cursor.skipWhile, if_pos (by rw [hkind]; exact hp)]
  | case3 before current next ahead hp =>
      have hkind := Inside.kind (b := b) (c := ⟨before, current, next :: ahead⟩) (fun _ => List.cons_ne_nil _ _) hc
      rw [Cursor.skipWhile_of_not]
      rw [hkind]
      exact Bool.eq_false_iff.mpr hp

/-- Both readers skip alike, as long as they do not come to a cut. -/
theorem Meets.skipWhile {p : TokenKind → Bool} (h : b.Meets c) (hc : b.Inside (c.skipWhile p)) :
    b.Meets (c.skipWhile p) := by
  obtain ⟨ts, hread, -⟩ := c.skipWhile_reads p
  refine ⟨hread.tokens_eq.trans h.tokens, fun hbefore hnil => ?_, fun hcut hahead => absurd hahead (hc hcut)⟩
  rw [hread.before, List.append_eq_nil_iff, List.reverse_eq_nil_iff] at hnil
  obtain ⟨rfl, hnil⟩ := hnil
  rw [hread.eq_of_nil]
  exact h.start hbefore hnil

/-! ## Productions -/

/-- A production may begin here: its rules go as deep as there are tokens. -/
structure Fresh (b : Seam) (r : Rules) (c : Cursor) : Prop where
  meets : b.Meets c
  fuel : c.ahead.length < r.fuel

/-- A production has come here from where `n` tokens were left; if `read` is set, it has read some of them. -/
structure Past (b : Seam) (r : Rules) (n : Nat) (read : Bool) (c : Cursor) : Prop where
  meets : b.Meets c
  begun : c.before ≠ []
  fuel : c.ahead.length + 1 < r.fuel
  le : c.ahead.length ≤ n
  lt : read = true → c.ahead.length < n

variable {r : Rules} {n : Nat} {read : Bool}

/-- Who has less before it has read more. -/
theorem length_before (hc : c.tokens = b.script.tokens) (hc' : c'.tokens = b.script.tokens)
    (hle : c'.ahead.length ≤ c.ahead.length) : c.before.length ≤ c'.before.length := by
  have hlength := congrArg List.length (hc.trans hc'.symm)
  simp only [Cursor.tokens, Cursor.rest, List.length_append, List.length_reverse, List.length_cons] at hlength
  omega

theorem Fresh.past (h : b.Fresh r c) (hc : b.Meets c') (hlt : c'.ahead.length < c.ahead.length) :
    b.Past r c.ahead.length true c' := by
  have hfuel := h.fuel
  refine ⟨hc, fun hnil => ?_, by omega, Nat.le_of_lt hlt, fun _ => hlt⟩
  have hlength := congrArg List.length (h.meets.tokens.trans hc.tokens.symm)
  simp only [Cursor.tokens, Cursor.rest, hnil, List.length_append, List.length_reverse, List.length_cons,
    List.length_nil] at hlength
  omega

theorem Past.fresh (h : b.Past r n read c) : b.Fresh r c := ⟨h.meets, by have := h.fuel; omega⟩

theorem Past.further (h : b.Past r n read c) (hc : b.Meets c') (hle : c'.ahead.length ≤ c.ahead.length) :
    b.Past r n read c' := by
  have hbefore := length_before h.meets.tokens hc.tokens hle
  have hfuel := h.fuel
  refine ⟨hc, fun hnil => ?_, by omega, Nat.le_trans hle h.le, fun hread => Nat.lt_of_le_of_lt hle (h.lt hread)⟩
  rw [hnil, List.length_nil, Nat.le_zero, List.length_eq_zero_iff] at hbefore
  exact h.begun hbefore

theorem Past.further_lt (h : b.Past r n read c) (hc : b.Meets c')
    (hlt : c'.ahead.length < c.ahead.length) : b.Past r n true c' :=
  let h' := h.further hc (Nat.le_of_lt hlt)
  ⟨hc, h'.begun, h'.fuel, h'.le, fun _ => Nat.lt_of_lt_of_le hlt h.le⟩

/-- A production may begin wherever another one has come. -/
theorem Past.here (h : b.Past r n read c) : b.Past r c.ahead.length false c :=
  ⟨h.meets, h.begun, h.fuel, Nat.le_refl _, nofun⟩

end Seam

end ShellFront
