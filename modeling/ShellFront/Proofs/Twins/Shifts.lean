import ShellFront.Parse.Recovery
import ShellFront.Proofs.Layout.Nesting
import ShellFront.Proofs.Token.Joining
import ShellFront.Proofs.Token.Lines
import ShellFront.Proofs.Twins.Views

/-!
# Text further on

After a line feed, a text is cut into the same tokens as by itself, only further on: all offsets grow by the number
of characters before it and all lines by the number of line feeds, and columns stay. The tokens of two texts with a
line feed between them are then those of the first and the shifted ones of the second, with a line break between
them unless the first text ends with an empty line.

The first text must not leave groups open. The lexer keeps at most the groups that a stack of brackets would keep,
so nested tokens leave none.

## Contents
- `Position.shift`, `Span.shift`, `View.shift`.
- `Lexer.Beside`, `Lexer.run_beside`: two walks over one text.
- `Lexer.Closing`, `Lexer.run_closing`: groups that are open.
- `tokenize_joined`.
-/

namespace ShellFront

variable {chars lines : Nat}

/-! ## Shifting -/

/-- A place that lies further on. -/
def Position.shift (chars lines : Nat) (place : Position) : Position :=
  ⟨place.offset + chars, place.line + lines, place.column⟩

/-- A span that lies further on. -/
def Span.shift (chars lines : Nat) (span : Span) : Span :=
  { span with
    line := span.line + lines
    start := span.start + chars
    stop := span.stop + chars
    endLine := span.endLine.map (· + (lines : Int)) }

/-- Everything is seen further on. -/
def View.shift (chars lines : Nat) : View := { View.plain with span := Span.shift chars lines }

theorem Position.advanceBy_shift (place : Position) (text : List Char) :
    (place.shift chars lines).advanceBy text = (place.advanceBy text).shift chars lines := by
  induction text generalizing place with
  | nil => rfl
  | cons c cs ih =>
      have hadvance : (place.shift chars lines).advance c = (place.advance c).shift chars lines := by
        rw [advance, advance, shift]
        split <;> simp only [shift, Nat.add_right_comm]
      rw [advanceBy, List.foldl_cons, hadvance]
      exact ih _

theorem Span.between_shift (file : String) (first last : Position) :
    Span.between file (first.shift chars lines) (last.shift chars lines) =
      (Span.between file first last).shift chars lines := by
  simp only [between, shift, Position.shift, Option.map_some, Int.natCast_add]

theorem Span.cover_shift (a b : Span) :
    (a.cover b).shift chars lines = (a.shift chars lines).cover (b.shift chars lines) := by
  have hstart : a.start + (chars : Int) ≤ b.start + chars ↔ a.start ≤ b.start := by omega
  have hstop (c d : Span) : c.stop + (chars : Int) > d.stop + chars ↔ c.stop > d.stop := by omega
  simp only [cover, shift, hstart]
  split
  · simp only [hstop]
    split <;> rfl
  · simp only [hstop]
    split <;> rfl

/-- A line feed after a text. -/
theorem Position.advanceBy_feed (text : List Char) :
    Position.first.advanceBy (text ++ ['\n']) =
      Position.first.shift (text.length + 1) (text.count '\n' + 1) := by
  have hplace (place : Position) : (place.advanceBy text).offset = place.offset + text.length ∧
      (place.advanceBy text).line = place.line + text.count '\n' := by
    induction text generalizing place with
    | nil => exact ⟨rfl, rfl⟩
    | cons c cs ih =>
        obtain ⟨hoffset, hline⟩ := ih (place.advance c)
        rw [advanceBy, List.foldl_cons]
        refine ⟨hoffset.trans ?_, hline.trans ?_⟩
        · rw [advance_offset, List.length_cons]
          omega
        · rw [advance, List.count_cons]
          by_cases hc : c = '\n'
          · simp only [hc, beq_self_eq_true, if_true]
            omega
          · simp only [hc, beq_iff_eq, if_false]
            rfl
  obtain ⟨hoffset, hline⟩ := hplace .first
  rw [advanceBy_append]
  change (Position.first.advanceBy text).advance '\n' = _
  rw [advance, if_pos rfl, hoffset, hline, shift, Position.mk.injEq]
  exact ⟨Nat.add_assoc .., Nat.add_assoc .., rfl⟩

/-- A text that ends at some offset, with one more token after it. -/
def glue : String × Option Int → Token → String × Option Int := fun (text, stop) t =>
  match stop with
  | some n => (text ++ (if n < t.span.start then " " else "") ++ t.lexeme, some t.span.stop)
  | none => (text ++ t.lexeme, some t.span.stop)

theorem sourceText_eq (ts : List Token) : sourceText ts = (ts.foldl glue ("", none)).1 := rfl

theorem glue_shift (text : String) (stop : Option Int) (t : Token) :
    glue (text, stop.map (· + (chars : Int))) (t.view (.shift chars lines)) =
      ((glue (text, stop) t).1, (glue (text, stop) t).2.map (· + (chars : Int))) := by
  cases stop with
  | none => rfl
  | some n =>
      have hgap : n + (chars : Int) < t.span.start + chars ↔ n < t.span.start := by omega
      simp only [glue, Option.map_some, Token.view, View.shift, Span.shift, hgap]

/-- The text of tokens does not depend on where they stand. -/
theorem sourceText_shift (ts : List Token) :
    sourceText (ts.map (Token.view (.shift chars lines))) = sourceText ts := by
  have hglue (text : String) (stop : Option Int) :
      ((ts.map (Token.view (.shift chars lines))).foldl glue (text, stop.map (· + (chars : Int)))).1 =
        (ts.foldl glue (text, stop)).1 := by
    induction ts generalizing text stop with
    | nil => rfl
    | cons t ts ih =>
        rw [List.map_cons, List.foldl_cons, List.foldl_cons, glue_shift]
        exact ih _ _
  rw [sourceText_eq, sourceText_eq]
  exact hglue "" none

namespace Lexer

/-! ## Two walks over one text -/

/-- A step depends on the character before it only as far as a word can begin after it. -/
theorem step_previous {previous previous' : Option Char} (h : isWordStart previous' = isWordStart previous)
    (groups : Groups) (atLineStart : Bool) (c : Char) (cs : List Char) :
    step previous' groups atLineStart c cs = step previous groups atLineStart c cs := by
  rw [step, step, h]

/-- A walk that began after other tokens and reports stands **beside** one that did not. -/
structure Beside (chars lines : Nat) (tokens : List Token) (reports : List Diagnostic) (st st' : State) : Prop where
  place : st'.place = st.place.shift chars lines
  previous : isWordStart st'.previous = isWordStart st.previous
  groups : st'.groups = st.groups
  atLineStart : st'.atLineStart = st.atLineStart
  tokens : st'.tokens.toList = tokens ++ st.tokens.toList.map (Token.view (.shift chars lines))
  report : st'.report.toList = reports ++ st.report.toList.map (Diagnostic.view (.shift chars lines))

variable {file : String} {tokens : List Token} {reports : List Diagnostic} {st st' : State}

theorem Beside.take (h : Beside chars lines tokens reports st st') (file : String) (s : Step) (lexeme : List Char) :
    Beside chars lines tokens reports (st.take file s lexeme) (st'.take file s lexeme) := by
  have hlast : st'.place.advanceBy lexeme = (st.place.advanceBy lexeme).shift chars lines := by
    rw [h.place, Position.advanceBy_shift]
  have hspan : Span.between file st'.place (st'.place.advanceBy lexeme) =
      (Span.between file st.place (st.place.advanceBy lexeme)).shift chars lines := by
    rw [hlast, h.place, Span.between_shift]
  refine ⟨hlast, rfl, rfl, rfl, ?_, ?_⟩
  · cases hpiece : s.piece with
    | none =>
        simp only [State.take, hpiece]
        exact h.tokens
    | some piece =>
        simp only [State.take, hpiece, Array.toList_push, h.tokens, List.map_append, List.append_assoc, placed, hspan]
        rfl
  · cases hproblem : s.piece.bind Piece.problem with
    | none =>
        simp only [State.take, hproblem]
        exact h.report
    | some problem =>
        simp only [State.take, hproblem, Report.toList_add, h.report, List.map_append, List.append_assoc, hspan]
        rfl

/-- **The walks stay beside each other.** -/
theorem run_beside (h : Beside chars lines tokens reports st st') (file : String) (text : List Char) :
    Beside chars lines tokens reports (run file st text) (run file st' text) := by
  fun_induction run file st text generalizing st' with
  | case1 =>
      rw [run]
      exact h
  | case2 st c cs s =>
      rename_i ih
      have hstep : step st'.previous st'.groups st'.atLineStart c cs = s := by
        rw [step_previous h.previous, h.groups, h.atLineStart]
      rw [run, hstep]
      exact ih (h.take file s _)

/-! ## Open groups -/

/-- As far as brackets are nested, the lexer keeps no more groups open than there are. -/
def Closing (st : State) : Prop :=
  ∀ stack, Watch.all.follow [] st.tokens.toList = some stack → st.groups.length ≤ stack.length

theorem abandon_length_le (groups : Groups) : groups.abandon.length ≤ groups.length :=
  (List.dropWhile_suffix _).length_le

/-- A token opens or closes the same number of groups for the lexer and for a stack of brackets. -/
theorem follow_length_le {groups : Groups} {kind : TokenKind} {stack stack' : List Symbol}
    (hstep : Watch.all.step stack kind = some stack') (hle : groups.length ≤ stack.length) :
    (groups.follow kind).length ≤ stack'.length := by
  cases kind with
  | symbol s =>
      rw [Watch.step_symbol, Watch.stepBracket] at hstep
      rw [Groups.follow]
      cases hopener : s.isOpener with
      | true =>
          rw [show Watch.all.sees s = true from by rw [Watch.sees, hopener, Bool.true_or], hopener] at hstep
          obtain rfl := Option.some.inj hstep
          exact Nat.succ_le_succ hle
      | false =>
          cases hcloser : s.isCloser with
          | false =>
              rw [show Watch.all.sees s = false from by rw [Watch.sees, hopener, hcloser]; rfl] at hstep
              obtain rfl := Option.some.inj hstep
              exact hle
          | true =>
              rw [show Watch.all.sees s = true from by rw [Watch.sees, hopener, hcloser]; rfl, hopener,
                if_pos rfl, if_neg Bool.false_ne_true] at hstep
              -- a closer takes one bracket from the stack, and at most one group from the lexer
              cases stack with
              | nil => contradiction
              | cons opener rest =>
                  rw [Watch.close] at hstep
                  split at hstep
                  · obtain rfl := Option.some.inj hstep
                    rw [if_neg Bool.false_ne_true, if_pos rfl, List.length_tail]
                    exact Nat.sub_le_of_le_add hle
                  · contradiction
  | _ =>
      obtain rfl := Option.some.inj hstep
      exact hle

/-- A step follows its token, or makes none that is a bracket and only gives groups up. -/
theorem step_groups (previous : Option Char) (groups : Groups) (atLineStart : Bool) (c : Char) (cs : List Char) :
    let s := step previous groups atLineStart c cs
    (∃ piece, s.piece = some piece ∧ s.groups = groups.follow piece.kind) ∨
      ((∀ piece ∈ s.piece, ∀ stack, Watch.all.step stack piece.kind = some stack) ∧
        s.groups.length ≤ groups.length) := by
  rw [step]
  dsimp only
  split
  · exact .inr ⟨fun _ h => absurd h (Option.some_ne_none _).symm, Nat.le_refl _⟩
  · split
    · rw [comment]
      split
      · split
        · exact .inr ⟨fun _ h => absurd h (Option.some_ne_none _).symm, Nat.le_refl _⟩
        · refine .inr ⟨fun piece h stack => ?_, Nat.le_refl _⟩
          obtain rfl := Option.some.inj h
          rfl
      · exact .inr ⟨fun _ h => absurd h (Option.some_ne_none _).symm, Nat.le_refl _⟩
    · split
      · -- a line feed: groups are given up, or they stay
        have hafter : (if groups.hidesNewline && opensStatement cs then groups.abandon else groups).length ≤
            groups.length := by
          split
          · exact abandon_length_le groups
          · exact Nat.le_refl _
        rw [lineBreak]
        generalize (if groups.hidesNewline && opensStatement cs then groups.abandon else groups) = after at hafter
        split
        · exact .inr ⟨fun _ h => absurd h (Option.some_ne_none _).symm, hafter⟩
        · refine .inr ⟨fun piece h stack => ?_, hafter⟩
          obtain rfl := Option.some.inj h
          rfl
      · exact .inl ⟨_, rfl, rfl⟩

theorem Closing.take (h : Closing st) (file : String) (c : Char) (cs lexeme : List Char) :
    Closing (st.take file (step st.previous st.groups st.atLineStart c cs) lexeme) := by
  intro stack hstack
  have hgroups := step_groups st.previous st.groups st.atLineStart c cs
  generalize step st.previous st.groups st.atLineStart c cs = s at hgroups hstack
  change s.groups.length ≤ stack.length
  cases hpiece : s.piece with
  | none =>
      simp only [State.take, hpiece] at hstack
      rcases hgroups with ⟨piece, hsome, -⟩ | ⟨-, hle⟩
      · exact absurd (hpiece.symm.trans hsome) (Option.some_ne_none _).symm
      · exact Nat.le_trans hle (h stack hstack)
  | some piece =>
      simp only [State.take, hpiece, Array.toList_push] at hstack
      obtain ⟨before, hbefore, hlast⟩ := Watch.exists_follow hstack
      obtain ⟨after, hstep, hend⟩ := Watch.exists_step hlast
      obtain rfl := Option.some.inj hend
      have hle := h before hbefore
      rcases hgroups with ⟨piece', hsome, hfollow⟩ | ⟨hstays, hgives⟩
      · obtain rfl := Option.some.inj (hpiece.symm.trans hsome)
        rw [hfollow]
        exact follow_length_le hstep hle
      · obtain rfl := Option.some.inj ((hstays piece hpiece before).symm.trans hstep)
        exact Nat.le_trans hgives hle

theorem run_closing (h : Closing st) (file : String) (text : List Char) : Closing (run file st text) := by
  fun_induction run file st text with
  | case1 => exact h
  | case2 st c cs s ih => exact ih (h.take file c cs _)

/-- Nested tokens leave no groups open. -/
theorem run_groups_nil {text : List Char} {report : Report}
    (h : Nested (run file (.first report) text).tokens.toList) : (run file (.first report) text).groups = [] := by
  have hfirst : Closing (.first report) := fun _ _ => Nat.zero_le _
  exact List.length_eq_zero_iff.mp (Nat.le_zero.mp (run_closing hfirst file text [] h))

theorem run_place (file : String) (st : State) (text : List Char) :
    (run file st text).place = st.place.advanceBy text := by
  fun_induction run file st text with
  | case1 => rfl
  | case2 st c cs s ih =>
      rw [ih]
      change (st.place.advanceBy _).advanceBy _ = _
      rw [← Position.advanceBy_append, List.take_append_drop]

end Lexer

/-! ## Two texts -/

/-- Line **breaks** after some tokens, where their text ends: there is one unless the tokens end with one. -/
structure Breaks (body : List Token) (stop : Int) (breaks : List Token) : Prop where
  newline : ∀ t ∈ breaks, t.kind = .newline
  start : ∀ t ∈ breaks, t.span.start = stop
  joint : ∀ t ∈ body.getLast?, t.kind ≠ .newline → breaks ≠ []

namespace Lexer

/-- A line feed after a text that leaves no group open: the walk goes on as from the beginning. -/
theorem take_feed (file : String) {st : State} {text : List Char} (hplace : st.place = Position.first.advanceBy text)
    (hlined : Lined st) (hgroups : st.groups = []) (cs : List Char) :
    let s := step st.previous st.groups st.atLineStart '\n' cs
    s.length = 1 ∧ ∃ breaks, Breaks st.tokens.toList st.place.offset breaks ∧
      Beside (text.length + 1) (text.count '\n' + 1) (st.tokens.toList ++ breaks) st.report.toList (.first .empty)
        (st.take file s ['\n']) := by
  have hlast : st.place.advanceBy ['\n'] = Position.first.shift (text.length + 1) (text.count '\n' + 1) := by
    rw [hplace, ← Position.advanceBy_append, Position.advanceBy_feed]
  have hstep : step st.previous st.groups st.atLineStart '\n' cs =
      if st.atLineStart then ⟨1, none, [], true, false⟩
      else ⟨1, some ⟨.newline, 1, none, none⟩, [], true, false⟩ := by
    rw [hgroups, step, if_neg (by decide), if_neg (by decide), if_pos rfl, lineBreak]
    cases st.atLineStart <;> rfl
  rw [hstep]
  cases hline : st.atLineStart with
  | true =>
      refine ⟨rfl, [], ⟨fun _ h => absurd h List.not_mem_nil, fun _ h => absurd h List.not_mem_nil, fun t ht hkind => ?_⟩,
        hlast, rfl, rfl, rfl, ?_, ?_⟩
      · exact absurd (hlined.line.mp hline t ht) hkind
      · simp [State.take, State.first]
      · simp [State.take, State.first]
  | false =>
      refine ⟨rfl, [placed file st.place (st.place.advanceBy ['\n']) ['\n'] ⟨.newline, 1, none, none⟩],
        ⟨fun t ht => ?_, fun t ht => ?_, fun _ _ _ => List.cons_ne_nil _ _⟩, hlast, rfl, rfl, rfl, ?_, ?_⟩
      · rw [List.mem_singleton.mp ht]
        rfl
      · rw [List.mem_singleton.mp ht]
        rfl
      · simp [State.take, State.first]
      · simp [State.take, State.first]

end Lexer

/-- **The tokens of two texts, one after the other.** If those of the first are valid and their brackets nested, the
    second follows as it is by itself, further on. -/
theorem tokenize_joined {first file : String} (second : String) {body : List Token} {last : Token}
    (hfirst : (tokenize first file).tokens = body ++ [last]) (hvalid : ∀ t ∈ body, t.kind ≠ .invalid)
    (hnested : Nested body) :
    let shift := View.shift (first.length + 1) (first.toList.count '\n' + 1)
    ∃ breaks, Breaks body last.span.start breaks ∧
      (tokenize (first ++ "\n" ++ second) file).tokens =
        body ++ (breaks ++ (tokenize second file).tokens.map (Token.view shift)) ∧
      (tokenize (first ++ "\n" ++ second) file).report.toList =
        (tokenize first file).report.toList ++ (tokenize second file).report.toList.map (Diagnostic.view shift) := by
  obtain ⟨hbody, hlast⟩ : (Lexer.run file (.first .empty) first.toList).tokens.toList = body ∧
      Token.endMark file (Lexer.run file (.first .empty) first.toList).place = last := by
    simp only [tokenize, Array.toList_push] at hfirst
    obtain ⟨hbody, hlast⟩ := List.append_inj' hfirst rfl
    exact ⟨hbody, List.singleton_inj.mp hlast⟩
  subst hbody hlast
  have hlined := Lexer.run_lined file first.toList (Lexer.first_lined .empty)
  have hgroups := Lexer.run_groups_nil hnested
  have hrun := Lexer.run_append_feed file (.first .empty) first.toList second.toList hvalid (by rw [hgroups]; rfl)
  have hplace : (Lexer.run file (.first .empty) first.toList).place = Position.first.advanceBy first.toList :=
    Lexer.run_place ..
  have hreport : (tokenize first file).report = (Lexer.run file (.first .empty) first.toList).report := rfl
  have htext : (first ++ "\n" ++ second).toList = first.toList ++ '\n' :: second.toList := by
    rw [String.toList_append, String.toList_append, List.append_assoc]
    rfl
  rw [hreport]
  generalize Lexer.run file (.first .empty) first.toList = st at *
  obtain ⟨hlength, breaks, hbreaks, hbeside⟩ := Lexer.take_feed file hplace hlined hgroups second.toList
  rw [String.length_toList] at hbeside
  have hend := Lexer.run_beside hbeside file second.toList
  -- the line break between the two is a step of its own, from which the second is gone over as from a first state
  have hnext : Lexer.run file st ('\n' :: second.toList) = Lexer.run file
      (st.take file (Lexer.step st.previous st.groups st.atLineStart '\n' second.toList) ['\n']) second.toList := by
    rw [Lexer.run, hlength]
    rfl
  rw [← hnext, ← hrun, ← htext] at hend
  refine ⟨breaks, hbreaks, ?_, ?_⟩
  · simp only [tokenize, Array.toList_push, hend.tokens, List.map_append, List.append_assoc, hend.place]
    simp only [List.map_cons, List.map_nil, Token.endMark, Token.view, View.shift, Span.between_shift]
  · simp only [tokenize, hend.report]

end ShellFront
