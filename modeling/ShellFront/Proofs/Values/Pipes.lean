import ShellFront.Proofs.Operators.Operands
import ShellFront.Proofs.Values.Braces

/-!
# Pipes after a command

Whether a pipe goes on with the same command is seen from the tokens after it, while a stage after a value is read like
any value. Both sort names by what comes next, each in its own words. They agree about calls, tuples and commands. A
capitalised name before a record is a command to the first, and the construction of an object to the second.

## Contents
- `Cursor.afterPipe`, `Cursor.pipeFolds_iff`: what is seen behind a pipe.
- `Grammar.GoesOn`, `Grammar.Folds`, `Grammar.commandExpression_folds`: the stages of a command.
- `Grammar.primary_construction`: where an object is made.
- `Grammar.pipe_folds_iff`.
-/

namespace ShellFront

open Grammar

/-! ## Behind a pipe -/

/-- A name that is neither a tuple nor called stands for a command, or for the construction of an object. -/
theorem Grammar.nameUse_command_or_construction {mode : Mode} {c : Cursor} :
    (nameUse mode c = .command ∨ nameUse mode c = .construction) ↔
      (c.current.lexeme == "tuple" && c.next.kind == .symbol .openBracket) = false ∧
        (c.next.kind == .symbol .openParen && c.current.touches c.next) = false := by
  unfold nameUse
  split
  · simp_all
  split
  · simp_all
  split <;> simp_all

namespace Cursor

/-- Past a pipe and the line breaks after it. -/
def afterPipe (c : Cursor) : Cursor := c.advance.skipWhile (· == .newline)

/-- What stands behind a pipe is what its tokens show, or else there is no name behind it. -/
theorem afterPipe_cases {c : Cursor} {s : Symbol} (h : c.kind = .symbol s) :
    (∃ before t more, c.afterPipe = ⟨before, t, more⟩ ∧ c.ahead.dropWhile (fun t => t.kind == .newline) = t :: more) ∨
      c.afterPipe.kind ≠ .identifier ∧ c.ahead.dropWhile (fun t => t.kind == .newline) = [] := by
  have hend : c.kind ≠ .endOfInput := by
    rw [h]
    nofun
  cases hahead : c.ahead with
  | nil =>
      have hstays : c.afterPipe = c := by
        rw [afterPipe, advance_last hahead, skipWhile_of_not (by rw [h]; rfl)]
      exact .inr ⟨by rw [hstays, h]; nofun, rfl⟩
  | cons u us =>
      have hrest : c.advance.rest = u :: us := hahead ▸ rest_advance hend (by simp [hahead])
      cases hdrop : (u :: us).dropWhile (fun t => t.kind == .newline) with
      | nil =>
          have hbreak : c.afterPipe.kind = .newline := kind_skipWhile_breaks (by rw [hrest, hdrop])
          exact .inr ⟨by rw [hbreak]; nofun, rfl⟩
      | cons t more =>
          have hfirst := List.head?_dropWhile_not (fun t : Token => t.kind == .newline) (u :: us)
          rw [hdrop] at hfirst
          obtain ⟨before, hskip⟩ := skipWhile_to (p := (· == .newline)) rfl hfirst (hrest ▸ hdrop)
          exact .inl ⟨before, t, more, hskip, rfl⟩

/-- **A pipe goes on with a command before a name that stands for a command**, or for the construction of an object. -/
theorem pipeFolds_iff {c : Cursor} {s : Symbol} (h : c.kind = .symbol s) (mode : Mode) :
    pipeFolds c.ahead = true ↔ c.afterPipe.kind = .identifier ∧
      (nameUse mode c.afterPipe = .command ∨ nameUse mode c.afterPipe = .construction) := by
  rcases afterPipe_cases h with ⟨before, t, more, hafter, hdrop⟩ | ⟨hkind, hdrop⟩
  · rw [hafter, pipeFolds, hdrop, nameUse_command_or_construction, Bool.and_eq_true, beq_iff_eq]
    refine and_congr_right fun hname => ?_
    cases more with
    | nil =>
        have hnext : next ⟨before, t, []⟩ = t := rfl
        rw [hnext, show t.kind = .identifier from hname]
        simp
    | cons u us =>
        have hnext : next ⟨before, t, u :: us⟩ = u := rfl
        rw [hnext, Bool.and_eq_true, Bool.not_eq_true', Bool.not_eq_true', and_comm]
  · rw [pipeFolds, hdrop]
    simp [hkind]

end Cursor

/-! ## Stages -/

namespace Grammar

open Parse

variable {r : Rules} {ctx : Context} {st : State} {s : Symbol}

theorem foldedStage_run (hpipe : st.cursor.kind = .symbol s) (hs : s.isPipe = true) :
    foldedStage r ctx st =
      if Cursor.pipeFolds st.cursor.ahead = true then
        (commandStage r >>= fun stage => pure (some (s, stage))) ctx { st with cursor := st.cursor.afterPipe }
      else .ok none st := by
  have hrun : pipe? (fun c => Cursor.pipeFolds c.ahead) ctx st =
      if Cursor.pipeFolds st.cursor.ahead = true then .ok (some s) { st with cursor := st.cursor.afterPipe }
      else .ok none st := by
    simp only [pipe?, bind_run, here, hpipe, hs, Bool.true_and]
    split <;> rfl
  rw [foldedStage, bind_run, hrun]
  cases Cursor.pipeFolds st.cursor.ahead <;> rfl

/-- Without a pipe there is no further stage. -/
theorem foldedStage_none (hnone : ∀ s, st.cursor.kind = .symbol s → s.isPipe = false) :
    foldedStage r ctx st = .ok none st := by
  have hrun : pipe? (fun c => Cursor.pipeFolds c.ahead) ctx st = .ok none st := by
    simp only [pipe?, bind_run, here]
    cases hkind : st.cursor.kind with
    | symbol s => simp only [hnone s hkind, Bool.false_and, Bool.false_eq_true, if_false]; rfl
    | _ => rfl
  rw [foldedStage, bind_run, hrun]
  rfl

/-- Whether a command that was piped goes on at a cursor. -/
def GoesOn (mode : Mode) (c : Cursor) : Prop :=
  c.kind = .identifier ∧ (nameUse mode c = .command ∨ nameUse mode c = .construction)

instance (mode : Mode) (c : Cursor) : Decidable (GoesOn mode c) := inferInstanceAs (Decidable (_ ∧ (_ ∨ _)))

/-- The further stages of a command, from the place after a stage on: a stage behind each pipe that the command goes on
    after, up to a place where there is no such pipe. -/
inductive Folds (r : Rules) (ctx : Context) : State → List (Symbol × CommandStage Node) → State → Prop where
  | stop {st : State} (h : ∀ s, st.cursor.kind = .symbol s → s.isPipe = true → ¬ GoesOn ctx.mode st.cursor.afterPipe) :
      Folds r ctx st [] st
  | stage {st st' after : State} {s : Symbol} {stage : CommandStage Node} {others : List (Symbol × CommandStage Node)}
      (hpipe : st.cursor.kind = .symbol s) (hs : s.isPipe = true) (hgoes : GoesOn ctx.mode st.cursor.afterPipe)
      (hstage : commandStage r ctx { st with cursor := st.cursor.afterPipe } = .ok stage st')
      (hothers : Folds r ctx st' others after) : Folds r ctx st ((s, stage) :: others) after

/-- What is read after a stage: a stage behind a pipe that the command goes on after, or nothing. -/
theorem foldedStage_cases {joint : Option (Symbol × CommandStage Node)} {after : State}
    (hrun : foldedStage r ctx st = .ok joint after) :
    (joint = none ∧ after = st ∧ Folds r ctx st [] st) ∨
      ∃ s stage, joint = some (s, stage) ∧ ∀ {others last}, Folds r ctx after others last →
        Folds r ctx st ((s, stage) :: others) last := by
  by_cases hpipe : ∃ s, st.cursor.kind = .symbol s ∧ s.isPipe = true
  · obtain ⟨s, hkind, hs⟩ := hpipe
    rw [foldedStage_run hkind hs] at hrun
    split at hrun
    · next hfolds =>
        -- a stage is read behind the pipe, or the loop ends before it
        have hgoes : GoesOn ctx.mode st.cursor.afterPipe := (Cursor.pipeFolds_iff hkind ctx.mode).mp hfolds
        rw [bind_run] at hrun
        cases hstage : commandStage r ctx { st with cursor := st.cursor.afterPipe } with
        | error e st' =>
            rw [hstage] at hrun
            contradiction
        | ok stage st' =>
            rw [hstage] at hrun
            obtain ⟨rfl, rfl⟩ := EStateM.Result.ok.inj hrun
            exact .inr ⟨s, stage, rfl, .stage hkind hs hgoes hstage⟩
    · next hfolds =>
        obtain ⟨rfl, rfl⟩ := EStateM.Result.ok.inj hrun
        have hstays : ¬ GoesOn ctx.mode st.cursor.afterPipe := mt (Cursor.pipeFolds_iff hkind ctx.mode).mpr hfolds
        exact .inl ⟨rfl, rfl, .stop fun _ _ _ => hstays⟩
  · have hnone (s : Symbol) (hs : st.cursor.kind = .symbol s) : s.isPipe = false :=
      Bool.eq_false_iff.mpr fun h => hpipe ⟨s, hs, h⟩
    rw [foldedStage_none hnone] at hrun
    obtain ⟨rfl, rfl⟩ := EStateM.Result.ok.inj hrun
    exact .inl ⟨rfl, rfl, .stop fun s hs h => absurd ⟨s, hs, h⟩ hpipe⟩

theorem foldedStages_fold {n : Nat} {items : Array (Symbol × CommandStage Node)}
    {list : List (Symbol × CommandStage Node)} {after : State}
    (hrun : iterate (collectTurn (foldedStage r)) n items ctx st = .ok list after) :
    ∃ others, list = items.toList ++ others ∧ Folds r ctx st others after := by
  induction n generalizing items st with
  | zero => exact nomatch hrun
  | succ n ih =>
      rw [iterate_run, collectTurn, bind_run] at hrun
      cases hturn : foldedStage r ctx st with
      | error e st' =>
          rw [hturn] at hrun
          contradiction
      | ok joint st' =>
          rw [hturn] at hrun
          obtain ⟨rfl, rfl, hstop⟩ | ⟨s, stage, rfl, hfold⟩ := foldedStage_cases hturn
          · obtain ⟨rfl, rfl⟩ := EStateM.Result.ok.inj hrun
            exact ⟨[], (List.append_nil _).symm, hstop⟩
          · obtain ⟨others, rfl, hothers⟩ := ih hrun
            refine ⟨(s, stage) :: others, ?_, hfold hothers⟩
            rw [Array.toList_push, List.append_assoc, List.singleton_append]

/-- **The stages of a command** are its first one and those behind the pipes that it goes on after. -/
theorem commandExpression_folds {n : Node} {after : State} (hrun : commandExpression r ctx st = .ok n after) :
    ∃ first st' others, commandStage r ctx st = .ok first st' ∧ Folds r ctx st' others after ∧
      ∃ span, n = .command span (first :: others.map (·.2)) (others.map (·.1)) := by
  rw [commandExpression, bind_run] at hrun
  cases hfirst : commandStage r ctx st with
  | error e st' =>
      rw [hfirst] at hrun
      contradiction
  | ok first st' =>
      rw [hfirst] at hrun
      dsimp only at hrun
      rw [bind_run] at hrun
      cases hothers : r.collect (foldedStage r) ctx st' with
      | error e st'' =>
          rw [hothers] at hrun
          contradiction
      | ok others st'' =>
          rw [hothers] at hrun
          obtain ⟨rfl, rfl⟩ := EStateM.Result.ok.inj hrun
          obtain ⟨_, rfl, hfolds⟩ := foldedStages_fold hothers
          exact ⟨first, st', _, rfl, hfolds, _, rfl⟩

/-! ## Values -/

theorem primary_construction {node : Node} {after : State} (hname : st.cursor.kind = .identifier)
    (hwords : ctx.mode.words = false) (huse : nameUse ctx.mode st.cursor = .construction)
    (hrun : primary r ctx st = .ok node after) : node.outline.kind = .objectConstruction := by
  have hkind (c : Cursor) : Yields c (fun n _ => n.outline.kind = .objectConstruction) (do
      let name ← advance
      let value ← record r
      return Node.construction (← spanFrom name.span) ⟨name.span, name.lexeme⟩ value) :=
    .skip fun _ _ => .skip fun _ _ => .skip fun _ _ => .pure rfl
  rw [primary_name hname hwords] at hrun
  simp only [nameExpression, bind_run, Parse.mode, here, huse] at hrun
  exact hkind _ ctx st node after rfl (by simpa only [bind_run] using hrun)

/-- **Where a pipe goes on with a command**: the stages of a command stand behind the pipes before a name that stands for
    a command, or for the construction of an object, and behind no others. As a value the first is a command as well,
    and the second is not. -/
theorem pipe_folds_iff (r : Rules) (hwords : ctx.mode.words = false) :
    (∀ st n after, commandExpression r ctx st = .ok n after →
      ∃ first st' others, commandStage r ctx st = .ok first st' ∧ Folds r ctx st' others after ∧
        ∃ span, n = .command span (first :: others.map (·.2)) (others.map (·.1))) ∧
    ∀ st s, st.cursor.kind = .symbol s → s.isPipe = true →
      let next := st.cursor.afterPipe
      (foldedStage r ctx st =
        if GoesOn ctx.mode next then
          (commandStage r >>= fun stage => pure (some (s, stage))) ctx { st with cursor := next }
        else .ok none st) ∧
      ∀ n after, primary r ctx { st with cursor := next } = .ok n after →
        (n.outline.kind = .commandExpression ↔ next.kind = .identifier ∧ nameUse ctx.mode next = .command) ∧
        (next.kind = .identifier → nameUse ctx.mode next = .construction → n.outline.kind = .objectConstruction) := by
  refine ⟨fun st n after => commandExpression_folds, fun st s hpipe hs => ?_⟩
  intro next
  refine ⟨?_, fun n after hrun => ⟨?_, fun hname huse => ?_⟩⟩
  · rw [foldedStage_run hpipe hs]
    exact if_congr (Cursor.pipeFolds_iff hpipe ctx.mode) rfl rfl
  · constructor
    · intro hkind
      by_contra hno
      -- all values but commands are single, and a command is not
      have hsingle : n.outline.kind.isSingle = true :=
        primary_single (fun h => hno ⟨h.1, h.2.2⟩) ctx _ n after rfl hrun
      rw [hkind] at hsingle
      contradiction
    · rintro ⟨hname, huse⟩
      rw [primary_command ⟨hname, hwords, huse⟩] at hrun
      exact commandExpression_kind ctx _ n after rfl hrun
  · exact primary_construction hname hwords huse hrun

/-- A pipe before a word goes on with the command, and the word is a command by itself. -/
theorem pipe_folds_sort :
    let session := Session.start (tokenize "ls |\n sort" "a").tokens 0 false (fun _ => false) .empty #[]
    let ctx := session.context
    let st : State := { session.state with cursor := session.state.cursor.advance }
    let r := Rules.upTo session.state.cursor.depth
    ctx.mode.words = false ∧
      (match commandExpression r ctx session.state with
        | .ok n _ => n.outline.children.length
        | .error _ _ => 0) = 2 ∧
      st.cursor.kind = .symbol .pipe ∧ st.cursor.afterPipe.current.lexeme = "sort" ∧
      (∀ n after, commandExpression r ctx session.state = .ok n after →
        ∃ first st' others, commandStage r ctx session.state = .ok first st' ∧ Folds r ctx st' others after ∧
          ∃ span, n = .command span (first :: others.map (·.2)) (others.map (·.1))) ∧
      foldedStage r ctx st =
        (commandStage r >>= fun stage => pure (some (.pipe, stage))) ctx { st with cursor := st.cursor.afterPipe } ∧
      ∀ n after, primary r ctx { st with cursor := st.cursor.afterPipe } = .ok n after →
        n.outline.kind = .commandExpression := by
  intro session ctx st r
  have hpipe : st.cursor.kind = .symbol .pipe := by decide +kernel
  have hname : st.cursor.afterPipe.kind = .identifier := by decide +kernel
  have huse : nameUse ctx.mode st.cursor.afterPipe = .command := by decide +kernel
  obtain ⟨hstages, hpiped⟩ := pipe_folds_iff r (show ctx.mode.words = false from rfl)
  obtain ⟨hfolds, hvalue⟩ := hpiped st .pipe hpipe rfl
  rw [if_pos ⟨hname, .inl huse⟩] at hfolds
  exact ⟨rfl, by decide +kernel, hpipe, by decide +kernel, hstages session.state, hfolds,
    fun n after hrun => (hvalue n after hrun).1.mpr ⟨hname, huse⟩⟩

/-- Before a record, a capitalised name is a further command when it is piped into by a command, and the construction of
    an object when it is piped into by a value. -/
theorem pipe_folds_record :
    (∃ t ∈ (parse "ls | Dog \x7b name: 1 \x7d" "a" true fun _ => false).program.outline.walk,
      t.kind = .commandExpression ∧ t.children.length = 2) ∧
    ∃ t ∈ (parse "1 | Dog \x7b name: 1 \x7d" "a" true fun _ => false).program.outline.walk,
      t.kind = .pipeline ∧ t.children.map Outline.kind = [.intLiteral, .objectConstruction] := by
  rw [Outline.walk_eq_preorder, Outline.walk_eq_preorder]
  decide +kernel

end Grammar

end ShellFront
