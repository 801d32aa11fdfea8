import ShellFront.Proofs.Layout.Scripts

/-!
# Scripts that are read without errors

A script is read **smoothly** when each of its statements is and a terminator follows it. That is so when nothing
is reported about the script. Then its brackets are nested, and its last token but line breaks calls for nothing
after it.

## Contents
- `Smooth`, `smooth_of_silent`: what it means that nothing was reported.
- `Rests`: tokens that call for nothing more.
- `Smooth.rests`, `Smooth.tokens`.
-/

namespace ShellFront

open Outlined Parse

variable {s : Script} {r : Rules} {ctx : Context} {st st' : State} {list : List Node} {ts us : List Token}

/-! ## Smooth readings -/

/-- The state at the next statement, after the separators before it. -/
def Parse.State.onward (st : State) : State := { st with cursor := st.cursor.skipWhile TokenKind.isSeparator }

/-- Statements are read **smoothly** up to the end of a script. -/
inductive Smooth (r : Rules) (ctx : Context) : State → List Node → State → Prop where
  | done {st : State} (hend : st.onward.cursor.kind = .endOfInput) : Smooth r ctx st [] st.onward
  | more {st st₁ st' : State} {node : Node} {list : List Node} (hend : st.onward.cursor.kind ≠ .endOfInput)
      (hnode : r.statement ctx st.onward = .ok node st₁) (hstop : st₁.cursor.kind.isTerminator = true)
      (hmore : Smooth r ctx st₁ list st') : Smooth r ctx st (node :: list) st'

theorem Parse.State.onward_tokens (hc : st.cursor.tokens = s.tokens) :
    st.onward.cursor.tokens = s.tokens ∧ st.onward.cursor.kind.isSeparator = false := by
  obtain ⟨us, hread, -⟩ := st.cursor.skipWhile_reads TokenKind.isSeparator
  exact ⟨hread.tokens_eq.trans hc, Cursor.kind_skipWhile (p := TokenKind.isSeparator) rfl hc⟩

theorem Report.toList_after_ne_nil {report : Report} {e : SyntaxError} (h : e.found.kind ≠ .invalid) :
    (report.after e).toList ≠ [] := by
  rw [after, if_neg h, toList_add]
  exact List.append_ne_nil_of_right_ne_nil _ (List.cons_ne_nil _ _)

/-- Where no token is invalid, whoever gives up reports an error. -/
theorem Parse.Fails.loud {e : SyntaxError} (h : Fails s st e st') (hvalid : ∀ t ∈ s.tokens, t.kind ≠ .invalid) :
    st'.report.toList ≠ [] := by
  rw [h.report]
  exact Report.toList_after_ne_nil fun hkind => hvalid _ (h.found hkind) hkind

namespace Grammar

/-- A list of statements goes on after a statement that a terminator follows. -/
theorem afterStatement_stop (kept : Array Node) (ctx : Context) (h : st.cursor.kind.isTerminator = true) :
    afterStatement false kept ctx st = .ok (.again kept) st := by
  rw [TokenKind.isTerminator_eq] at h
  have hnext : (st.cursor.kind.isSeparator || endsList false st.cursor.kind) = true := by
    rw [endsList, Bool.false_and, Bool.or_false]
    exact h
  rw [afterStatement, bind_run]
  simp only [here, hnext, if_true]
  rfl

/-- Otherwise there is an error, and a strict reading ends with the statements before it. -/
theorem afterStatement_stray (kept : Array Node) (ctx : Context) (h : st.cursor.kind.isTerminator = false) :
    ∃ e : SyntaxError, e.found = st.cursor.current ∧
      afterStatement false kept ctx.strict st = .ok (.done kept.toList) { st with report := st.report.after e } := by
  rw [TokenKind.isTerminator_eq] at h
  have hnext : (st.cursor.kind.isSeparator || endsList false st.cursor.kind) = false := by
    rw [endsList, Bool.false_and, Bool.or_false]
    exact h
  refine ⟨⟨.statementEnd, st.cursor.current, st.cursor.blamed⟩, rfl, ?_⟩
  rw [afterStatement, bind_run]
  simp only [here, hnext, Bool.false_eq_true, if_false]
  rw [bind_run, refuse_run]
  exact afterError_strict

variable {statements : Array Node} {node : Node} {st₁ : State} {e : SyntaxError}

theorem endsList_script {kind : TokenKind} : endsList false kind = true ↔ kind = .endOfInput := by
  rw [endsList, Bool.false_and, Bool.or_false, beq_iff_eq]

theorem statementTurn_end (hend : st.onward.cursor.kind = .endOfInput) :
    statementTurn r false statements ctx st = .ok (.done statements.toList) st.onward := by
  rw [statementTurn_run]
  exact if_pos (endsList_script.mpr hend)

theorem statementTurn_error (hend : st.onward.cursor.kind ≠ .endOfInput)
    (hnode : r.statement ctx st.onward = .error e st₁) :
    statementTurn r false statements ctx st = afterError false statements st.onward.cursor e ctx st₁ := by
  rw [State.onward] at hend hnode
  rw [statementTurn_run]
  dsimp only
  rw [if_neg (endsList_script.not.mpr hend), hnode]
  rfl

theorem statementTurn_ok (hend : st.onward.cursor.kind ≠ .endOfInput)
    (hnode : r.statement ctx st.onward = .ok node st₁) :
    statementTurn r false statements ctx st = afterStatement false (statements.push node) ctx st₁ := by
  rw [State.onward] at hend hnode
  rw [statementTurn_run]
  dsimp only
  rw [if_neg (endsList_script.not.mpr hend), hnode]

/-- **A script about which nothing is reported is read smoothly.** -/
theorem smooth_of_silent (hr : r.Sound s) (ctx : Context) (n : Nat) (hc : st.cursor.tokens = s.tokens)
    (hvalid : ∀ t ∈ s.tokens, t.kind ≠ .invalid)
    (hrun : iterate (statementTurn r false) n statements ctx.strict st = .ok list st')
    (hsilent : st'.report.toList = []) :
    ∃ fresh, list = statements.toList ++ fresh ∧ Smooth r ctx.strict st fresh st' := by
  induction n generalizing statements st with
  | zero =>
      rw [iterate, fail, bind_run, refuse_run] at hrun
      contradiction
  | succ n ih =>
      obtain ⟨hstart, hseparator⟩ := st.onward_tokens hc
      have hmatch := hr.statement st.onward.cursor hseparator ctx st.onward rfl hstart
      rw [iterate_run] at hrun
      by_cases hend : st.onward.cursor.kind = .endOfInput
      · rw [statementTurn_end hend] at hrun
        obtain ⟨rfl, rfl⟩ := EStateM.Result.ok.inj hrun
        exact ⟨[], (List.append_nil _).symm, .done hend⟩
      · cases hnode : r.statement ctx.strict st.onward with
        | error e st₁ =>
            -- the error would have been reported
            rw [hnode] at hmatch
            have hfails : Fails s st.onward e st₁ := by
              generalize r.statement ctx.lenient st.onward = y at hmatch
              cases hmatch with
              | fail hfails => exact hfails
              | part hfails => exact hfails
            rw [statementTurn_error hend hnode, afterError_strict] at hrun
            obtain ⟨-, rfl⟩ := EStateM.Result.ok.inj hrun
            exact absurd hsilent (hfails.loud hvalid)
        | ok node st₁ =>
            rw [hnode] at hmatch
            have hreach : st.onward.cursor.Reaches st₁.cursor := by
              generalize r.statement ctx.lenient st.onward = y at hmatch
              cases hmatch with
              | agree hpass => exact hpass.reaches
            have htokens : st₁.cursor.tokens = s.tokens := hreach.tokens_eq.trans hstart
            rw [statementTurn_ok hend hnode] at hrun
            cases hstop : st₁.cursor.kind.isTerminator with
            | true =>
                rw [afterStatement_stop _ _ hstop] at hrun
                obtain ⟨fresh, hlist, hmore⟩ := ih htokens hrun
                refine ⟨node :: fresh, ?_, .more hend hnode hstop hmore⟩
                rw [hlist, Array.toList_push, List.append_assoc]
                rfl
            | false =>
                obtain ⟨e, hfound, hstray⟩ := afterStatement_stray (statements.push node) ctx hstop
                rw [hstray] at hrun
                obtain ⟨-, rfl⟩ := EStateM.Result.ok.inj hrun
                have hmem : e.found ∈ s.tokens := by
                  rw [hfound]
                  exact Cursor.mem_tokens_of_mem_rest htokens List.mem_cons_self
                exact absurd hsilent (Report.toList_after_ne_nil (hvalid _ hmem))

end Grammar

/-! ## Tokens at the end -/

/-- The last of some tokens that is no line break calls for nothing more. -/
def Rests (ts : List Token) : Prop :=
  ∀ xs t ys, ts = xs ++ t :: ys → (∀ y ∈ ys, y.kind = .newline) → t.kind = .newline ∨ t.kind.isFirm = true

theorem Rests.nil : Rests [] := fun _ _ _ h => absurd h.symm (List.append_ne_nil_of_right_ne_nil _ (List.cons_ne_nil _ _))

theorem Rests.append (hts : Rests ts) (hus : Rests us) : Rests (ts ++ us) := by
  intro xs t ys heq hys
  rcases List.append_eq_append_iff.mp heq with ⟨zs, hxs, hus'⟩ | ⟨zs, hts', hrest⟩
  · exact hus zs t ys hus' hys
  · cases zs with
    | nil =>
        rw [List.nil_append] at hrest
        exact hus [] t ys hrest.symm hys
    | cons z zs =>
        obtain ⟨rfl, rfl⟩ := List.cons.inj hrest
        exact hts xs t zs hts' fun y hy => hys y (List.mem_append_left _ hy)

theorem Rests.of_forall (h : ∀ t ∈ ts, t.kind = .newline ∨ t.kind.isFirm = true) : Rests ts := by
  intro xs t ys heq _
  exact h t (by rw [heq]; simp)

/-- Tokens that end firmly rest. -/
theorem Rests.of_last {t : Token} (h : t.kind.isFirm = true) : Rests (ts ++ [t]) := by
  intro xs u ys heq hys
  cases ys using List.reverseRecOn with
  | nil =>
      obtain rfl := List.singleton_inj.mp (List.append_inj' heq rfl).2
      exact .inr h
  | append_singleton ys y =>
      rw [← List.cons_append, ← List.append_assoc] at heq
      obtain rfl := List.singleton_inj.mp (List.append_inj' heq rfl).2
      rw [hys t (by simp)] at h
      contradiction

/-- The separators before a statement call for nothing more. -/
theorem Parse.State.onward_rests (st : State) :
    ∃ ts, st.cursor.Reads ts st.onward.cursor ∧ Nested ts ∧ Rests ts := by
  obtain ⟨us, hread, hus⟩ := st.cursor.skipWhile_reads TokenKind.isSeparator
  refine ⟨us, hread, Watch.follow_inert fun t ht => inert_of_separator (hus t ht), .of_forall fun t ht => ?_⟩
  have hkind := hus t ht
  generalize t.kind = kind at hkind
  unfold TokenKind.isSeparator at hkind
  split at hkind
  · exact .inl rfl
  · exact .inr rfl
  · contradiction

/-- **A smooth reading** reads nested tokens that call for nothing more. -/
theorem Smooth.rests (h : Smooth r ctx st list st') (hr : r.Neat s .all) (hstrict : ctx.mode.recovering = false)
    (hc : st.cursor.tokens = s.tokens) :
    ∃ ts, st.cursor.Reads ts st'.cursor ∧ Nested ts ∧ Rests ts := by
  induction h with
  | @done st hend => exact st.onward_rests
  | @more st st₁ st' node list hend hnode hstop hmore ih =>
      obtain ⟨hstart, hseparator⟩ := st.onward_tokens hc
      have hallows : Watch.all.Allows s ctx.mode := fun h => absurd (hstrict.symm.trans h) Bool.false_ne_true
      have hformed := hr.statement st.onward.cursor hstart hseparator ctx st.onward hallows rfl
      rw [hnode] at hformed
      obtain ⟨us, hread, hnested, -, hfirm⟩ := hformed.trail.read
      obtain ⟨ts, hskip, hnested₀, hrests₀⟩ := st.onward_rests
      obtain ⟨vs, hmore, hnested₁, hrests₁⟩ := ih hformed.trail.tokens
      -- a statement ends with a firm token, and the separators before it call for nothing either
      have hus : Rests us := by
        rcases List.eq_nil_or_concat us with rfl | ⟨us, t, rfl⟩
        · exact .nil
        · rw [List.concat_eq_append] at hread hfirm ⊢
          have hlast : t = st₁.cursor.previous :=
            Option.some.inj (List.getLast?_concat.symm.trans (hread.last (by simp)))
          exact .of_last (hlast ▸ hfirm rfl (by simp))
      have hnested : Nested us := hnested
      refine ⟨ts ++ (us ++ vs), hskip.trans (hread.trans hmore), ?_, hrests₀.append (hus.append hrests₁)⟩
      rw [Nested, Watch.follow_append_of hnested₀, Watch.follow_append_of hnested]
      exact hnested₁

theorem Smooth.kind (h : Smooth r ctx st list st') : st'.cursor.kind = .endOfInput := by
  induction h with
  | done hend => exact hend
  | more _ _ _ _ ih => exact ih

/-- Where nothing is reported about a script, both readings give the same. -/
theorem script_whole {source file : String} (htokens : (tokenize source file).tokens = s.tokens)
    (hplaces : (tokenize source file).report.places = invalidPlaces s.body) (failFast : Bool)
    (isBuiltin : String → Bool) (hsilent : (parse source file failFast isBuiltin).report.toList = []) :
    ∃ st', scriptStatements source file ⟨.top false, isBuiltin⟩ (.first source file) =
        .ok (parse source file failFast isBuiltin).program.statements st' ∧
      st'.report.toList = [] ∧ (tokenize source file).report.toList = [] ∧ st'.cursor.kind = .endOfInput := by
  obtain ⟨list, st', hlenient, hended⟩ := script_lenient htokens ⟨.top true, isBuiltin⟩
  have hruns := hlenient ▸ script_runs htokens ⟨.top true, isBuiltin⟩
  generalize hstrict : scriptStatements source file (Context.strict ⟨.top true, isBuiltin⟩) (.first source file) = x
    at hruns
  cases hruns with
  | whole hpass hreport hcarries =>
      obtain ⟨hprogram, hreport'⟩ : (parse source file failFast isBuiltin).program = ⟨scriptSpan source file, file, list⟩ ∧
          (parse source file failFast isBuiltin).report = st'.report := by
        cases failFast with
        | false => exact parse_of_run false hlenient
        | true => exact parse_of_run true hstrict
      rw [hreport'] at hsilent
      rw [hprogram]
      exact ⟨st', hstrict, hsilent, (congrArg Report.toList hreport).symm.trans hsilent, hended.kind⟩
  | cut hfails hgrows hkept hbroken =>
      -- an error would have been reported in both
      have hloud := hfails.reported hplaces
      refine absurd hsilent ?_
      cases failFast with
      | false =>
          obtain ⟨es, hes⟩ := hgrows
          rw [(parse_of_run false hlenient).2, hes]
          exact List.append_ne_nil_of_left_ne_nil hloud _
      | true =>
          rw [(parse_of_run true hstrict).2]
          exact hloud

/-- All that is reported about a script are errors. -/
theorem parse_severity (source file : String) (failFast : Bool) (isBuiltin : String → Bool) :
    ∀ d ∈ (parse source file failFast isBuiltin).report.toList, d.severity = .error := by
  obtain ⟨s, htokens, hplaces⟩ := tokenize_script source file
  obtain ⟨list, st', hlenient, hended⟩ := script_lenient htokens ⟨.top true, isBuiltin⟩
  have hall : ∀ d ∈ st'.report.toList, d.severity = .error := by
    intro d hd
    obtain ⟨es, hes⟩ := hended.grows
    rw [hes] at hd
    rcases List.mem_append.mp hd with hd | hd
    · exact (Report.lexical_of_places hplaces hd).1
    · obtain ⟨e, -, rfl⟩ := List.mem_map.mp hd
      rfl
  cases failFast with
  | false =>
      rw [(parse_of_run false hlenient).2]
      exact hall
  | true =>
      obtain ⟨kept, rest, st₁, hstrict, -, -, -, ⟨es, hes⟩, -⟩ :=
        (hlenient ▸ script_runs htokens ⟨.top true, isBuiltin⟩).strict
      rw [(parse_of_run true hstrict).2]
      intro d hd
      exact hall d (by rw [hes]; exact List.mem_append_left _ hd)

/-- **A script about which nothing is reported**: its statements are read smoothly, no token of it is invalid, its
    brackets are nested, and it ends with a token that calls for nothing more. -/
theorem script_smooth {source file : String} (htokens : (tokenize source file).tokens = s.tokens)
    (hplaces : (tokenize source file).report.places = invalidPlaces s.body) (failFast : Bool)
    (isBuiltin : String → Bool) (hsilent : (parse source file failFast isBuiltin).report.hasErrors = false) :
    (∃ st', Smooth (.upTo (State.first source file).cursor.depth) ⟨.top false, isBuiltin⟩ (.first source file)
        (parse source file failFast isBuiltin).program.statements st' ∧ st'.report.toList = []) ∧
      (∀ t ∈ s.body, t.kind ≠ .invalid) ∧ Nested s.body ∧ Rests s.body := by
  have hsilent : (parse source file failFast isBuiltin).report.toList = [] := by
    by_contra hne
    exact absurd (hsilent.symm.trans ((Report.hasErrors_iff (parse_severity source file failFast isBuiltin)).mpr hne))
      Bool.false_ne_true
  obtain ⟨st', hstrict, hsilent', hlexer, hend⟩ := script_whole htokens hplaces failFast isBuiltin hsilent
  obtain ⟨hbefore, hfirst⟩ := first_cursor htokens
  have hvalid : ∀ t ∈ s.body, t.kind ≠ .invalid := (Report.toList_eq_nil hplaces).mp hlexer
  have hvalid' : ∀ t ∈ s.tokens, t.kind ≠ .invalid := by
    intro t ht
    rcases List.mem_append.mp ht with ht | ht
    · exact hvalid t ht
    · rw [List.mem_singleton.mp ht, s.last_kind]
      exact TokenKind.noConfusion
  -- without errors the strict reading goes from statement to statement
  obtain ⟨fresh, hfresh, hsmooth⟩ := Grammar.smooth_of_silent (Rules.upTo_sound s _) ⟨.top false, isBuiltin⟩ _ hfirst
    hvalid' hstrict hsilent'
  have hfresh : (parse source file failFast isBuiltin).program.statements = fresh := hfresh
  rw [← hfresh] at hsmooth
  obtain ⟨ts, hread, hnested, hrests⟩ := hsmooth.rests (Rules.upTo_neat s .all _) rfl hfirst
  obtain rfl := hread.all hfirst hbefore hend
  exact ⟨⟨st', hsmooth, hsilent'⟩, hvalid, hnested, hrests⟩

end ShellFront
