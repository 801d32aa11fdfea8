import ShellFront.Proofs.Layout.Readings

/-!
# How actions lay out trees

`Does` says of an action at a cursor how it ends, and that it gives up in order; `Goes` says so from wherever
the trail of a production has come. A part of a production `Lays` what it gives over the tokens that it
reads, and a production `Forms` a single outline of all of them. The rules here follow how actions are put
together.

## Contents
- `Does` and the rules for one action at a cursor.
- `Goes`, `Lays`, `Forms`: parts, marks and brackets on the way; how a production is finished.
- Modes, attempts and loops.
-/

namespace ShellFront

open Outlined

namespace Parse

variable {α β : Type} {s : Script} {w : Watch} {c₀ c c' : Cursor} {firm firm' : Bool}
  {stack stack' : List Symbol} {held : List Outline} {P : Cursor → Prop} {kind : TokenKind}
  {problem : Problem} {start : Span}

/-! ## An action at a cursor -/

/-- What the result of an action that is part of what began at `c₀` is like: it is as `Q` says, or the action
    gave up in order. -/
def Lands (w : Watch) (c₀ : Cursor) (Q : α → Cursor → Prop) :
    EStateM.Result SyntaxError State α → Prop
  | .ok a st => Q a st.cursor
  | .error _ st => c₀.Strays w st.cursor

/-- From `c`, an action that is part of what began at `c₀` ends as `Q` says, or gives up in order. -/
def Does (s : Script) (w : Watch) (c₀ c : Cursor) (m : Parse α) (Q : α → Cursor → Prop) : Prop :=
  ∀ (ctx : Context) (st : State), w.Allows s ctx.mode → st.cursor = c → Lands w c₀ Q (m ctx st)

variable {m : Parse α} {f : α → Parse β} {Q R : α → Cursor → Prop} {Q' : β → Cursor → Prop}

/-- What is known of the result of an action may be weakened. -/
theorem Lands.imp {x : EStateM.Result SyntaxError State α} (h : Lands w c₀ R x)
    (hQ : ∀ a c', R a c' → Q a c') : Lands w c₀ Q x := by
  match x with
  | .ok a st => exact hQ a _ h
  | .error _ _ => exact h

/-- As `Lands.imp`, for the action itself. -/
theorem Does.imp (h : Does s w c₀ c m R) (hQ : ∀ a c', R a c' → Q a c') : Does s w c₀ c m Q :=
  fun ctx st hallows hst => (h ctx st hallows hst).imp hQ

/-- Two actions of one production, one after the other. -/
theorem Does.follow (hm : Does s w c₀ c m R) (hf : ∀ a c', R a c' → Does s w c₀ c' (f a) Q') :
    Does s w c₀ c (m >>= f) Q' := by
  intro ctx st hallows hst
  have h := hm ctx st hallows hst
  rw [bind_run]
  generalize m ctx st = x at h
  match x with
  | .ok a st' => exact hf a _ h ctx st' hallows rfl
  | .error _ _ => exact h

/-- What gives up in order after others gives up in order. -/
theorem Does.precede (hstrays : c₀.Strays w c') (hm : Does s w c' c m Q) : Does s w c₀ c m Q := by
  intro ctx st hallows hst
  have h := hm ctx st hallows hst
  generalize m ctx st = x at h ⊢
  match x with
  | .ok _ _ => exact h
  | .error _ _ => exact hstrays.trans h

/-- A part of its own, and what follows it. -/
theorem Does.bind (hstrays : c₀.Strays w c) (hm : Does s w c c m R)
    (hf : ∀ a c', R a c' → Does s w c₀ c' (f a) Q') : Does s w c₀ c (m >>= f) Q' :=
  .follow (.precede hstrays hm) hf

theorem Does.pure {a : α} (hQ : Q a c) : Does s w c₀ c (pure a) Q := by
  intro ctx st _ hst
  rw [← hst] at hQ
  exact hQ

theorem Does.ret {a : α} (h : Does s w c₀ c (f a) Q') : Does s w c₀ c (Pure.pure a >>= f) Q' := by
  rwa [pure_bind]

/-- An action that moves from one cursor to another. -/
theorem Does.step {a : α} (hm : ∀ ctx st, st.cursor = c → ∃ st', m ctx st = .ok a st' ∧ st'.cursor = c')
    (hf : Does s w c₀ c' (f a) Q') : Does s w c₀ c (m >>= f) Q' := by
  intro ctx st hallows hst
  obtain ⟨st', hrun, hst'⟩ := hm ctx st hst
  rw [bind_run, hrun]
  exact hf ctx st' hallows hst'

theorem Does.here {f : Cursor → Parse β} (hf : Does s w c₀ c (f c) Q') : Does s w c₀ c (here >>= f) Q' :=
  .step (fun _ st hst => ⟨st, hst ▸ rfl, hst⟩) hf

/-- Looking at the current token moves nothing. -/
theorem Does.peek {f : Token → Parse β} (hf : Does s w c₀ c (f c.current) Q') :
    Does s w c₀ c (peek >>= f) Q' :=
  .step (fun _ st hst => ⟨st, hst ▸ rfl, hst⟩) hf

theorem Does.check {f : Bool → Parse β} (hf : Does s w c₀ c (f (c.kind == kind)) Q') :
    Does s w c₀ c (check kind >>= f) Q' :=
  .step (fun _ st hst => ⟨st, hst ▸ rfl, hst⟩) hf

/-- A diagnostic does not move the reader either. -/
theorem Does.note {entry : LogEntry} {f : Unit → Parse β} (hf : Does s w c₀ c (f ()) Q') :
    Does s w c₀ c (note entry >>= f) Q' :=
  .step (fun _ _ hst => ⟨_, rfl, hst⟩) hf

/-- The span that is made reaches to the end of the token before the cursor. -/
theorem Does.spanFrom {f : Span → Parse β} (hf : Does s w c₀ c (f (start.cover c.previous.span)) Q') :
    Does s w c₀ c (spanFrom start >>= f) Q' :=
  .step (fun _ st hst => ⟨st, hst ▸ rfl, hst⟩) hf

theorem Does.move {step : Cursor → Cursor} {f : Unit → Parse β} (hf : Does s w c₀ (step c) (f ()) Q') :
    Does s w c₀ c (move step >>= f) Q' :=
  .step (fun _ st hst => ⟨{ st with cursor := step c }, hst ▸ rfl, rfl⟩) hf

/-- One token is read: it is the one at the cursor. -/
theorem Does.advance {f : Token → Parse β} (hf : Does s w c₀ c.advance (f c.current) Q') :
    Does s w c₀ c (advance >>= f) Q' :=
  .step (fun _ st hst => ⟨{ st with cursor := c.advance }, hst ▸ rfl, rfl⟩) hf

/-- A mark is read when it is there, and nothing is read when it is not. -/
theorem Does.accept {f : Bool → Parse β} (hyes : c.kind = kind → Does s w c₀ c.advance (f true) Q')
    (hno : c.kind ≠ kind → Does s w c₀ c (f false) Q') : Does s w c₀ c (accept kind >>= f) Q' := by
  by_cases h : c.kind = kind
  · refine .step (fun _ st hst => ⟨{ st with cursor := c.advance }, ?_, rfl⟩) (hyes h)
    rw [Parse.accept, hst, if_pos h]
  · refine .step (fun _ st hst => ⟨st, ?_, hst⟩) (hno h)
    rw [Parse.accept, hst, if_neg h]

/-- The mode is one that the watch allows, and nothing else is known of it. -/
theorem Does.mode {f : Mode → Parse β} (hf : ∀ mode, w.Allows s mode → Does s w c₀ c (f mode) Q') :
    Does s w c₀ c (mode >>= f) Q' := by
  intro ctx st hallows hst
  rw [bind_run]
  exact hf ctx.mode hallows ctx st hallows hst

theorem Does.read {f : Context → Parse β} (hf : ∀ ctx, Does s w c₀ c (f ctx) Q') :
    Does s w c₀ c (read >>= f) Q' := by
  intro ctx st hallows hst
  rw [bind_run]
  exact hf ctx ctx st hallows hst

theorem Does.last (h : Does s w c₀ c (m >>= Pure.pure) Q) : Does s w c₀ c m Q := by
  rwa [bind_pure] at h

/-- Each of two ways to go on may use how the choice was made. -/
theorem Does.ite {b : Prop} [Decidable b] {m' : Parse α} (h : b → Does s w c₀ c m Q)
    (h' : ¬b → Does s w c₀ c m' Q) : Does s w c₀ c (if b then m else m') Q := by
  split
  · exact h ‹_›
  · exact h' ‹_›

/-- As `Does.ite`, for a look at the kind of the current token. -/
theorem Does.ifCheck {yes no : Parse α} (hyes : c.kind = kind → Does s w c₀ c yes Q)
    (hno : c.kind ≠ kind → Does s w c₀ c no Q) :
    Does s w c₀ c (Parse.check kind >>= fun b => if b then yes else no) Q := by
  refine .check (.ite (fun h => hyes (eq_of_beq h)) fun h => hno fun heq => h (beq_of_eq heq))

/-- An error is only made here; nothing is given up before it is thrown. -/
theorem Does.refuse {f : SyntaxError → Parse β} (hf : ∀ e, Does s w c₀ c (f e) Q') :
    Does s w c₀ c (refuse problem >>= f) Q' := by
  intro ctx st hallows hst
  rw [bind_run, refuse_run]
  exact hf _ ctx _ hallows hst

/-- Giving up is in order wherever the reader has come in order. -/
theorem Does.throw {e : SyntaxError} (hstrays : c₀.Strays w c) : Does s w c₀ c (throw e) Q := by
  intro ctx st _ hst
  rw [← hst] at hstrays
  exact hstrays

theorem Does.fail (hstrays : c₀.Strays w c) : Does s w c₀ c (fail problem) Q :=
  .refuse fun _ => .throw hstrays

theorem Does.failAt {token : Token} (hstrays : c₀.Strays w c) : Does s w c₀ c (failAt token problem) Q := by
  intro ctx st hallows hst
  rw [Parse.failAt, bind_run, reportError_run]
  exact hst ▸ hstrays

/-- A mark that must come next. -/
theorem Does.expect {f : Token → Parse β} (hstrays : c₀.Strays w c)
    (hf : c.kind = kind → Does s w c₀ c.advance (f c.current) Q') :
    Does s w c₀ c (expect kind problem >>= f) Q' := by
  rw [Parse.expect, bind_assoc]
  refine .check ?_
  split
  · exact .advance (hf (eq_of_beq ‹_›))
  · intro ctx st hallows hst
    rw [bind_run]
    have hfail : Does s w c₀ c (Parse.fail problem : Parse Token) fun _ _ => False := .fail hstrays
    have h := hfail ctx st hallows hst
    generalize Parse.fail problem ctx st = x at h
    match x with
    | .ok _ _ => exact h.elim
    | .error _ _ => exact h

/-! ## Actions on a trail -/

/-- Wherever the trail from `c₀` has come, and `P` holds, an action does what `Q` says. -/
def Goes (s : Script) (w : Watch) (c₀ : Cursor) (P : Cursor → Prop) (firm : Bool) (stack : List Symbol)
    (held : List Outline) (m : Parse α) (Q : α → Cursor → Prop) : Prop :=
  ∀ c, c₀.Trail s w firm stack held c → P c → Does s w c₀ c m Q

/-- An action **lays** what it gives over the tokens that it reads. -/
def Lays [Outlined α] (s : Script) (w : Watch) (firm : Bool) (m : Parse α) : Prop :=
  ∀ c, c.tokens = s.tokens → Does s w c c m fun a c' => c.Trail s w firm [] (shown a) c'

/-- From tokens of some kinds, an action **forms** one outline of all tokens that it reads. -/
def Forms [Outlined α] (s : Script) (w : Watch) (K : TokenKind → Prop) (m : Parse α) : Prop :=
  ∀ c, c.tokens = s.tokens → K c.kind → Does s w c c m fun a c' => c.Formed s w (shown a) c'

variable {os : List Outline} {o : Outline} {a : α}

/-! ### Parts -/

/-- What goes well on the empty trail lays what it gives. -/
theorem Lays.of_goes [Outlined α] (h : ∀ c₀, Goes s w c₀ (fun _ => True) true [] [] m
    fun a c => c₀.Trail s w firm [] (shown a) c) : Lays s w firm m :=
  fun c hc => h c c (.nil hc) trivial

/-- An action that forms an outline from any token lays it. -/
theorem Forms.lays [Outlined α] (h : Forms s w (fun _ => True) m) : Lays s w true m :=
  fun c hc => .imp (h c hc trivial) fun _ _ hformed => hformed.trail

/-- A part is read after others. -/
theorem Goes.bind [Outlined α] [Stable s P] (hm : Lays s w firm' m)
    (hf : ∀ a, Goes s w c₀ P (firm && firm') stack (held ++ shown a) (f a) Q') :
    Goes s w c₀ P firm stack held (m >>= f) Q' := by
  refine fun c htrail hP => .bind htrail.strays (hm c htrail.tokens) fun a c' h => ?_
  exact hf a c' (htrail.append h) (Stable.reach htrail.tokens hP h.reaches)

/-- A node is read after other parts. -/
theorem Goes.node [Outlined α] [Stable s P] (hm : Forms s w (fun _ => True) m)
    (hf : ∀ a, Goes s w c₀ P true stack (held ++ shown a) (f a) Q') :
    Goes s w c₀ P firm stack held (m >>= f) Q' := by
  refine fun c htrail hP => .bind htrail.strays (hm c htrail.tokens trivial) fun a c' h => ?_
  exact hf a c' (htrail.node h) (Stable.reach htrail.tokens hP h.trail.reaches)

/-- A part is read that ends with the closer of the innermost bracket. -/
theorem Goes.group [Outlined α] {opener : Symbol} (hm : Goes s w c₀ P firm (opener :: stack) held m
      fun a c => c₀.Trail s w true stack (held ++ shown a) c ∧ P c)
    (hf : ∀ a, Goes s w c₀ P true stack (held ++ shown a) (f a) Q') :
    Goes s w c₀ P firm (opener :: stack) held (m >>= f) Q' :=
  fun c htrail hP => .follow (hm c htrail hP) fun a c' h => hf a c' h.1 h.2

/-- What is known of the end of an action may be weakened. -/
theorem Goes.imp (h : Goes s w c₀ P firm stack held m R) (hQ : ∀ a c, R a c → Q a c) :
    Goes s w c₀ P firm stack held m Q :=
  fun c htrail hP => .imp (h c htrail hP) hQ

/-- A part that stands for nothing in the end. -/
theorem Goes.drop (h : Goes s w c₀ P firm stack held m Q) : Goes s w c₀ P firm stack (o :: held) m Q :=
  fun c htrail hP => h c htrail.drop hP

/-- A part ends. -/
theorem Goes.give [Outlined α] (hshown : shown a = held) (hfirm : firm' = true → firm = true) :
    Goes s w c₀ P firm [] held (Pure.pure a) fun a c => c₀.Trail s w firm' [] (shown a) c := by
  subst hshown
  exact fun c htrail _ => .pure (htrail.weaken hfirm)

/-- One of two parts is read, and both are followed by the same. -/
theorem Goes.join [Outlined α] [Stable s P] {b : Prop} [Decidable b] {m' : Parse α}
    (hm : b → Lays s w firm' m) (hm' : ¬b → Lays s w firm' m')
    (hf : ∀ a, Goes s w c₀ P (firm && firm') stack (held ++ shown a) (f a) Q') :
    Goes s w c₀ P firm stack held (if b then m >>= f else m' >>= f) Q' := by
  split
  · exact .bind (hm ‹_›) hf
  · exact .bind (hm' ‹_›) hf

theorem Goes.ret (h : Goes s w c₀ P firm stack held (f a) Q') :
    Goes s w c₀ P firm stack held (Pure.pure a >>= f) Q' :=
  fun c htrail hP => .ret (h c htrail hP)

theorem Goes.last (h : Goes s w c₀ P firm stack held (m >>= Pure.pure) Q) :
    Goes s w c₀ P firm stack held m Q :=
  fun c htrail hP => .last (h c htrail hP)

/-- A look at the next token that decides nothing about the trail. -/
theorem Goes.check {f : Bool → Parse β} (hf : ∀ b, Goes s w c₀ P firm stack held (f b) Q') :
    Goes s w c₀ P firm stack held (check kind >>= f) Q' :=
  fun c htrail hP => .check (hf _ c htrail hP)

/-- Wherever the trail has come, the production may give up. -/
theorem Goes.fail : Goes s w c₀ P firm stack held (fail problem) Q := fun _ htrail _ => .fail htrail.strays

/-- Each of two ways to go on may use how the choice was made. -/
theorem Goes.ite {b : Prop} [Decidable b] {m' : Parse α} (h : b → Goes s w c₀ P firm stack held m Q)
    (h' : ¬b → Goes s w c₀ P firm stack held m' Q) :
    Goes s w c₀ P firm stack held (if b then m else m') Q :=
  fun c htrail hP => .ite (h · c htrail hP) (h' · c htrail hP)

/-! ### Marks and brackets -/

section

variable [Stable s P] {g : Token → Parse β} {yes no : Parse α}

/-- What reading on keeps, reading one token keeps. -/
theorem Stable.advance (hc : c.tokens = s.tokens) (hkind : c.kind ≠ .endOfInput) (hP : P c) : P c.advance :=
  Stable.reach hc hP (Cursor.advance_reads hc hkind).reaches

/-- A token that is read on the way. -/
theorem Does.next (htrail : c₀.Trail s w firm stack held c) (hP : P c) (h : c.kind = kind)
    (hkind : kind.isInert = true) (hg : Goes s w c₀ P kind.isFirm stack held (g c.current) Q') :
    Does s w c₀ c (Parse.advance >>= g) Q' := by
  subst h
  refine .advance (hg _ (htrail.inert hkind) ?_)
  exact Stable.advance htrail.tokens (TokenKind.ne_endOfInput_of_inert hkind) hP

/-- A mark is required that is no bracket: nothing of it is shown. -/
theorem Goes.mark (hkind : kind.isInert = true)
    (hg : ∀ t, Goes s w c₀ P kind.isFirm stack held (g t) Q') :
    Goes s w c₀ P firm stack held (Parse.expect kind problem >>= g) Q' := by
  refine fun c htrail hP => .expect htrail.strays fun h => ?_
  subst h
  exact hg _ _ (htrail.inert hkind)
    (Stable.advance htrail.tokens (TokenKind.ne_endOfInput_of_inert hkind) hP)

/-- A token is required that has a leaf to stand for it. -/
theorem Goes.leaf (o : Token → Outline) (hkind : kind.isInert = true) (ho : ∀ t, (o t).Leaf t.span)
    (hg : ∀ t, Goes s w c₀ P kind.isFirm stack (held ++ [o t]) (g t) Q') :
    Goes s w c₀ P firm stack held (Parse.expect kind problem >>= g) Q' := by
  refine fun c htrail hP => .expect htrail.strays fun h => ?_
  subst h
  exact hg _ _ (htrail.leaf hkind (ho _))
    (Stable.advance htrail.tokens (TokenKind.ne_endOfInput_of_inert hkind) hP)

/-- An opener is required: it goes on top of the stack of open brackets. -/
theorem Goes.opener {opener : Symbol} (hopener : opener.isOpener = true)
    (hg : ∀ t, Goes s w c₀ P true (opener :: stack) held (g t) Q') :
    Goes s w c₀ P firm stack held (Parse.expect (.symbol opener) problem >>= g) Q' := by
  refine fun c htrail hP => .expect htrail.strays fun h => ?_
  exact hg _ _ (htrail.opener h hopener) (Stable.advance htrail.tokens (by rw [h]; nofun) hP)

/-- The closer of the innermost bracket is required, and takes it from the stack. -/
theorem Goes.closer {opener closer : Symbol} (hpartner : opener.partner? = some closer)
    (hg : ∀ t, Goes s w c₀ P true stack held (g t) Q') :
    Goes s w c₀ P firm (opener :: stack) held (Parse.expect (.symbol closer) problem >>= g) Q' := by
  refine fun c htrail hP => .expect htrail.strays fun h => ?_
  exact hg _ _ (htrail.closer h hpartner) (Stable.advance htrail.tokens (by rw [h]; nofun) hP)

/-- What goes on after a mark that may be there. -/
theorem Goes.accept {f : Bool → Parse α} (hkind : kind.isInert = true)
    (hyes : Goes s w c₀ P kind.isFirm stack held (f true) Q)
    (hno : Goes s w c₀ P firm stack held (f false) Q) :
    Goes s w c₀ P firm stack held (Parse.accept kind >>= f) Q := by
  refine fun c htrail hP => .accept (fun h => ?_) fun _ => hno c htrail hP
  subst h
  exact hyes _ (htrail.inert hkind)
    (Stable.advance htrail.tokens (TokenKind.ne_endOfInput_of_inert hkind) hP)

/-- What goes on after an opener that may be there. -/
theorem Goes.acceptOpener {opener : Symbol} {f : Bool → Parse α} (hopener : opener.isOpener = true)
    (hyes : Goes s w c₀ P true (opener :: stack) held (f true) Q)
    (hno : Goes s w c₀ P firm stack held (f false) Q) :
    Goes s w c₀ P firm stack held (Parse.accept (.symbol opener) >>= f) Q := by
  refine fun c htrail hP => .accept (fun h => ?_) fun _ => hno c htrail hP
  exact hyes _ (htrail.opener h hopener) (Stable.advance htrail.tokens (by rw [h]; nofun) hP)

/-- What goes on after a closer that may be there. -/
theorem Goes.acceptCloser {opener closer : Symbol} {f : Bool → Parse α}
    (hpartner : opener.partner? = some closer) (hyes : Goes s w c₀ P true stack held (f true) Q)
    (hno : Goes s w c₀ P firm (opener :: stack) held (f false) Q) :
    Goes s w c₀ P firm (opener :: stack) held (Parse.accept (.symbol closer) >>= f) Q := by
  refine fun c htrail hP => .accept (fun h => ?_) fun _ => hno c htrail hP
  exact hyes _ (htrail.closer h hpartner) (Stable.advance htrail.tokens (by rw [h]; nofun) hP)

/-- One way to go on when a mark was there, another when it was not. -/
theorem Goes.ifAccept (hkind : kind.isInert = true) (hyes : Goes s w c₀ P kind.isFirm stack held yes Q)
    (hno : Goes s w c₀ P firm stack held no Q) :
    Goes s w c₀ P firm stack held (Parse.accept kind >>= fun b => if b then yes else no) Q :=
  .accept hkind hyes hno

omit [Stable s P] in
/-- A choice by the next token, when both ways go well in any case. -/
theorem Goes.ifCheck (hyes : Goes s w c₀ P firm stack held yes Q)
    (hno : Goes s w c₀ P firm stack held no Q) :
    Goes s w c₀ P firm stack held (Parse.check kind >>= fun b => if b then yes else no) Q :=
  fun c htrail hP => .ifCheck (fun _ => hyes c htrail hP) fun _ => hno c htrail hP

end

/-- Newlines between other tokens stand for nothing. -/
theorem skipNewlines_lays : Lays s w false skipNewlines := fun _ hc =>
  .last (.move (.pure ((Cursor.Trail.nil hc).skip fun kind hkind => by rw [eq_of_beq hkind]; rfl)))

/-- No separator is a bracket. -/
theorem inert_of_separator (h : kind.isSeparator = true) : kind.isInert = true := by
  cases kind with
  | newline => rfl
  | symbol sym => cases sym <;> first | rfl | contradiction
  | _ => contradiction

/-- Neither do the separators between statements. -/
theorem skipSeparators_lays : Lays s w false skipSeparators := fun _ hc =>
  .last (.move (.pure ((Cursor.Trail.nil hc).skip fun _ => inert_of_separator)))

/-! ### Productions -/

section

variable {g : Token → Parse β} {opener : Symbol}

/-- The first token opens what it begins. -/
theorem Does.opens (hc : c.tokens = s.tokens) (hkind : c.kind.isSturdy = true)
    (hg : Goes s w c (c.Opens c.current.span) true [] [] (g c.current) Q') :
    Does s w c c (Parse.advance >>= g) Q' := by
  have hinert := TokenKind.inert_of_sturdy hkind
  have htrail := (Cursor.Trail.nil (w := w) hc).inert hinert
  rw [TokenKind.firm_of_sturdy hkind] at htrail
  exact .advance (hg _ htrail (Cursor.advance_spans hc (TokenKind.begins_of_inert hinert)).toOpens)

/-- The first token opens what it begins, and has a leaf to stand for it. -/
theorem Does.opensLeaf (hc : c.tokens = s.tokens) (hkind : c.kind.isSturdy = true)
    (ho : o.Leaf c.current.span) (hg : Goes s w c (c.Opens c.current.span) true [] [o] (g c.current) Q') :
    Does s w c c (Parse.advance >>= g) Q' := by
  have hinert := TokenKind.inert_of_sturdy hkind
  have htrail := (Cursor.Trail.nil (w := w) hc).leaf hinert ho
  rw [TokenKind.firm_of_sturdy hkind] at htrail
  exact .advance (hg _ htrail (Cursor.advance_spans hc (TokenKind.begins_of_inert hinert)).toOpens)

/-- The first token opens what it begins, and calls for more. -/
theorem Does.opensLoosely (hc : c.tokens = s.tokens) (hkind : c.kind.isInert = true)
    (hg : Goes s w c (c.Opens c.current.span) false [] [] (g c.current) Q') :
    Does s w c c (Parse.advance >>= g) Q' := by
  have htrail := (Cursor.Trail.nil (w := w) hc).inert hkind
  exact .advance (hg _ (htrail.weaken nofun)
    (Cursor.advance_spans hc (TokenKind.begins_of_inert hkind)).toOpens)

/-- An opener is one of the tokens that can begin a node. -/
theorem begins_of_opener (hopener : opener.isOpener = true) : (TokenKind.symbol opener).Begins := by
  unfold TokenKind.Begins
  split
  · contradiction
  · contradiction
  · next heq =>
      obtain rfl := TokenKind.symbol.inj heq
      contradiction
  · trivial

/-- A bracket opens what it begins. -/
theorem Does.opensGroup (hc : c.tokens = s.tokens) (h : c.kind = .symbol opener)
    (hopener : opener.isOpener = true)
    (hg : Goes s w c (c.Opens c.current.span) true [opener] [] (g c.current) Q') :
    Does s w c c (Parse.advance >>= g) Q' :=
  .advance (hg _ ((Cursor.Trail.nil hc).opener h hopener)
    (Cursor.advance_spans hc (h ▸ begins_of_opener hopener)).toOpens)

/-- A bracket that must come next opens what it begins. -/
theorem Does.opensWith (hc : c.tokens = s.tokens) (hopener : opener.isOpener = true)
    (hg : Goes s w c (c.Opens c.current.span) true [opener] [] (g c.current) Q') :
    Does s w c c (Parse.expect (.symbol opener) problem >>= g) Q' :=
  .expect (.refl c) fun h => hg _ ((Cursor.Trail.nil hc).opener h hopener)
    (Cursor.advance_spans hc (h ▸ begins_of_opener hopener)).toOpens

/-- A token that is all there is to read. -/
theorem Does.alone [Outlined α] (hc : c.tokens = s.tokens) (hkind : c.kind.isSturdy = true) (ho : o.Leaf c.current.span)
    (hshown : shown a = [o]) : Does s w c c (Parse.advance >>= fun _ => Pure.pure a)
      fun a c' => c.Formed s w (shown a) c' := by
  refine .advance (.pure ?_)
  rw [hshown]
  exact Cursor.formed_leaf hc hkind ho

/-- What was opened is finished where the reader is. -/
theorem Goes.finish [Outlined α] {nodeKind : NodeKind} {attributes : Span → List (String × Attribute)}
    {children : Span → List Outline} {make : Span → α}
    (hshown : ∀ span, shown (make span) = [.mk nodeKind span (attributes span) (children span)])
    (hkind : nodeKind ≠ .block ∧ nodeKind ≠ .closure) (hfirm : firm = true)
    (hheld : ∀ span, children span = held) :
    Goes s w c₀ (c₀.Opens start) firm [] held (Parse.spanFrom start >>= fun span => Pure.pure (make span))
      fun a c => c₀.Formed s w (shown a) c := by
  subst hfirm
  exact fun c htrail hopens => .spanFrom
    (.pure (htrail.formedAs (hopens.spans htrail.tokens) (hshown _) hkind (hheld _)))

/-- What was opened goes on with a node that covers all of the rest. -/
theorem Goes.cover {m : Parse Node} {f : Node → Parse β} (hm : Forms s w (fun _ => True) m)
    (hf : ∀ n, Goes s w c₀ (c₀.Spans (start.cover n.span)) true stack (held ++ shown n) (f n) Q') :
    Goes s w c₀ (c₀.Opens start) firm stack held (m >>= f) Q' := by
  refine fun c htrail hopens => .bind htrail.strays (hm c htrail.tokens trivial) fun n c' h => ?_
  exact hf n c' (htrail.node h) (hopens.cover htrail.tokens h.spans_node)

/-- What spans all that was read is formed. -/
theorem Goes.whole [Outlined α] {span : Span} {nodeKind : NodeKind} {attributes : List (String × Attribute)}
    {children : List Outline} (hshown : shown a = [.mk nodeKind span attributes children])
    (hkind : nodeKind ≠ .block ∧ nodeKind ≠ .closure) (hheld : children = held) :
    Goes s w c₀ (c₀.Spans span) true [] held (Pure.pure a) fun a c => c₀.Formed s w (shown a) c :=
  fun _ htrail hspans => .pure (htrail.formedAs hspans hshown hkind hheld)

end

/-! ## Modes and attempts -/

section

/-- A change of mode that turns no recovery on keeps what an action does. -/
theorem Does.within {change : Mode → Mode} (hchange : ∀ mode, (change mode).recovering = true →
    mode.recovering = true) (h : Does s w c₀ c m Q) : Does s w c₀ c (within change m) Q :=
  fun ctx st hallows hst => h { ctx with mode := change ctx.mode } st
    (fun hrecovering => hallows (hchange _ hrecovering)) hst

theorem Goes.within {change : Mode → Mode} (hchange : ∀ mode, (change mode).recovering = true →
    mode.recovering = true) (h : Goes s w c₀ P firm stack held m Q) :
    Goes s w c₀ P firm stack held (Parse.within change m) Q :=
  fun c htrail hP => .within hchange (h c htrail hP)

/-- A reading that may be taken back. When it gives up, nothing was read. -/
theorem Does.tentatively (h : Does s w c c m Q) : Does s w c c (Grammar.tentatively m) fun a? c' =>
    match a? with
      | some a => Q a c'
      | none => c' = c := by
  intro ctx st hallows hst
  have hrun := h { ctx with mode := ctx.mode.tentative } st nofun hst
  have hlands : Lands w c Q (Parse.within Mode.tentative m ctx st) := hrun
  rw [Grammar.tentatively]
  generalize Parse.within Mode.tentative m ctx st = x at hlands
  cases x with
  | ok => exact hlands
  | error => exact hst

end

/-- As `Does.within`, for an action that lays what it gives. -/
theorem Lays.within [Outlined α] {change : Mode → Mode} (hchange : ∀ mode, (change mode).recovering = true →
    mode.recovering = true) (h : Lays s w firm m) : Lays s w firm (Parse.within change m) :=
  fun c hc => .within hchange (h c hc)

/-- As `Does.within`, for an action that forms one outline. -/
theorem Forms.within [Outlined α] {change : Mode → Mode} {K : TokenKind → Prop} (hchange : ∀ mode,
    (change mode).recovering = true → mode.recovering = true) (h : Forms s w K m) :
    Forms s w K (Parse.within change m) :=
  fun c hc hK => .within hchange (h c hc hK)

/-! ## Loops -/

section

variable {turn : α → Parse (Turn α β)} {I : α → Cursor → Prop}

/-- A loop keeps what each of its turns keeps. -/
theorem Does.iterate (hstrays : ∀ a c, I a c → c₀.Strays w c)
    (hturn : ∀ a c, I a c → Does s w c₀ c (turn a) (Turn.Post I Q')) (n : Nat) (a : α) (hI : I a c) :
    Does s w c₀ c (Parse.iterate turn n a) Q' := by
  induction n generalizing a c with
  | zero => exact .fail (hstrays a c hI)
  | succ n ih =>
      refine .follow (hturn a c hI) fun t c' hpost => ?_
      match t with
      | .again a' => exact ih a' hpost
      | .done b => exact .pure hpost

/-- The invariant of a loop: each turn keeps it or ends as the loop is to end, and wherever it holds the reader has
    come in order. -/
theorem Does.loop (r : Rules) (hstrays : ∀ a c, I a c → c₀.Strays w c)
    (hturn : ∀ a c, I a c → Does s w c₀ c (turn a) (Turn.Post I Q')) (hI : I a c) :
    Does s w c₀ c (r.loop a turn) Q' :=
  .iterate hstrays hturn _ a hI

end

/-- Items that are collected one by one. -/
theorem Does.collect (r : Rules) {item : Parse (Option α)} {I Q : List α → Cursor → Prop}
    (hstrays : ∀ as c, I as c → c₀.Strays w c)
    (hitem : ∀ as c, I as c → Does s w c₀ c item fun a? c' => match a? with
      | some a => I (as ++ [a]) c'
      | none => Q as c') (hI : I [] c) : Does s w c₀ c (r.collect item) Q := by
  refine .loop r (I := fun (as : Array α) c => I as.toList c) (fun _ _ => hstrays _ _) (fun as c h => ?_) hI
  refine .follow (hitem as.toList c h) fun a? c' hpost => ?_
  match a? with
  | some a => exact .pure (by simpa [Turn.Post] using hpost)
  | none => exact .pure hpost

/-- A loop lays what its turns add. -/
theorem Lays.loop [Outlined α] [Outlined β] (r : Rules) (firm : Bool) {turn : α → Parse (Turn α β)}
    (hstart : shown a = [])
    (hturn : ∀ c₀ a, Goes s w c₀ (fun _ => True) firm [] (shown a) (turn a)
      fun t c => c₀.Trail s w firm [] (shown t) c) : Lays s w firm (r.loop a turn) := by
  intro c₀ hc₀
  refine .loop r (I := fun a c => c₀.Trail s w firm [] (shown a) c) (fun _ _ h => h.strays) ?_ ?_
  · intro a c htrail
    refine .imp (hturn c₀ a c htrail trivial) fun t c' h => ?_
    cases t <;> exact h
  · rw [hstart]
    exact (Cursor.Trail.nil hc₀).weaken fun _ => rfl

/-- A list of items is laid item by item, until one of them gives nothing. -/
theorem Lays.collect [Outlined α] (r : Rules) (firm : Bool) {item : Parse (Option α)}
    (hitem : Lays s w firm item) :
    Lays s w firm (r.collect item) := by
  refine .loop r _ shown_emptyArray fun c₀ items => .bind hitem fun a? => ?_
  match a? with
  | some a => exact .give (by simp) (by simp)
  | none => exact .give (by simp) (by simp)

/-- As `Lays.collect`, with commas and newlines between the items. -/
theorem Lays.commaList [Outlined α] (r : Rules) (closer : TokenKind) {item : Parse α}
    (hitem : Lays s w true item) :
    Lays s w true (r.commaList closer item) := by
  refine .loop r _ shown_emptyArray fun c₀ items => .ifCheck (.give (by simp) id) ?_
  refine .bind hitem fun a => .ifAccept rfl ?_ ?_
  · exact .give (by simp) fun _ => rfl
  · exact .give (by simp) id

end Parse

end ShellFront
