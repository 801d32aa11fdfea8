import ShellFront.Proofs.Twins.Mirrors

/-!
# How the readings of loops tally

A loop takes its turns until one of them ends it, and every turn that does not has read something. The turns of two
readings tally one by one, so the loops do.

## Contents
- `Turn.Steps` and `Keeps.loop`.
- `Takes` and `Keeps.collect`: items that are collected.
-/

namespace ShellFront

open Outlined

namespace Parse

variable {α β : Type} {b : Seam} {r r' : Rules} {c c₁ : Cursor} {kind : TokenKind} {problem : Problem}

section

variable {γ : Type} [Viewable α] [Viewable β] {n : Nat} {read : Bool} {A : Prop} {L : β → Prop}

/-- What a turn may give past a cut: that it goes on if `A` holds, and results in `L`. -/
def Turn.Loose (A : Prop) (L : β → Prop) : Turn α β → Prop
  | .again _ => A
  | .done c => L c

/-- A turn that is not the last one has read something since `n` tokens were left. -/
def Turn.Steps (n : Nat) : Turn α β → Cursor → Prop
  | .again _, c => c.ahead.length < n
  | .done _, _ => True

theorem Continues.again {a a' : α} (ha : b.Like a a') :
    Continues b r n true (Pure.pure (.again a)) (Pure.pure (.again a')) (Turn.Loose A L)
      (Turn.Steps (α := α) (β := β) n) :=
  fun _ hc => .pure hc.meets (congrArg Turn.again ha) (hc.lt rfl)

theorem Continues.done {a a' : β} (ha : b.Like a a') :
    Continues b r n read (Pure.pure (.done a)) (Pure.pure (.done a')) (Turn.Loose A L)
      (Turn.Steps (α := α) (β := β) n) :=
  fun _ hc => .pure hc.meets (congrArg Turn.done ha) trivial

/-- Turns that are alike both go on or both are done. -/
theorem Turn.cases_like {t t' : Turn α β} (h : b.Like t t') :
    (∃ a a', t = .again a ∧ t' = .again a' ∧ b.Like a a') ∨
      ∃ c c', t = .done c ∧ t' = .done c' ∧ b.Like c c' := by
  cases t <;> cases t'
  · exact .inl ⟨_, _, rfl, rfl, Turn.again.inj h⟩
  · exact nomatch h
  · exact nomatch h
  · exact .inr ⟨_, _, rfl, rfl, Turn.done.inj h⟩

variable {turn turn' : α → Parse (Turn α β)}

omit [Viewable α] [Viewable β] in
theorem Fades.iterate (hfade : ∀ a, Fades b (Turn.Loose True L) (turn a)) (n : Nat) (a : α) :
    Fades b L (iterate turn n a) := by
  induction n generalizing a with
  | zero => exact .fail
  | succ n ih =>
      refine .bind (hfade a) fun t ht => ?_
      match t, ht with
      | .again a', _ => exact ih a'
      | .done c, hc => exact .pure hc

/-- **Turns that tally make loops that do.** There are as many turns as tokens, at most. -/
theorem Tallies.iterate (hturn : ∀ n a a', b.Like a a' → Continues b r n false (turn a) (turn' a')
      (Turn.Loose A L) (Turn.Steps n))
    (hfade : A → ∀ a, Fades b (Turn.Loose True L) (turn a)) (n n' : Nat) (a a' : α) (ha : b.Like a a')
    (hc : b.Past r c.ahead.length false c) (hn : c.ahead.length < n) (hn' : c.ahead.length < n') :
    Tallies b c (iterate turn n a) (iterate turn' n' a') L fun _ _ => True := by
  induction n generalizing n' a a' c with
  | zero => contradiction
  | succ n ih =>
      cases n' with
      | zero => contradiction
      | succ n' =>
          refine .loosely (hturn _ a a' ha c hc) (fun t ht => ?_) fun t t' c₁ hlike hmeets hle hsteps => ?_
          · match t, ht with
            | .again a', hA => exact .iterate (hfade hA) n a'
            | .done c, hc => exact .pure hc
          · obtain ⟨a, a', rfl, rfl, ha⟩ | ⟨d, d', rfl, rfl, hd⟩ := Turn.cases_like hlike
            · have hlt : c₁.ahead.length < c.ahead.length := hsteps
              exact ih n' a a' ha (hc.further hmeets hle).here (by omega) (by omega)
            · exact .pure hmeets hd trivial

theorem Keeps.loop (hle : r.fuel ≤ r'.fuel) {a a' : α} (ha : b.Like a a')
    (hfade : A → ∀ a, Fades b (Turn.Loose True L) (turn a))
    (hturn : ∀ n a a', b.Like a a' → Continues b r n false (turn a) (turn' a') (Turn.Loose A L)
      (Turn.Steps n)) : Keeps b r (r.loop a turn) (r'.loop a' turn') L := by
  intro n c hc
  have hfuel := hc.fuel
  exact .iterate hturn hfade _ _ a a' ha hc.here (by omega) (by omega)

end

/-! ### Items -/

section

variable [Viewable α] {n : Nat} {A E : Prop}

/-- What an item may be past a cut: something if `A` holds, and nothing if `E` does. -/
def Loose (A E : Prop) : Option α → Prop
  | some _ => A
  | none => E

/-- When there is an item, something was read since `n` tokens were left. -/
def Takes (n : Nat) : Option α → Cursor → Prop
  | some _, c => c.ahead.length < n
  | none, _ => True

theorem Continues.item {a a' : α} (ha : b.Like a a') :
    Continues b r n true (Pure.pure (some a)) (Pure.pure (some a')) (Loose A E) (Takes n) :=
  fun _ hc => .pure hc.meets (congrArg some ha) (hc.lt rfl)

theorem Continues.noItem {read : Bool} :
    Continues b r n read (Pure.pure (none : Option α)) (Pure.pure none) (Loose A E) (Takes n) :=
  fun _ hc => .pure hc.meets rfl trivial

/-- What may be missing is alike. -/
theorem option_cases_like {a? a?' : Option α} (h : b.Like a? a?') :
    (∃ a a', a? = some a ∧ a?' = some a' ∧ b.Like a a') ∨ (a? = none ∧ a?' = none) := by
  cases a? <;> cases a?'
  · exact .inr ⟨rfl, rfl⟩
  · exact nomatch h
  · exact nomatch h
  · exact .inl ⟨_, _, rfl, rfl, Option.some.inj h⟩

theorem like_some {a a' : α} (h : b.Like a a') : b.Like (some a) (some a') := congrArg some h

theorem like_empty : b.Like (#[] : Array α) #[] := by
  simp only [Seam.Like, Viewable.view, Array.map_empty]

theorem like_push {as as' : Array α} {a a' : α} (h : b.Like as as') (ha : b.Like a a') :
    b.Like (as.push a) (as'.push a') := by
  simp only [Seam.Like, Viewable.view, Array.map_push] at h ha ⊢
  rw [h, ha]

theorem like_toList {as as' : Array α} (h : b.Like as as') : b.Like as.toList as'.toList := by
  have h := congrArg Array.toList h
  simpa only [Seam.Like, Viewable.view, Array.toList_map] using h

omit [Viewable α] in
theorem collectTurn_fades {item : Parse (Option α)} (h : Fades b (Loose A E) item) (as : Array α) :
    Fades b (Turn.Loose A fun _ => E) (collectTurn item as) := by
  refine .bind h fun a? ha => ?_
  match a?, ha with
  | some a, hA => exact .pure hA
  | none, hE => exact .pure hE

omit [Viewable α] in
theorem Fades.collect {item : Parse (Option α)} (h : Fades b (Loose True E) item) :
    Fades b (fun _ => E) (r.collect item) :=
  .iterate (collectTurn_fades h) _ _

/-- Turns tally if the items do. -/
theorem collectTurn_tallies {R : Option α → Cursor → Prop} {item item' : Parse (Option α)} {as as' : Array α}
    (hitem : Tallies b c item item' (Loose A E) R) (has : b.Like as as') :
    Tallies b c (collectTurn item as) (collectTurn item' as') (Turn.Loose A fun _ => E)
      (Turn.Holds (fun _ c' => ∃ a, R (some a) c') fun _ c' => R none c') := by
  refine .loosely hitem (fun a? h => ?_) fun a? a?' c₁ hlike hmeets _ hR => ?_
  · match a?, h with
    | some a, hA => exact .pure hA
    | none, hE => exact .pure hE
  · obtain ⟨a, a', rfl, rfl, ha⟩ | ⟨rfl, rfl⟩ := option_cases_like hlike
    · exact .pure hmeets (congrArg Turn.again (like_push has ha)) ⟨a, hR⟩
    · exact .pure hmeets (congrArg Turn.done (like_toList has)) hR

theorem collectTurn_continues {n : Nat} {item item' : Parse (Option α)} {as as' : Array α}
    (hitem : Continues b r n false item item' (Loose A E) (Takes n)) (has : b.Like as as') :
    Continues b r n false (collectTurn item as) (collectTurn item' as') (Turn.Loose A fun _ => E)
      (Turn.Steps n) := by
  refine fun c hc => .imp (collectTurn_tallies (hitem c hc) has) fun t c' h => ?_
  match t, h with
  | .again _, ⟨_, hlt⟩ => exact hlt
  | .done _, _ => trivial

omit [Viewable α] in
/-- If there is no item at all, nothing was read. -/
theorem Yields.collect_nil {item : Parse (Option α)}
    (hitem : ∀ c, Yields c (fun a? c' => a? = none → c' = c) item) :
    Yields c (fun as c' => as = [] → c' = c) (r.collect item) := by
  refine .loop (I := fun as c₁ => as = #[] → c₁ = c) (fun as c₁ h => ?_) fun _ => rfl
  refine .bind (hitem c₁) fun a? c₂ ha => ?_
  cases a? with
  | some a => exact .pure fun hnil => absurd hnil (by simp)
  | none =>
      rw [ha rfl]
      exact .pure fun hnil => h (by simpa using hnil)

/-- Items are collected one by one. -/
theorem Keeps.collect (hle : r.fuel ≤ r'.fuel) {item item' : Parse (Option α)}
    (hfade : A → Fades b (Loose True E) item)
    (hitem : ∀ n, Continues b r n false item item' (Loose A E) (Takes n)) :
    Keeps b r (r.collect item) (r'.collect item') fun _ => E :=
  .loop hle like_empty (fun hA => collectTurn_fades (hfade hA)) fun n _ _ => collectTurn_continues (hitem n)

/-- Items are collected where a production begins, and the first one is there. -/
theorem Tallies.collect (hle : r.fuel ≤ r'.fuel) (hc : b.Fresh r c) {item item' : Parse (Option α)}
    (hfade : A → Fades b (Loose True E) item)
    (hfirst : Tallies b c item item' (Loose A E) fun a? c' => a?.isSome = true ∧ c'.ahead.length < c.ahead.length)
    (hitem : ∀ n, Continues b r n false item item' (Loose A E) (Takes n)) :
    Tallies b c (r.collect item) (r'.collect item') (fun _ => E) fun _ _ => True := by
  have hfuel := hc.fuel
  refine .loosely (collectTurn_tallies hfirst like_empty) (fun t ht => ?_) fun t t' c₁ hlike hmeets _ h => ?_
  · match t, ht with
    | .again as, hA => exact .iterate (collectTurn_fades (hfade hA)) _ as
    | .done _, hE => exact .pure hE
  · obtain ⟨as, as', rfl, rfl, has⟩ | ⟨as, as', rfl, rfl, has⟩ := Turn.cases_like hlike
    · obtain ⟨-, -, hlt⟩ := h
      exact .iterate (fun n _ _ => collectTurn_continues (hitem n)) (fun hA => collectTurn_fades (hfade hA))
        _ _ as as' has (hc.past hmeets hlt).here (by omega) (by omega)
    · exact nomatch h.1

/-- Items between commas. -/
theorem Keeps.commaList (hle : r.fuel ≤ r'.fuel) {item item' : Parse α} {closer : TokenKind}
    (hcloser : closer.isMark = true) (hitem : Mirrors b (r.fuel - 1) (fun _ => True) item item') :
    Keeps b r (r.commaList closer item) (r'.commaList closer item') fun _ => False := by
  refine .loop (A := False) hle like_empty (fun h => h.elim) fun n as as' has => ?_
  refine .ifCheck hcloser (.done (like_toList has)) (.node hitem fun a a' ha => .ifAccept rfl ?_ ?_)
  · exact .again (like_push has ha)
  · exact .done (like_toList (like_push has ha))

end

end Parse

end ShellFront
