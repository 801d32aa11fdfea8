import ShellFront.Proofs.Token.Trivia

/-!
# How far a recogniser looks

Number signs, line feeds and blanks belong to no class of characters that tokens are made of, and no symbol holds one
of them. So a recogniser never looks beyond the first of them: what it finds is told by the **stem** of the text, the
part before that place. Two texts that go on differently after the same stem are therefore alike to it. Strings are
the exception, since a string may go over many lines and hold anything.

## Contents
- `stops`, `stem`, `Stemmed` and looks along a stem.
- For each recogniser but strings: it finds in a text what it finds in its stem, and that lies in the text.
- `Piece.OnStem` and `Piece.unquoted?_onStem`: all pieces that are no strings.
-/

namespace ShellFront

/-! ## Stems -/

/-- The characters that no token but a string holds: a comment begins with them, a line ends with them, or they stand
    between words. -/
def stops : List Char := ['#', '\n', ' ', '\t', '\r']

/-- What stands before the first number sign, line feed or blank of a text. -/
def stem (cs : List Char) : List Char := cs.takeWhile fun c => !stops.contains c

/-- A claim about the characters of a list is settled one by one, even where all characters could be gone through. -/
instance (priority := high) decidableForallChar (p : Char → Prop) [DecidablePred p] (cs : List Char) :
    Decidable (∀ c ∈ cs, p c) := List.decidableBAll p cs

/-- A class of characters that stand in stems only. -/
def Stemmed (p : Char → Bool) : Prop := ∀ c ∈ stops, p c = false

instance (p : Char → Bool) : Decidable (Stemmed p) := inferInstanceAs (Decidable (∀ c ∈ stops, p c = false))

variable {p q : Char → Bool} {c : Char} {cs : List Char} {n : Nat}

/-- A character that is no stop goes on with the stem. -/
theorem stem_cons (hc : c ∉ stops) (cs : List Char) : stem (c :: cs) = c :: stem cs := by
  have hc' : (!stops.contains c) = true := by simpa using hc
  rw [stem, List.takeWhile_cons, if_pos hc', stem]

/-- A stop ends the stem. -/
theorem stem_ends (hc : c ∈ stops) (cs : List Char) : stem (c :: cs) = [] := by
  have hc' : ¬ (!stops.contains c) = true := by simpa using hc
  rw [stem, List.takeWhile_cons, if_neg hc']

theorem stem_isPrefix (cs : List Char) : stem cs <+: cs := List.takeWhile_prefix _

/-- What a run of a class without stops reads, it reads of the stem. -/
theorem takeWhile_stem (hp : Stemmed p) (cs : List Char) : (stem cs).takeWhile p = cs.takeWhile p := by
  induction cs with
  | nil => rfl
  | cons c cs ih =>
      by_cases hc : c ∈ stops
      · rw [stem_ends hc, List.takeWhile_cons, hp c hc]
        rfl
      · rw [stem_cons hc, List.takeWhile_cons, List.takeWhile_cons, ih]

theorem runLength_le (p : Char → Bool) (cs : List Char) : runLength p cs ≤ cs.length :=
  (List.takeWhile_prefix p).length_le

theorem length_pos_of_startsWith (h : startsWith p cs = true) : 0 < cs.length := by
  cases cs with
  | nil => exact absurd h Bool.false_ne_true
  | cons => exact Nat.succ_pos _

/-- The length of such a run is decided by the stem. -/
theorem runLength_stem (hp : Stemmed p) (cs : List Char) : runLength p (stem cs) = runLength p cs := by
  rw [runLength, takeWhile_stem hp, runLength]

/-- A run lies in the stem. -/
theorem runLength_le_stem (hp : Stemmed p) (cs : List Char) : runLength p cs ≤ (stem cs).length :=
  runLength_stem hp cs ▸ runLength_le p (stem cs)

theorem startsWith_stem (hp : Stemmed p) (cs : List Char) : startsWith p (stem cs) = startsWith p cs := by
  cases cs with
  | nil => rfl
  | cons c cs =>
      by_cases hc : c ∈ stops
      · rw [stem_ends hc]
        exact (hp c hc).symm
      · rw [stem_cons hc]
        rfl

/-- What a text is seen to begin with is in the stem. -/
theorem stem_length_pos (hp : Stemmed p) (h : startsWith p cs = true) : 0 < (stem cs).length :=
  length_pos_of_startsWith ((startsWith_stem hp cs).trans h)

theorem startsWith_both_stem (hp : Stemmed p) (hq : Stemmed q) (cs : List Char) :
    (startsWith p (stem cs) && startsWith q ((stem cs).drop 1)) = (startsWith p cs && startsWith q (cs.drop 1)) := by
  cases cs with
  | nil => rfl
  | cons c cs =>
      by_cases hc : c ∈ stops
      · rw [stem_ends hc, show startsWith p (c :: cs) = false from hp c hc]
        rfl
      · rw [stem_cons hc, List.drop_succ_cons, List.drop_succ_cons, List.drop_zero, List.drop_zero, startsWith_stem hq]
        rfl

/-- Inside the stem, cutting off characters and taking the stem can change places. -/
theorem drop_stem (h : n ≤ (stem cs).length) : (stem cs).drop n = stem (cs.drop n) := by
  induction n generalizing cs with
  | zero => rfl
  | succ n ih =>
      cases cs with
      | nil => rfl
      | cons c cs =>
          by_cases hc : c ∈ stops
          · rw [stem_ends hc] at h
            exact absurd h (Nat.not_succ_le_zero n)
          · rw [stem_cons hc] at h ⊢
            exact ih (Nat.le_of_succ_le_succ h)

/-- So much of the text as lies inside the stem is read from the stem. -/
theorem take_stem (h : n ≤ (stem cs).length) : (stem cs).take n = cs.take n := by
  obtain ⟨rest, hrest⟩ := stem_isPrefix cs
  rw [← List.take_append_of_le_length h, hrest]

/-- A text that holds none of the stops is looked for in the stem only. -/
theorem isPrefixOf_stem {needle : List Char} (h : ∀ d ∈ needle, d ∉ stops) (cs : List Char) :
    needle.isPrefixOf (stem cs) = needle.isPrefixOf cs := by
  induction needle generalizing cs with
  | nil => rw [List.isPrefixOf_nil_left, List.isPrefixOf_nil_left]
  | cons d needle ih =>
      obtain ⟨hd, hneedle⟩ := List.forall_mem_cons.mp h
      cases cs with
      | nil => rfl
      | cons c cs =>
          by_cases hc : c ∈ stops
          · have hne : (d == c) = false := beq_eq_false_iff_ne.mpr fun hdc => hd (hdc ▸ hc)
            rw [stem_ends hc, List.isPrefixOf, List.isPrefixOf, hne, Bool.false_and]
            exact List.cons_ne_nil d needle
          · rw [stem_cons hc, List.isPrefixOf, List.isPrefixOf, ih hneedle]

/-- Texts that go on after the same characters have the same stem if what they go on with has the same one. -/
theorem stem_append {rest more : List Char} (h : stem rest = stem more) (front : List Char) :
    stem (front ++ rest) = stem (front ++ more) := by
  induction front with
  | nil => exact h
  | cons c front ih =>
      rw [List.cons_append, List.cons_append]
      by_cases hc : c ∈ stops
      · rw [stem_ends hc, stem_ends hc]
      · rw [stem_cons hc, stem_cons hc, ih]

namespace Piece

variable {piece : Piece}

/-! ## Numbers -/

theorem marked?_of_ne {c : Char} (hc : c ≠ '0') (cs : List Char) : marked? c cs = none := by
  unfold marked?
  split
  · contradiction
  · rfl

/-- No mark of a radix is a stop, and no digit of any radix is one. -/
theorem radixMark?_stemmed {m : Char} {radix : Radix} {allowed : Char → Bool}
    (h : radixMark? m = some (radix, allowed)) : m ∉ stops ∧ Stemmed allowed := by
  unfold radixMark? at h
  split at h
  · obtain ⟨-, rfl⟩ := Prod.mk.inj (Option.some.inj h)
    decide
  · obtain ⟨-, rfl⟩ := Prod.mk.inj (Option.some.inj h)
    decide
  · obtain ⟨-, rfl⟩ := Prod.mk.inj (Option.some.inj h)
    decide
  · contradiction

/-- An integer with a radix before it is decided by the stem. -/
theorem marked?_stem (c : Char) (cs : List Char) : marked? c (stem cs) = marked? c cs := by
  by_cases hc : c = '0'
  · subst hc
    cases cs with
    | nil => rfl
    | cons m ds =>
        cases hmark : radixMark? m with
        | none =>
            have hnone (ds : List Char) : marked? '0' (m :: ds) = none := by rw [marked?, hmark]
            by_cases hm : m ∈ stops
            · rw [stem_ends hm, hnone]
              rfl
            · rw [stem_cons hm, hnone, hnone]
        | some mark =>
            obtain ⟨radix, allowed⟩ := mark
            obtain ⟨hm, hallowed⟩ := radixMark?_stemmed hmark
            rw [stem_cons hm, marked?, marked?, hmark]
            dsimp only
            rw [startsWith_stem hallowed, runLength_stem hallowed]
  · rw [marked?_of_ne hc, marked?_of_ne hc]

theorem marked?_length_le (h : marked? c cs = some piece) : piece.length ≤ 1 + cs.length := by
  unfold marked? at h
  split at h
  · next m ds =>
      split at h
      · next radix allowed hmark =>
          split at h
          · obtain rfl := Option.some.inj h
            have hrun := runLength_le allowed ds
            rw [List.length_cons]
            dsimp only
            omega
          · contradiction
      · contradiction
  · contradiction

/-- Without a dot there is no fraction. -/
theorem fractionLength_cons {c : Char} (hc : c ≠ '.') (cs : List Char) : fractionLength (c :: cs) = 0 := by
  rw [fractionLength]
  exact fun _ h => hc (List.cons.inj h).1

theorem fractionLength_le (cs : List Char) : fractionLength cs ≤ cs.length := by
  unfold fractionLength
  split
  · next ds =>
      have hle := runLength_le isDigit ds
      rw [List.length_cons]
      split <;> omega
  · exact Nat.zero_le _

/-- The fraction of a number is decided by the stem. -/
theorem fractionLength_stem (cs : List Char) : fractionLength (stem cs) = fractionLength cs := by
  cases cs with
  | nil => rfl
  | cons c cs =>
      by_cases hdot : c = '.'
      · subst hdot
        rw [stem_cons (by decide), fractionLength, fractionLength, startsWith_stem (by decide),
          runLength_stem (by decide)]
      · rw [fractionLength_cons hdot]
        by_cases hc : c ∈ stops
        · rw [stem_ends hc, fractionLength]
          exact fun _ h => List.cons_ne_nil _ _ h.symm
        · rw [stem_cons hc, fractionLength_cons hdot]

/-- The fraction of a number lies inside the stem, so the exponent is looked for in the stem as well. -/
theorem fractionLength_le_stem (cs : List Char) : fractionLength cs ≤ (stem cs).length :=
  fractionLength_stem cs ▸ fractionLength_le (stem cs)

/-- The sign of an exponent lies in the text. -/
theorem sign_le (ds : List Char) :
    (if startsWith (fun c => c == '+' || c == '-') ds then 1 else 0) ≤ ds.length := by
  split
  · next h => exact length_pos_of_startsWith h
  · exact Nat.zero_le _

theorem exponentLength_le (cs : List Char) : exponentLength cs ≤ cs.length := by
  unfold exponentLength
  split
  · next m ds =>
      have hsign := sign_le ds
      dsimp only
      generalize (if startsWith (fun c => c == '+' || c == '-') ds then 1 else 0) = sign at hsign ⊢
      have hle := runLength_le isDigit (ds.drop sign)
      rw [List.length_drop] at hle
      rw [List.length_cons]
      split
      · split <;> omega
      · exact Nat.zero_le _
  · exact Nat.zero_le _

/-- The exponent of a number is decided by the stem. -/
theorem exponentLength_stem (cs : List Char) : exponentLength (stem cs) = exponentLength cs := by
  cases cs with
  | nil => rfl
  | cons m ds =>
      by_cases hm : m ∈ stops
      · have hmark : ¬ (m = 'e' ∨ m = 'E') := by
          rintro (rfl | rfl) <;> exact absurd hm (by decide)
        rw [stem_ends hm, exponentLength, exponentLength, if_neg hmark]
      · have hsign := sign_le (stem ds)
        rw [startsWith_stem (by decide)] at hsign
        rw [stem_cons hm, exponentLength, exponentLength, startsWith_stem (by decide)]
        dsimp only
        rw [drop_stem hsign, startsWith_stem (by decide), runLength_stem (by decide)]

/-- A number has a radix mark or is decimal. -/
theorem number?_eq (c : Char) (cs : List Char) : number? c cs =
    if !isDigit c then none
    else
      let whole := runLength isDigit cs
      let fraction := fractionLength (cs.drop whole)
      let exponent := exponentLength (cs.drop (whole + fraction))
      let kind := if fraction + exponent = 0 then TokenKind.integer .decimal else .float
      (marked? c cs).or (some ⟨kind, 1 + whole + fraction + exponent, none, none⟩) := by
  rw [number?]
  cases marked? c cs <;> rfl

/-- So is a number as a whole. -/
theorem number?_stem (c : Char) (cs : List Char) : number? c (stem cs) = number? c cs := by
  have hwhole : runLength isDigit cs ≤ (stem cs).length := runLength_le_stem (by decide) cs
  have hfraction := fractionLength_le_stem (cs.drop (runLength isDigit cs))
  rw [← drop_stem hwhole, List.length_drop] at hfraction
  rw [number?_eq, number?_eq]
  dsimp only
  rw [marked?_stem, runLength_stem (by decide), drop_stem hwhole, fractionLength_stem, drop_stem (by omega),
    exponentLength_stem]

theorem number?_length_le (h : number? c cs = some piece) : piece.length ≤ 1 + cs.length := by
  have hwhole := runLength_le isDigit cs
  have hfraction := fractionLength_le (cs.drop (runLength isDigit cs))
  have hexponent := exponentLength_le
    (cs.drop (runLength isDigit cs + fractionLength (cs.drop (runLength isDigit cs))))
  rw [List.length_drop] at hfraction hexponent
  rw [number?_eq] at h
  split at h
  · contradiction
  · rcases Option.or_eq_some_iff.mp h with hmarked | ⟨-, hdecimal⟩
    · exact marked?_length_le hmarked
    · obtain rfl := Option.some.inj hdecimal
      dsimp only
      omega

/-! ## Dollar forms -/

theorem variableForm_stem (cs : List Char) : variableForm (stem cs) = variableForm cs := by
  have hname : (cs.takeWhile isNameChar).length ≤ (stem cs).length := runLength_le_stem (by decide) cs
  rw [variableForm, variableForm, takeWhile_stem (by decide), drop_stem hname]
  generalize cs.drop (cs.takeWhile isNameChar).length = field
  rw [Bool.and_assoc, startsWith_both_stem (by decide) (by decide), ← Bool.and_assoc]
  refine ite_congr rfl (fun _ => rfl) fun _ => ite_congr rfl (fun henv => ?_) fun _ => rfl
  have hdot := ((Bool.and_eq_true _ _).mp ((Bool.and_eq_true _ _).mp henv).1).2
  rw [drop_stem (stem_length_pos (by decide) hdot), takeWhile_stem (by decide)]

theorem variableForm_length_le (cs : List Char) : (variableForm cs).length ≤ 1 + cs.length := by
  have hname : (cs.takeWhile isNameChar).length ≤ cs.length := runLength_le isNameChar cs
  rw [variableForm]
  dsimp only
  split
  · dsimp only
    omega
  · split
    · next henv =>
        have hdot := ((Bool.and_eq_true _ _).mp ((Bool.and_eq_true _ _).mp henv).1).2
        have hfield := length_pos_of_startsWith hdot
        have hkey := runLength_le isNameChar ((cs.drop (cs.takeWhile isNameChar).length).drop 1)
        rw [runLength, List.length_drop, List.length_drop] at hkey
        rw [List.length_drop] at hfield
        dsimp only
        omega
    · dsimp only
      omega

/-- What a dollar sign begins, a name or a substitution, is decided by the stem. -/
theorem dollar?_stem (c : Char) (cs : List Char) : dollar? c (stem cs) = dollar? c cs := by
  rw [dollar?, dollar?, startsWith_stem (by decide), startsWith_stem (by decide), variableForm_stem]

theorem dollar?_length_le (h : dollar? c cs = some piece) : piece.length ≤ 1 + cs.length := by
  rw [dollar?] at h
  split at h
  · contradiction
  · split at h
    · next hopen =>
        have hlength := length_pos_of_startsWith hopen
        obtain rfl := Option.some.inj h
        dsimp only
        omega
    · split at h
      · obtain rfl := Option.some.inj h
        exact variableForm_length_le cs
      · obtain rfl := Option.some.inj h
        exact Nat.le_add_right 1 _

/-! ## Flags and paths -/

/-- A flag has letters, digits, underscores and dashes, and none of them is a stop. -/
theorem flag?_stem (c : Char) (cs : List Char) : flag? c (stem cs) = flag? c cs := by
  rw [flag?, flag?, startsWith_both_stem (by decide) (by decide), startsWith_stem (by decide),
    takeWhile_stem (by decide)]
  refine ite_congr rfl (fun _ => rfl) fun _ => ite_congr rfl (fun hlong => ?_) fun _ => rfl
  have hdash := stem_length_pos (by decide) ((Bool.and_eq_true _ _).mp hlong).1
  rw [drop_stem hdash, takeWhile_stem (by decide)]

theorem flag?_length_le (h : flag? c cs = some piece) : piece.length ≤ 1 + cs.length := by
  rw [flag?] at h
  split at h
  · contradiction
  · split at h
    · next hlong =>
        have hdash := length_pos_of_startsWith ((Bool.and_eq_true _ _).mp hlong).1
        have hname := runLength_le (fun d => isNameChar d || d == '-') (cs.drop 1)
        rw [runLength, List.length_drop] at hname
        obtain rfl := Option.some.inj h
        dsimp only
        omega
    · split at h
      · have hname : (cs.takeWhile isLetter).length ≤ cs.length := runLength_le isLetter cs
        obtain rfl := Option.some.inj h
        dsimp only
        omega
      · contradiction

theorem pathOpening?_le {c : Char} (h : pathOpening? c cs = some n) : n ≤ cs.length := by
  unfold pathOpening? at h
  split at h
  · split at h
    · exact Option.some.inj h ▸ Nat.zero_le _
    · contradiction
  · split at h
    · next hslash => exact Option.some.inj h ▸ length_pos_of_startsWith hslash
    · split at h
      · next hdots =>
          have hslash := length_pos_of_startsWith ((Bool.and_eq_true _ _).mp hdots).2
          rw [List.length_drop] at hslash
          have hn := Option.some.inj h
          omega
      · contradiction
  · exact Option.some.inj h ▸ Nat.zero_le _
  · split at h
    · exact Option.some.inj h ▸ Nat.zero_le _
    · contradiction
  · contradiction

/-- Whether a path begins is told by three characters at most, before any stop. -/
theorem pathOpening?_stem (c : Char) (cs : List Char) : pathOpening? c (stem cs) = pathOpening? c cs := by
  unfold pathOpening?
  split
  · rw [startsWith_stem (by decide)]
  · rw [startsWith_stem (by decide), startsWith_both_stem (by decide) (by decide)]
  · rfl
  · rw [startsWith_stem (by decide)]
  · rfl

/-- A path ends at a stop at the latest. -/
theorem path?_stem (c : Char) (cs : List Char) : path? c (stem cs) = path? c cs := by
  rw [path?, path?]
  cases h : pathOpening? c cs with
  | none => rw [pathOpening?_stem, h, Option.map_none, Option.map_none]
  | some opening =>
      rw [← pathOpening?_stem] at h
      have hle : opening ≤ (stem cs).length := pathOpening?_le h
      rw [h, Option.map_some, Option.map_some, drop_stem hle, runLength_stem (by decide)]

theorem path?_length_le (h : path? c cs = some piece) : piece.length ≤ 1 + cs.length := by
  obtain ⟨opening, hopening, rfl⟩ := Option.map_eq_some_iff.mp h
  have hle := pathOpening?_le hopening
  have hrun := runLength_le isPathChar (cs.drop opening)
  rw [List.length_drop] at hrun
  dsimp only
  omega

/-! ## Names and symbols -/

/-- A name is no longer than the text that it is read from. -/
theorem nameLength_le (cs : List Char) : nameLength cs ≤ cs.length := by
  induction cs with
  | nil => exact Nat.le_refl _
  | cons c cs ih =>
      rw [nameLength, List.length_cons]
      split <;> omega

theorem nameLength_stem (cs : List Char) : nameLength (stem cs) = nameLength cs := by
  induction cs with
  | nil => rfl
  | cons c cs ih =>
      by_cases hc : c ∈ stops
      · have hname : isNameChar c = false := (by decide : Stemmed isNameChar) c hc
        have hdash : (c == '-') = false := (by decide : Stemmed (· == '-')) c hc
        rw [stem_ends hc, nameLength, nameLength, hname, hdash]
        rfl
      · rw [stem_cons hc, nameLength, nameLength, startsWith_stem (by decide), ih]

/-- A word is decided by the stem, and so is whether it is a keyword. -/
theorem word?_stem (c : Char) (cs : List Char) : word? c (stem cs) = word? c cs := by
  have hname : nameLength cs ≤ (stem cs).length := nameLength_stem cs ▸ nameLength_le (stem cs)
  rw [word?, word?]
  dsimp only
  rw [nameLength_stem, take_stem hname, drop_stem hname, startsPathSegment, startsPathSegment,
    startsWith_both_stem (by decide) (by decide), runLength_stem (by decide)]

theorem word?_length_le (h : word? c cs = some piece) : piece.length ≤ 1 + cs.length := by
  have hname := nameLength_le cs
  have hpath := runLength_le isPathChar (cs.drop (nameLength cs))
  rw [List.length_drop] at hpath
  rw [word?] at h
  split at h
  · contradiction
  · dsimp only at h
    split at h
    · obtain rfl := Option.some.inj h
      exact Nat.add_le_add_left hname 1
    · split at h
      · obtain rfl := Option.some.inj h
        dsimp only
        omega
      · obtain rfl := Option.some.inj h
        exact Nat.add_le_add_left hname 1

/-- A symbol is written without stops. -/
theorem symbol_stemmed (s : Symbol) : ∀ d ∈ s.text.toList, d ∉ stops := by
  cases s <;> decide

/-- A symbol is decided by the stem. -/
theorem symbol?_stem (c : Char) (cs : List Char) : symbol? c (stem cs) = symbol? c cs := by
  have hsame (s : Symbol) : s.text.toList.isPrefixOf (c :: stem cs) = s.text.toList.isPrefixOf (c :: cs) := by
    have hstemmed := symbol_stemmed s
    cases htext : s.text.toList with
    | nil => rfl
    | cons d ds =>
        rw [htext] at hstemmed
        rw [List.isPrefixOf, List.isPrefixOf, isPrefixOf_stem fun e he => hstemmed e (List.mem_cons_of_mem d he)]
  rw [symbol?, symbol?]
  simp only [hsame]

theorem symbol?_length_le (h : symbol? c cs = some piece) : piece.length ≤ 1 + cs.length := by
  obtain ⟨s, hfound, rfl⟩ := Option.map_eq_some_iff.mp h
  have hstart : s.text.toList.isPrefixOf (c :: cs) = true := by simpa using List.find?_some hfound
  have hlength := (List.isPrefixOf_iff_prefix.mp hstart).length_le
  rw [String.length_toList, List.length_cons] at hlength
  dsimp only
  omega

/-! ## Pieces that are no strings -/

/-- A recogniser keeps **to the stem**: it finds in a text what it finds in its stem, and that lies in the text after
    the first character. -/
structure OnStem (f : List Char → Option Piece) : Prop where
  same : ∀ cs, f (stem cs) = f cs
  length_le : ∀ {cs piece}, f cs = some piece → piece.length ≤ 1 + cs.length

/-- Recognisers that are tried in turn. -/
theorem OnStem.or {f g : List Char → Option Piece} (hf : OnStem f) (hg : OnStem g) :
    OnStem fun cs => (f cs).or (g cs) where
  same := fun cs => by rw [hf.same, hg.same]
  length_le := by
    intro cs piece h
    rcases Option.or_eq_some_iff.mp h with hfound | ⟨-, hfound⟩
    · exact hf.length_le hfound
    · exact hg.length_le hfound

/-- A recogniser that is tried in some places only. -/
theorem OnStem.ite {f : List Char → Option Piece} (hf : OnStem f) (b : Bool) :
    OnStem fun cs => if b then f cs else none := by
  cases b with
  | true => exact hf
  | false => exact ⟨fun _ => rfl, fun h => absurd h.symm (Option.some_ne_none _)⟩

/-- The piece that a text begins with, if no string begins there. -/
def unquoted? (wordStart : Bool) (c : Char) (cs : List Char) : Option Piece :=
  ((((number? c cs).or (dollar? c cs)).or (if wordStart then (flag? c cs).or (path? c cs) else none)).or
    (word? c cs)).or (symbol? c cs)

/-- A piece is a string, which may run past a stop, or an unquoted one, or an error of one character. -/
theorem next_eq_unquoted (wordStart : Bool) (c : Char) (cs : List Char) : next wordStart c cs =
    ((string? c cs).or (unquoted? wordStart c cs)).getD (bad (.unexpected c) 1) := by
  simp only [next, unquoted?, Option.or_assoc]

/-- **A piece that is no string is told by the stem.** -/
theorem unquoted?_onStem (wordStart : Bool) (c : Char) : OnStem (unquoted? wordStart c) := by
  have hnumber : OnStem (number? c) := ⟨number?_stem c, number?_length_le⟩
  have hdollar : OnStem (dollar? c) := ⟨dollar?_stem c, dollar?_length_le⟩
  have hflag : OnStem (flag? c) := ⟨flag?_stem c, flag?_length_le⟩
  have hpath : OnStem (path? c) := ⟨path?_stem c, path?_length_le⟩
  have hword : OnStem (word? c) := ⟨word?_stem c, word?_length_le⟩
  have hsymbol : OnStem (symbol? c) := ⟨symbol?_stem c, symbol?_length_le⟩
  exact (((hnumber.or hdollar).or ((hflag.or hpath).ite wordStart)).or hword).or hsymbol

end Piece

end ShellFront
