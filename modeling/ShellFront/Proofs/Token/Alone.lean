import ShellFront.Proofs.Token.Literals

/-!
# Words by themselves

A piece is **cut out** of its text when what follows it is taken away and a blank, or nothing, is put there instead.
Recognisers that find a piece without a problem find the same one when it is cut out. A word that is cut out stands
where a word begins, so it may not come to be a flag or a path; it does not, because these are told from symbols by a
character that belongs to the piece.

## Contents
- One lemma for each recogniser of flags, paths, names and symbols.
- `Piece.next_cut`.
-/

namespace ShellFront

namespace Piece

variable {c : Char} {piece : Piece} {p q : Char → Bool} {cs more : List Char} {m n : Nat}

/-! ## Flags and paths -/

theorem isNameChar_of_isLetter {d : Char} (h : isLetter d = true) : isNameChar d = true := by
  rw [isNameChar, h]
  rfl

theorem flag?_cut (h : flag? c cs = some piece) (hmore : Gap more) :
    flag? c (cs.take (piece.length - 1) ++ more) = some piece := by
  rw [flag?] at h ⊢
  split at h
  · contradiction
  · next hc =>
      rw [if_neg hc]
      split at h
      · next hlong =>
          obtain ⟨hdash, hletter⟩ := (Bool.and_eq_true _ _).mp hlong
          -- the second dash and the letter after it lie within the piece, so both looks find them again
          have hdashpos : 1 ≤ cs.length := length_pos_of_startsWith hdash
          dsimp only at h
          generalize hname : (cs.drop 1).takeWhile (fun d => isNameChar d || d == '-') = name at h
          have hrun : runLength (fun d => isNameChar d || d == '-') (cs.drop 1) = name.length := by rw [runLength, hname]
          have hpos : 0 < name.length := by
            rw [← hrun]
            refine runLength_pos hletter fun d hd => ?_
            rw [isNameChar_of_isLetter hd, Bool.true_or]
          obtain rfl := Option.some.inj h
          have hlength : 2 + name.length - 1 = 1 + name.length := by omega
          dsimp only
          rw [hlength, startsWith_cut (by omega) (by decide) hmore, drop_cut (by omega) hdashpos,
            Nat.add_sub_cancel_left, startsWith_cut hpos (by decide) hmore, if_pos hlong,
            takeWhile_cut (by decide) hmore (Nat.le_of_eq hrun), hname]
      · next hlong =>
          split at h
          · next hletter =>
              dsimp only at h
              generalize hname : cs.takeWhile isLetter = name at h
              have hrun : runLength isLetter cs = name.length := by rw [runLength, hname]
              have hpos : 0 < name.length := hrun ▸ runLength_pos hletter fun _ h => h
              -- a letter follows the first dash, so there is no second one
              have hdash : startsWith (· == '-') cs = false := by
                cases cs with
                | nil => rfl
                | cons d ds =>
                    rw [startsWith, beq_eq_false_iff_ne]
                    rintro rfl
                    contradiction
              obtain rfl := Option.some.inj h
              dsimp only
              rw [Nat.add_sub_cancel_left, startsWith_cut hpos (by decide) hmore, hdash, Bool.false_and,
                if_neg Bool.false_ne_true, startsWith_cut hpos (by decide) hmore, if_pos hletter,
                takeWhile_cut (by decide) hmore (Nat.le_of_eq hrun), hname]
          · contradiction

theorem isPathChar_of_isNameStart {d : Char} (h : isNameStart d = true) : isPathChar d = true := by
  rw [isPathChar, isNameChar_of_isNameStart h]
  rfl

/-- What shows that a path begins is part of the path. -/
theorem isPathChar_of_mark {marks : List Char} (hmarks : ∀ d ∈ marks, isPathChar d = true) {d : Char}
    (h : (isNameStart d || marks.contains d) = true) : isPathChar d = true := by
  rcases (Bool.or_eq_true _ _).mp h with h | h
  · exact isPathChar_of_isNameStart h
  · exact hmarks d (List.contains_iff_mem.mp h)

/-- The opening of a path that is left is the same. -/
theorem pathOpening?_cut (h : pathOpening? c cs = some n) (hmore : Gap more)
    (hm : n + runLength isPathChar (cs.drop n) ≤ m) : pathOpening? c (cs.take m ++ more) = some n := by
  unfold pathOpening? at h ⊢
  split at h
  · split at h
    · next hstart =>
        obtain rfl := Option.some.inj h
        have hpos : 0 < runLength isPathChar cs := runLength_pos hstart fun _ => isPathChar_of_mark (by decide)
        rw [List.drop_zero] at hm
        rw [startsWith_cut (by omega) (by decide) hmore, if_pos hstart]
    · contradiction
  · split at h
    · next hslash =>
        obtain rfl := Option.some.inj h
        rw [startsWith_cut (by omega) (by decide) hmore, if_pos hslash]
    · next hslash =>
        split at h
        · next hdots =>
            obtain rfl := Option.some.inj h
            have hdotpos : 1 ≤ cs.length := length_pos_of_startsWith ((Bool.and_eq_true _ _).mp hdots).1
            rw [startsWith_cut (by omega) (by decide) hmore, if_neg hslash, startsWith_cut (by omega) (by decide) hmore,
              drop_cut (by omega) hdotpos, startsWith_cut (by omega) (by decide) hmore, if_pos hdots]
        · contradiction
  · exact h
  · split at h
    · next hstart =>
        obtain rfl := Option.some.inj h
        have hpos : 0 < runLength isPathChar cs := runLength_pos hstart fun _ => isPathChar_of_mark (by decide)
        rw [List.drop_zero] at hm
        rw [startsWith_cut (by omega) (by decide) hmore, if_pos hstart]
    · contradiction
  · contradiction

theorem path?_cut (h : path? c cs = some piece) (hmore : Gap more) :
    path? c (cs.take (piece.length - 1) ++ more) = some piece := by
  obtain ⟨opening, hopening, rfl⟩ := Option.map_eq_some_iff.mp h
  have hle := pathOpening?_le hopening
  dsimp only
  rw [path?, pathOpening?_cut hopening hmore (by omega), Option.map_some, drop_cut (by omega) hle,
    runLength_cut (by decide) hmore (by omega)]

/-! ## Names and symbols -/

theorem nameLength_gap (hmore : Gap more) : nameLength more = 0 := by
  cases more with
  | nil => rfl
  | cons d more =>
      have hname : isNameChar d = false := Unspaced.blank (p := isNameChar) (by decide) (hmore d rfl)
      have hdash : (d == '-') = false := Unspaced.blank (p := (· == '-')) (by decide) (hmore d rfl)
      rw [nameLength, hname, hdash]
      rfl

theorem nameLength_cut (h : nameLength cs ≤ m) (hmore : Gap more) :
    nameLength (cs.take m ++ more) = nameLength cs := by
  induction cs generalizing m with
  | nil =>
      rw [List.take_nil, List.nil_append]
      exact nameLength_gap hmore
  | cons d ds ih =>
      rw [nameLength] at h ⊢
      split at h
      · next hgoes =>
          obtain ⟨m, rfl⟩ : ∃ k, m = k + 1 := ⟨m - 1, by omega⟩
          rw [List.take_succ_cons, List.cons_append, nameLength, ih (by omega), if_pos hgoes, if_pos]
          rw [Bool.or_eq_true, Bool.and_eq_true] at hgoes ⊢
          refine hgoes.imp_right (And.imp_right fun hnext => ?_)
          -- the dash belongs to the name, so the character after it is left as well
          have hpos : 0 < nameLength ds := by
            cases ds with
            | nil => contradiction
            | cons e es =>
                rw [nameLength, if_pos (by rw [show isNameChar e = true from hnext, Bool.true_or])]
                omega
          rwa [startsWith_cut (by omega) (by decide) hmore]
      · next hends =>
          rw [if_neg hends]
          cases m with
          | zero => exact nameLength_gap hmore
          | succ m =>
              rw [List.take_succ_cons, List.cons_append, nameLength, if_neg]
              intro hgoes
              rw [Bool.or_eq_true, Bool.and_eq_true] at hgoes hends
              exact hends (hgoes.imp_right (And.imp_right (startsWith_of_cut (by decide) hmore)))

/-- A keyword, a name or a path that begins with a name is the same when it is cut out. -/
theorem word?_cut (h : word? c cs = some piece) (hmore : Gap more) :
    word? c (cs.take (piece.length - 1) ++ more) = some piece := by
  rw [word?] at h ⊢
  split at h
  · contradiction
  · next hc =>
      rw [if_neg hc]
      dsimp only at h ⊢
      have hname := nameLength_le cs
      split at h
      · next k hkeyword =>
          obtain rfl := Option.some.inj h
          dsimp only
          rw [Nat.add_sub_cancel_left, nameLength_cut (Nat.le_refl _) hmore, take_cut (Nat.le_refl _) hname, hkeyword]
      · next hkeyword =>
          split at h
          · next hpath =>
              obtain rfl := Option.some.inj h
              obtain ⟨hslash, hsegment⟩ := (Bool.and_eq_true _ _).mp hpath
              have hslashpos : 1 ≤ (cs.drop (nameLength cs)).length := length_pos_of_startsWith hslash
              -- the slash is a path character, and so is what shows that a path goes on after it
              have hrun : 2 ≤ runLength isPathChar (cs.drop (nameLength cs)) := by
                obtain ⟨d, ds, hrest⟩ := List.exists_cons_of_length_pos hslashpos
                rw [hrest] at hslash hsegment ⊢
                have hd : isPathChar d = true := by
                  rw [eq_of_beq (show (d == '/') = true from hslash)]
                  decide
                have hds : 0 < runLength isPathChar ds := runLength_pos hsegment fun e he => by
                  rw [Bool.or_eq_true, Bool.or_eq_true] at he
                  rcases he with (he | he) | he
                  · exact isPathChar_of_isNameStart he
                  · rw [isPathChar, isNameChar, he, Bool.or_true]
                    rfl
                  · exact @isPathChar_of_mark ['.', '*', '~'] (by decide) e (by rw [he, Bool.or_true])
                rw [runLength] at hds ⊢
                rw [List.takeWhile_cons, if_pos hd, List.length_cons]
                exact Nat.succ_le_succ hds
              have hlength : 1 + nameLength cs + runLength isPathChar (cs.drop (nameLength cs)) - 1 =
                  nameLength cs + runLength isPathChar (cs.drop (nameLength cs)) := by omega
              dsimp only
              rw [hlength, nameLength_cut (Nat.le_add_right _ _) hmore, take_cut (Nat.le_add_right _ _) hname, hkeyword,
                drop_cut (Nat.le_add_right _ _) hname, Nat.add_sub_cancel_left]
              dsimp only
              rw [startsPathSegment, startsWith_cut (by omega) (by decide) hmore, drop_cut (by omega) hslashpos,
                startsWith_cut (by omega) (by decide) hmore, hslash, ← startsPathSegment, hsegment,
                runLength_cut (by decide) hmore (Nat.le_refl _)]
              rfl
          · next hpath =>
              obtain rfl := Option.some.inj h
              dsimp only
              rw [Nat.add_sub_cancel_left, nameLength_cut (Nat.le_refl _) hmore, take_cut (Nat.le_refl _) hname, hkeyword,
                drop_cut (Nat.le_refl _) hname, Nat.sub_self, List.take_zero, List.nil_append]
              dsimp only
              rw [startsWith_gap (by decide) hmore, Bool.false_and, if_neg Bool.false_ne_true]

/-- A symbol is written without blanks. -/
theorem blank_notMem_symbol (s : Symbol) : ∀ d ∈ s.text.toList, isBlank d = false := by
  cases s <;> decide

theorem symbol?_cut (h : symbol? c cs = some piece) (hmore : Gap more) :
    symbol? c (cs.take (piece.length - 1) ++ more) = some piece := by
  obtain ⟨s, hfound, rfl⟩ := Option.map_eq_some_iff.mp h
  obtain ⟨hstart, before, after, hspelled, hbefore⟩ := List.find?_eq_some_iff_append.mp hfound
  have hpos : 0 < s.text.length := by cases s <;> decide
  dsimp only
  have hcut : c :: (cs.take (s.text.length - 1) ++ more) = (c :: cs).take s.text.length ++ more := by
    rw [← List.cons_append, ← List.take_succ_cons, Nat.sub_add_cancel hpos]
  rw [symbol?, hcut]
  refine Option.map_eq_some_iff.mpr ⟨s, List.find?_eq_some_iff_append.mpr ⟨?_, before, after, hspelled, ?_⟩, rfl⟩
  · exact isPrefixOf_cut hstart (Nat.le_of_eq (String.length_toList ..)) more
  · -- a symbol that is tried earlier does not begin with more than the text did
    intro t ht
    have hnot := hbefore t ht
    cases hstarts : t.text.toList.isPrefixOf ((c :: cs).take s.text.length ++ more) with
    | false => rfl
    | true =>
        rw [isPrefixOf_of_cut (blank_notMem_symbol t) hmore hstarts] at hnot
        contradiction

/-! ## What is not there -/

theorem number?_none_cut (h : number? c cs = none) (m : Nat) : number? c (cs.take m ++ more) = none := by
  rw [number?_eq] at h ⊢
  split at h
  · next hc => exact if_pos hc
  · dsimp only at h
    rw [Option.or_eq_none_iff] at h
    exact absurd h.2 (Option.some_ne_none _)

theorem dollar?_none_cut (h : dollar? c cs = none) (m : Nat) : dollar? c (cs.take m ++ more) = none := by
  rw [dollar?] at h ⊢
  split at h
  · next hc => exact if_pos hc
  · split at h
    · contradiction
    · split at h <;> contradiction

theorem flag?_none_cut (h : flag? c cs = none) (m : Nat) (hmore : Gap more) : flag? c (cs.take m ++ more) = none := by
  rw [flag?] at h ⊢
  split at h
  · next hc => exact if_pos hc
  · next hc =>
      rw [if_neg hc]
      split at h
      · contradiction
      · next hlong =>
          split at h
          · contradiction
          · next hletter =>
              rw [if_neg fun hcut => hlong (startsWith_both_of_cut (by decide) (by decide) hmore hcut),
                if_neg fun hcut => hletter (startsWith_of_cut (by decide) hmore hcut)]

theorem path?_none_cut (h : path? c cs = none) (m : Nat) (hmore : Gap more) : path? c (cs.take m ++ more) = none := by
  rw [path?, Option.map_eq_none_iff] at h ⊢
  unfold pathOpening? at h ⊢
  split at h
  · split at h
    · contradiction
    · next hstart => rw [if_neg fun hcut => hstart (startsWith_of_cut (by decide) hmore hcut)]
  · split at h
    · contradiction
    · next hslash =>
        split at h
        · contradiction
        · next hdots =>
            rw [if_neg fun hcut => hslash (startsWith_of_cut (by decide) hmore hcut),
              if_neg fun hcut => hdots (startsWith_both_of_cut (by decide) (by decide) hmore hcut)]
  · contradiction
  · split at h
    · contradiction
    · next hstart => rw [if_neg fun hcut => hstart (startsWith_of_cut (by decide) hmore hcut)]
  · rfl

/-- What a name can begin with begins no flag and no path. -/
theorem shellWord_of_isNameStart (hc : isNameStart c = true) (cs : List Char) :
    (flag? c cs).or (path? c cs) = none := by
  have hflag : flag? c cs = none := by
    rw [flag?, if_pos]
    rw [bne_iff_ne]
    rintro rfl
    contradiction
  have hpath : path? c cs = none := by
    rw [path?, Option.map_eq_none_iff]
    unfold pathOpening?
    split
    · contradiction
    · contradiction
    · contradiction
    · contradiction
    · rfl
  rw [hflag, hpath]
  rfl

/-- A symbol that is cut out is no flag and no path. -/
theorem shellWord_symbol (s : Symbol) {d : Char} {ds : List Char} (hs : s.text.toList = d :: ds) (hmore : Gap more) :
    (flag? d (ds ++ more)).or (path? d (ds ++ more)) = none := by
  have hself : ∀ e ∈ s.text.toList.head?.toList,
      flag? e s.text.toList.tail = none ∧ path? e s.text.toList.tail = none := by
    cases s <;> decide
  rw [hs] at hself
  obtain ⟨hflag, hpath⟩ := hself d (List.mem_singleton_self d)
  have hflag' := flag?_none_cut hflag ds.length hmore
  have hpath' := path?_none_cut hpath ds.length hmore
  rw [List.tail_cons, List.take_length] at hflag' hpath'
  rw [hflag', hpath']
  rfl

/-! ## The next piece -/

/-- A recogniser **bears cutting** at a text: the piece that it finds there without a problem is found when it is cut
    out, and where it finds nothing it finds nothing in what is cut. -/
structure Bears (f : List Char → Option Piece) (cs : List Char) : Prop where
  kept : ∀ {piece more}, f cs = some piece → piece.problem = none → Gap more →
    f (cs.take (piece.length - 1) ++ more) = some piece
  missed : ∀ {more}, f cs = none → ∀ m, Gap more → f (cs.take m ++ more) = none

/-- Recognisers that are tried in turn. -/
theorem Bears.or {f g : List Char → Option Piece} (hf : Bears f cs) (hg : Bears g cs) :
    Bears (fun cs => (f cs).or (g cs)) cs where
  kept := by
    intro piece more h hproblem hmore
    rcases Option.or_eq_some_iff.mp h with hfound | ⟨hmissed, hfound⟩
    · rw [hf.kept hfound hproblem hmore, Option.some_or]
    · rw [hf.missed hmissed _ hmore, Option.none_or, hg.kept hfound hproblem hmore]
  missed := by
    intro more h m hmore
    obtain ⟨hf', hg'⟩ := Option.or_eq_none_iff.mp h
    exact Option.or_eq_none_iff.mpr ⟨hf.missed hf' m hmore, hg.missed hg' m hmore⟩

/-- The forms of token that are read in the same way everywhere. -/
def literal? (c : Char) (cs : List Char) : Option Piece := ((string? c cs).or (number? c cs)).or (dollar? c cs)

/-- The forms of token that are read only where a word begins. -/
def shellWord? (c : Char) (cs : List Char) : Option Piece := (flag? c cs).or (path? c cs)

theorem next_eq (wordStart : Bool) (c : Char) (cs : List Char) : next wordStart c cs =
    (((literal? c cs).or (if wordStart then shellWord? c cs else none)).or ((word? c cs).or (symbol? c cs))).getD
      (bad (.unexpected c) 1) := by
  rw [next, ← Option.or_assoc]
  rfl

theorem literal?_bears (c : Char) (cs : List Char) : Bears (literal? c) cs :=
  .or (.or ⟨string?_cut, fun h m hmore => string?_none_cut h m hmore⟩
    ⟨fun h _ => number?_cut h, fun h m _ => number?_none_cut h m⟩) ⟨dollar?_cut, fun h m _ => dollar?_none_cut h m⟩

theorem shellWord?_bears (c : Char) (cs : List Char) : Bears (shellWord? c) cs :=
  .or ⟨fun h _ => flag?_cut h, fun h m hmore => flag?_none_cut h m hmore⟩
    ⟨fun h _ => path?_cut h, fun h m hmore => path?_none_cut h m hmore⟩

/-- A name or a symbol that is cut out is the same, and no flag or path. -/
theorem plainWord_cut (h : (word? c cs).or (symbol? c cs) = some piece) (hmore : Gap more) :
    let cut := cs.take (piece.length - 1) ++ more
    shellWord? c cut = none ∧ (word? c cut).or (symbol? c cut) = some piece := by
  rcases Option.or_eq_some_iff.mp h with hword | ⟨hmissed, hsymbol⟩
  · have hc : isNameStart c = true := by
      cases hc : isNameStart c with
      | true => rfl
      | false =>
          rw [word?, hc] at hword
          contradiction
    dsimp only
    rw [word?_cut hword hmore]
    exact ⟨shellWord_of_isNameStart hc _, Option.some_or⟩
  · -- a word is told by its first character, so a symbol does not become one
    have hc : word? c (cs.take (piece.length - 1) ++ more) = none := by
      rw [word?] at hmissed ⊢
      split at hmissed
      · next hc => exact if_pos hc
      · dsimp only at hmissed
        split at hmissed
        · contradiction
        · split at hmissed <;> contradiction
    dsimp only
    rw [hc, symbol?_cut hsymbol hmore]
    refine ⟨?_, Option.none_or⟩
    obtain ⟨s, hfound, rfl⟩ := Option.map_eq_some_iff.mp hsymbol
    have hstart : s.text.toList <+: c :: cs := by
      simpa using List.find?_some hfound
    have hself : s.text.toList = (c :: cs).take s.text.length := by
      rw [← String.length_toList]
      exact List.prefix_iff_eq_take.mp hstart
    have hpos : 0 < s.text.length := by cases s <;> decide
    refine shellWord_symbol s ?_ hmore
    rw [hself, ← List.take_succ_cons, Nat.sub_add_cancel hpos]

/-- **A piece without a problem is the same when it is cut out and stands by itself.** -/
theorem next_cut {wordStart : Bool} (h : (next wordStart c cs).problem = none) (hmore : Gap more) :
    next true c (cs.take ((next wordStart c cs).length - 1) ++ more) = next wordStart c cs := by
  have hliteral := literal?_bears c cs
  have hshell := shellWord?_bears c cs
  rw [next_eq] at h ⊢
  rw [next_eq, if_pos rfl]
  cases hfound : ((literal? c cs).or (if wordStart then shellWord? c cs else none)).or
      ((word? c cs).or (symbol? c cs)) with
  | none =>
      rw [hfound] at h
      contradiction
  | some piece =>
      rw [hfound, Option.getD_some] at h
      rw [Option.getD_some]
      rcases Option.or_eq_some_iff.mp hfound with hopens | ⟨hmissed, hplain⟩
      · rcases Option.or_eq_some_iff.mp hopens with hlit | ⟨hmissed, hword⟩
        · rw [hliteral.kept hlit h hmore]
          rfl
        · cases wordStart with
          | false => contradiction
          | true =>
              rw [hliteral.missed hmissed _ hmore, hshell.kept hword h hmore]
              rfl
      · obtain ⟨hlit, -⟩ := Option.or_eq_none_iff.mp hmissed
        obtain ⟨hword, hsame⟩ := plainWord_cut hplain hmore
        rw [hliteral.missed hlit _ hmore, hword, hsame]
        rfl

/-! ## How far a name goes -/

theorem runLength_le_nameLength (cs : List Char) : runLength isNameChar cs ≤ nameLength cs := by
  induction cs with
  | nil => exact Nat.le_refl _
  | cons d ds ih =>
      rw [runLength] at ih ⊢
      rw [nameLength, List.takeWhile_cons]
      split
      · next hd =>
          rw [if_pos (by rw [hd, Bool.true_or]), List.length_cons]
          omega
      · exact Nat.zero_le _

theorem word?_found (hc : isNameStart c = true) (cs : List Char) :
    ∃ piece, word? c cs = some piece ∧ 1 + nameLength cs ≤ piece.length := by
  rw [word?, hc, if_neg (by decide)]
  dsimp only
  split
  · exact ⟨_, rfl, Nat.le_refl _⟩
  · split
    · exact ⟨_, rfl, Nat.le_add_right _ _⟩
    · exact ⟨_, rfl, Nat.le_refl _⟩

theorem isDigit_of_isNameStart (hc : isNameStart c = true) : isDigit c = false := by
  simp only [isNameStart, isLetter, isDigit, Char.le_def, UInt32.le_iff_toNat_le, Bool.or_eq_true, Bool.and_eq_true,
    decide_eq_true_eq, beq_iff_eq, Bool.and_eq_false_iff, decide_eq_false_iff_not] at hc ⊢
  rcases hc with (hlower | hupper) | rfl
  · have hle := hlower.1
    have : '9'.val.toNat < 'a'.val.toNat := by decide
    omega
  · have hle := hupper.1
    have : '9'.val.toNat < 'A'.val.toNat := by decide
    omega
  · decide

/-- Where a name can begin there is no literal, unless a quote shows that a raw string begins. -/
theorem literal?_of_isNameStart (hc : isNameStart c = true) (hquote : ¬ startsWith (· == '\x22') cs = true) :
    literal? c cs = none := by
  have hne (d : Char) (hd : isNameStart d = false) : c ≠ d := by
    rintro rfl
    rw [hd] at hc
    contradiction
  have hstring : string? c cs = none := by
    rw [string?_eq, if_neg (hne _ (by decide))]
    by_cases hr : c = 'r'
    · rw [if_pos hr, if_neg hquote]
    · rw [if_neg hr, if_neg (hne _ (by decide)), if_neg (hne _ (by decide))]
  have hdigit := isDigit_of_isNameStart hc
  have hdollar : dollar? c cs = none := by
    rw [dollar?, if_pos]
    rw [bne_iff_ne]
    exact hne _ (by decide)
  rw [literal?, hstring, number?_eq, hdigit, hdollar]
  rfl

/-- **A piece that begins like a name holds all the name characters that come first.** -/
theorem runLength_le_next (hc : isNameStart c = true) (wordStart : Bool) (cs : List Char) :
    runLength isNameChar (c :: cs) ≤ (next wordStart c cs).length := by
  rw [runLength, List.takeWhile_cons, if_pos (isNameChar_of_isNameStart hc), List.length_cons]
  by_cases hquote : startsWith (· == '\x22') cs = true
  · have hends : runLength isNameChar cs = 0 := by
      cases cs with
      | nil => rfl
      | cons d ds =>
          have hd : isNameChar d = false := by
            rw [eq_of_beq (show (d == '\x22') = true from hquote)]
            decide
          rw [runLength, List.takeWhile_cons, hd]
          rfl
    rw [runLength] at hends
    rw [hends]
    exact next_length_pos wordStart c cs
  · have hle := runLength_le_nameLength cs
    obtain ⟨piece, hword, hlength⟩ := word?_found hc cs
    have hshell : (if wordStart then shellWord? c cs else none) = none := by
      split
      · exact shellWord_of_isNameStart hc cs
      · rfl
    rw [next_eq, literal?_of_isNameStart hc hquote, hshell, hword, Option.none_or, Option.none_or, Option.some_or,
      Option.getD_some]
    rw [runLength] at hle
    omega

end Piece

end ShellFront
