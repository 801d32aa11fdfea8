import ShellFront.Text.Quoted
import ShellFront.Token

/-!
# Pieces of a script

Which token a text begins with. A `Piece` says what the token is and how many characters it takes;
where it stands in the script does not matter here. There is one recogniser for each form of token,
and `Piece.next` tries them in turn.

## Contents
- Classes of characters.
- `LexicalProblem`, what can be wrong with a piece.
- Recognisers: strings, numbers, dollar forms, flags, paths, names, symbols.
- `Piece.next` and `Piece.next_length_pos`: a piece takes at least one character.
-/

namespace ShellFront

/-! ## Classes of characters -/

/-- The digits of the decimal system, ASCII only. -/
def isDigit (c : Char) : Bool := '0' ≤ c && c ≤ '9'

/-- The letters, ASCII only. -/
def isLetter (c : Char) : Bool := ('a' ≤ c && c ≤ 'z') || ('A' ≤ c && c ≤ 'Z')

/-- What a name can begin with. -/
def isNameStart (c : Char) : Bool := isLetter c || c == '_'

/-- What a name can hold. -/
def isNameChar (c : Char) : Bool := isLetter c || isDigit c || c == '_'

/-- What a path can hold after its first characters. -/
def isPathChar (c : Char) : Bool := isNameChar c || ['.', '/', '*', '~', '-'].contains c

/-- Blanks that only separate tokens. -/
def isBlank (c : Char) : Bool := c == ' ' || c == '\t' || c == '\r'

/-- What may stand before a flag or a path. -/
def isWordBoundary (c : Char) : Bool :=
  [' ', '\t', '\r', '\n', ';', '(', '|', '[', '\x7b', ',', '='].contains c

/-- How many characters of a class a text begins with. -/
def runLength (p : Char → Bool) (text : List Char) : Nat := (text.takeWhile p).length

/-- Whether a text begins with a character of a class. -/
def startsWith (p : Char → Bool) : List Char → Bool
  | [] => false
  | c :: _ => p c

/-- Where a text is first found in another one. -/
def findText (needle : List Char) : List Char → Option Nat
  | [] => if needle.isEmpty then some 0 else none
  | c :: cs =>
      if needle.isPrefixOf (c :: cs) then some 0 else (findText needle cs).map (· + 1)

/-! ## Problems -/

/-- What can be wrong with a piece of text. -/
inductive LexicalProblem where
  | unexpected (c : Char)
  | missingVariableName
  | openString
  | openComment
deriving DecidableEq

/-- The message for a lexical problem. -/
def LexicalProblem.message : LexicalProblem → String
  | unexpected c => s!"Unexpected character: {Text.quote c.toString}"
  | missingVariableName => "Expected a variable name after '$'"
  | openString => "Unterminated string literal"
  | openComment => "Unterminated block comment"

/-- A token without its place: its kind, how many characters it takes, and its value. -/
structure Piece where
  kind : TokenKind
  length : Nat
  value : Option (List Char) := none
  problem : Option LexicalProblem := none

namespace Piece

/-- A piece of text that is no token. -/
def bad (problem : LexicalProblem) (length : Nat) : Piece :=
  ⟨.invalid, length, none, some problem⟩

/-! ## Strings -/

/-- The number of characters before the closing quote, where a backslash hides the character after
    it. -/
def closingQuote (delimiter : Char) : List Char → Option Nat
  | [] => none
  | ['\\'] => none
  | '\\' :: _ :: cs => (closingQuote delimiter cs).map (· + 2)
  | c :: cs => if c = delimiter then some 0 else (closingQuote delimiter cs).map (· + 1)

/-- The character that an escape stands for. -/
def escaped? : Char → Option Char
  | 'n' => some '\n'
  | 'r' => some '\r'
  | 't' => some '\t'
  | '0' => some '\x00'
  | '\x22' => some '\x22'
  | '\x27' => some '\x27'
  | '\\' => some '\\'
  | _ => none

/-- Replaces escapes by the characters that they stand for; an unknown one stays as it is. -/
def unescape : List Char → List Char
  | [] => []
  | '\\' :: c :: cs =>
      match escaped? c with
      | some d => d :: unescape cs
      | none => '\\' :: c :: unescape cs
  | c :: cs => c :: unescape cs

/-- A string without its closing quote, given the text after its first character: the rest of the
    line is lost. -/
def unclosed (cs : List Char) : Piece := bad .openString (1 + runLength (· != '\n') cs)

/-- A string whose body follows `opener` characters and ends before the closing quotes `needle`. -/
def verbatim (style : StringStyle) (opener : Nat) (needle : List Char) (body : List Char)
    (otherwise : Piece) : Piece :=
  match findText needle body with
  | some n => ⟨.string style, opener + n + needle.length, some (body.take n), none⟩
  | none => otherwise

/-- A string with escapes. -/
def escapedString (style : StringStyle) (delimiter : Char) (body : List Char)
    (otherwise : Piece) : Piece :=
  match closingQuote delimiter body with
  | some n => ⟨.string style, n + 2, some (unescape (body.take n)), none⟩
  | none => otherwise

/-- A string of any style. -/
def string? (c : Char) (cs : List Char) : Option Piece :=
  let broken := unclosed cs
  match c, cs with
  | '\x22', '\x22' :: '\x22' :: body =>
      some (verbatim .triple 3 ['\x22', '\x22', '\x22'] body broken)
  | 'r', '\x22' :: body => some (verbatim .raw 2 ['\x22'] body broken)
  | '\x60', body => some (verbatim .backtick 1 ['\x60'] body broken)
  | '\x22', body => some (escapedString .double '\x22' body broken)
  | '\x27', body => some (escapedString .single '\x27' body broken)
  | _, _ => none

/-! ## Numbers -/

/-- The radix that a letter after a zero announces, and the digits it allows. Underscores may stand
    among the digits. -/
def radixMark? : Char → Option (Radix × (Char → Bool))
  | 'x' => some (.hexadecimal, fun c =>
      isDigit c || ('a' ≤ c && c ≤ 'f') || ('A' ≤ c && c ≤ 'F') || c == '_')
  | 'b' => some (.binary, fun c => c == '0' || c == '1' || c == '_')
  | 'o' => some (.octal, fun c => ('0' ≤ c && c ≤ '7') || c == '_')
  | _ => none

/-- An integer with a radix mark. -/
def marked? (c : Char) (cs : List Char) : Option Piece :=
  match c, cs with
  | '0', m :: ds =>
      match radixMark? m with
      | some (radix, allowed) =>
          if startsWith allowed ds then some ⟨.integer radix, 2 + runLength allowed ds, none, none⟩
          else none
      | none => none
  | _, _ => none

/-- The length of a fraction: a dot and at least one digit. -/
def fractionLength : List Char → Nat
  | '.' :: ds => if startsWith isDigit ds then 1 + runLength isDigit ds else 0
  | _ => 0

/-- The length of an exponent: its mark, perhaps a sign, and at least one digit. -/
def exponentLength : List Char → Nat
  | m :: ds =>
      if m = 'e' ∨ m = 'E' then
        let sign := if startsWith (fun c => c == '+' || c == '-') ds then 1 else 0
        if startsWith isDigit (ds.drop sign) then 1 + sign + runLength isDigit (ds.drop sign) else 0
      else 0
  | [] => 0

/-- A number of any form. -/
def number? (c : Char) (cs : List Char) : Option Piece :=
  if !isDigit c then none
  else
    match marked? c cs with
    | some piece => some piece
    | none =>
        let whole := runLength isDigit cs
        let fraction := fractionLength (cs.drop whole)
        let exponent := exponentLength (cs.drop (whole + fraction))
        let kind := if fraction + exponent = 0 then TokenKind.integer .decimal else .float
        some ⟨kind, 1 + whole + fraction + exponent, none, none⟩

/-! ## Dollar forms -/

/-- The names of the variables that the language itself sets. -/
def isSpecialName (name : List Char) : Bool :=
  name == ['i', 't'] || name == ['_'] || name == ['e', 'r', 'r']

/-- A variable with its name, where `cs` begins with the name. -/
def variableForm (cs : List Char) : Piece :=
  let name := cs.takeWhile isNameChar
  let field := cs.drop name.length
  if isSpecialName name then ⟨.specialName, 1 + name.length, some name, none⟩
  else if name == ['e', 'n', 'v'] && startsWith (· == '.') field
      && startsWith isNameStart (field.drop 1) then
    let key := (field.drop 1).takeWhile isNameChar
    ⟨.environmentName, 1 + name.length + 1 + key.length, some key, none⟩
  else ⟨.variableName, 1 + name.length, some name, none⟩

/-- What a dollar sign begins. -/
def dollar? (c : Char) (cs : List Char) : Option Piece :=
  if c != '$' then none
  else if startsWith (· == '(') cs then some ⟨.symbol .openSubstitution, 2, none, none⟩
  else if startsWith isNameStart cs then some (variableForm cs)
  else some (bad .missingVariableName 1)

/-! ## Flags and paths -/

/-- A flag, where a word begins. -/
def flag? (c : Char) (cs : List Char) : Option Piece :=
  if c != '-' then none
  else if startsWith (· == '-') cs && startsWith isLetter (cs.drop 1) then
    let name := (cs.drop 1).takeWhile (fun d => isNameChar d || d == '-')
    some ⟨.longFlag, 2 + name.length, some name, none⟩
  else if startsWith isLetter cs then
    let name := cs.takeWhile isLetter
    some ⟨.shortFlag, 1 + name.length, some name, none⟩
  else none

/-- How many characters after the first show that a path begins here, if it does. A digit after a
    star is a product and no path. -/
def pathOpening? (c : Char) (cs : List Char) : Option Nat :=
  match c with
  | '/' =>
      if startsWith (fun d => isNameStart d || ['.', '*', '~'].contains d) cs then some 0 else none
  | '.' =>
      if startsWith (· == '/') cs then some 1
      else if startsWith (· == '.') cs && startsWith (· == '/') (cs.drop 1) then some 2
      else none
  | '~' => some 0
  | '*' =>
      if startsWith (fun d => isNameStart d || ['.', '/', '*'].contains d) cs then some 0 else none
  | _ => none

/-- A path, where a word begins. -/
def path? (c : Char) (cs : List Char) : Option Piece :=
  (pathOpening? c cs).map fun opening =>
    ⟨.path, 1 + opening + runLength isPathChar (cs.drop opening), none, none⟩

/-! ## Names and symbols -/

/-- How many characters go on with a name. A dash belongs to it when a name character follows. -/
def nameLength : List Char → Nat
  | [] => 0
  | c :: cs =>
      if isNameChar c || (c == '-' && startsWith isNameChar cs) then 1 + nameLength cs else 0

/-- Whether the rest of a path can follow a slash. -/
def startsPathSegment (cs : List Char) : Bool :=
  startsWith (fun d => isNameStart d || isDigit d || ['.', '*', '~'].contains d) cs

/-- A keyword, a name, or a path that begins with a name. -/
def word? (c : Char) (cs : List Char) : Option Piece :=
  if !isNameStart c then none
  else
    let more := nameLength cs
    let rest := cs.drop more
    match Keyword.ofText? (String.ofList (c :: cs.take more)) with
    | some k => some ⟨.keyword k, 1 + more, none, none⟩
    | none =>
        if startsWith (· == '/') rest && startsPathSegment (rest.drop 1) then
          some ⟨.path, 1 + more + runLength isPathChar rest, none, none⟩
        else some ⟨.identifier, 1 + more, none, none⟩

/-- A symbol, the longest of those that the text begins with. -/
def symbol? (c : Char) (cs : List Char) : Option Piece :=
  (Symbol.spelled.find? (fun s => s.text.toList.isPrefixOf (c :: cs))).map fun s =>
    ⟨.symbol s, s.text.length, none, none⟩

/-! ## The next piece -/

/-- The piece that a text begins with. Flags and paths are read only where a word can begin. -/
def next (wordStart : Bool) (c : Char) (cs : List Char) : Piece :=
  let shellWord := if wordStart then (flag? c cs).or (path? c cs) else none
  (((((string? c cs).or (number? c cs)).or (dollar? c cs)).or shellWord).or (word? c cs)).or
    (symbol? c cs) |>.getD (bad (.unexpected c) 1)

/-! ## Pieces are not empty -/

private theorem verbatim_length_pos {style opener needle body otherwise}
    (hopener : 0 < opener) (h : 0 < otherwise.length) :
    0 < (verbatim style opener needle body otherwise).length := by
  unfold verbatim
  split
  · exact Nat.add_pos_left (Nat.add_pos_left hopener _) _
  · exact h

private theorem escapedString_length_pos {style delimiter body otherwise}
    (h : 0 < otherwise.length) : 0 < (escapedString style delimiter body otherwise).length := by
  unfold escapedString
  split
  · exact Nat.succ_pos _
  · exact h

private theorem unclosed_length_pos (cs : List Char) : 0 < (unclosed cs).length :=
  Nat.add_pos_left Nat.one_pos _

private theorem string?_length_pos {c cs piece} (h : string? c cs = some piece) :
    0 < piece.length := by
  unfold string? at h
  split at h <;> cases h
  · exact verbatim_length_pos (by decide) (unclosed_length_pos _)
  · exact verbatim_length_pos (by decide) (unclosed_length_pos _)
  · exact verbatim_length_pos (by decide) (unclosed_length_pos _)
  · exact escapedString_length_pos (unclosed_length_pos _)
  · exact escapedString_length_pos (unclosed_length_pos _)

private theorem marked?_length_pos {c cs piece} (h : marked? c cs = some piece) :
    0 < piece.length := by
  unfold marked? at h
  split at h
  · split at h
    · split at h <;> cases h
      exact Nat.add_pos_left (by decide) _
    · cases h
  · cases h

private theorem number?_length_pos {c cs piece} (h : number? c cs = some piece) :
    0 < piece.length := by
  unfold number? at h
  split at h
  · cases h
  · split at h
    · next hm =>
        cases h
        exact marked?_length_pos hm
    · cases h
      simp only
      omega

private theorem variableForm_length_pos (cs : List Char) : 0 < (variableForm cs).length := by
  unfold variableForm
  dsimp only
  split
  · exact Nat.add_pos_left Nat.one_pos _
  · split <;> simp only <;> omega

private theorem dollar?_length_pos {c cs piece} (h : dollar? c cs = some piece) :
    0 < piece.length := by
  unfold dollar? at h
  split at h
  · cases h
  · split at h
    · cases h
      decide
    · split at h <;> cases h
      · exact variableForm_length_pos cs
      · exact Nat.one_pos

private theorem flag?_length_pos {c cs piece} (h : flag? c cs = some piece) : 0 < piece.length := by
  unfold flag? at h
  split at h
  · cases h
  · split at h
    · cases h
      exact Nat.add_pos_left (by decide) _
    · split at h <;> cases h
      exact Nat.add_pos_left Nat.one_pos _

private theorem path?_length_pos {c cs piece} (h : path? c cs = some piece) : 0 < piece.length := by
  obtain ⟨n, _, rfl⟩ := Option.map_eq_some_iff.mp h
  simp only
  omega

private theorem word?_length_pos {c cs piece} (h : word? c cs = some piece) : 0 < piece.length := by
  unfold word? at h
  split at h
  · cases h
  · dsimp only at h
    split at h
    · cases h
      exact Nat.add_pos_left Nat.one_pos _
    · split at h <;> cases h <;> simp only <;> omega

private theorem symbol?_length_pos {c cs piece} (h : symbol? c cs = some piece) :
    0 < piece.length := by
  obtain ⟨s, _, rfl⟩ := Option.map_eq_some_iff.mp h
  cases s <;> decide

private theorem shellWord_length_pos {wordStart : Bool} {c cs piece}
    (h : (if wordStart then (flag? c cs).or (path? c cs) else none) = some piece) :
    0 < piece.length := by
  split at h
  · rcases Option.or_eq_some_iff.mp h with h | ⟨_, h⟩
    · exact flag?_length_pos h
    · exact path?_length_pos h
  · cases h

/-- A piece takes at least one character. -/
theorem next_length_pos (wordStart : Bool) (c : Char) (cs : List Char) :
    0 < (next wordStart c cs).length := by
  unfold next
  dsimp only
  generalize hres : Option.or _ _ = found
  cases found with
  | none => exact Nat.one_pos
  | some piece =>
      rcases Option.or_eq_some_iff.mp hres with hres | ⟨_, h⟩
      · rcases Option.or_eq_some_iff.mp hres with hres | ⟨_, h⟩
        · rcases Option.or_eq_some_iff.mp hres with hres | ⟨_, h⟩
          · rcases Option.or_eq_some_iff.mp hres with hres | ⟨_, h⟩
            · rcases Option.or_eq_some_iff.mp hres with h | ⟨_, h⟩
              · exact string?_length_pos h
              · exact number?_length_pos h
            · exact dollar?_length_pos h
          · exact shellWord_length_pos h
        · exact word?_length_pos h
      · exact symbol?_length_pos h

end Piece

end ShellFront
