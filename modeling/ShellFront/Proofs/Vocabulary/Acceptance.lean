import Mathlib.Data.List.Forall2
import Mathlib.Data.List.TakeWhile
import ShellFront.Vocabulary.Schema

/-!
# Which documents are vocabularies

What a document has to be like to be read as a vocabulary, said without the search for violations: which fields its
records have, what they hold, and how texts in it look. Each check finds nothing wrong just where the value is as it has
to be, so that a document is accepted when it describes a vocabulary, and then this is the vocabulary that is read; any
other document is refused because of something that is wrong with it.

## Contents
- `TextForm.Describes` and `TextForm.admits_iff`: how texts look, with a line end after them or not.
- `Document.IsCategory`, `Document.Describes`: documents and what they describe.
- One lemma for each check, up to `Document.violations_eq_nil_iff`.
- `CommandCategory.getElem?_enter`, `Vocabulary.Lists`, `Vocabulary.category?_eq_some_iff`: which commands are built
  in, and where they belong.
- `Vocabulary.load_describes`.
-/

namespace ShellFront

/-! ## Forms of texts -/

namespace TextForm

variable {text body : List Char}

/-- What the texts of a form look like. -/
def Describes (text : List Char) : TextForm → Prop
  | version =>
      ∃ major minor, text = major ++ '.' :: minor ∧ major ≠ [] ∧ minor ≠ [] ∧
        (∀ c ∈ major, c.isDigit = true) ∧ ∀ c ∈ minor, c.isDigit = true
  | categoryName =>
      ∃ first more, text = first :: more ∧ first.isLower = true ∧
        ∀ c ∈ more, c.isLower = true ∨ c.isDigit = true ∨ c = '_'
  | commandName =>
      ∃ first more, text = first :: more ∧ (first.isAlpha = true ∨ first = '_') ∧
        ∀ c ∈ more, c.isAlpha = true ∨ c.isDigit = true ∨ c = '_' ∨ c = '-'

theorem isVersion_iff : isVersion text = true ↔ version.Describes text := by
  rw [isVersion, Describes]
  constructor
  · intro h
    split at h
    · next minor hrest =>
        simp only [Bool.and_eq_true, Bool.not_eq_true', List.isEmpty_eq_false_iff, List.all_eq_true] at h
        refine ⟨text.takeWhile Char.isDigit, minor, ?_, h.1.1, h.1.2, fun c hc => List.mem_takeWhile_imp hc, h.2⟩
        rw [← hrest, List.prefix_iff_eq_append.mp (List.takeWhile_prefix _)]
    · contradiction
  · rintro ⟨major, minor, rfl, hmajor, hminor, hdigits, hmore⟩
    -- the dot is no digit, so that the run of digits ends there
    have hrun : (major ++ '.' :: minor).takeWhile Char.isDigit = major := by
      rw [List.takeWhile_append_of_pos hdigits, List.takeWhile_cons_of_neg (by decide), List.append_nil]
    rw [hrun, List.drop_left]
    simp only [Bool.and_eq_true, Bool.not_eq_true', List.isEmpty_eq_false_iff, List.all_eq_true]
    exact ⟨⟨hmajor, hminor⟩, hmore⟩

theorem isWord_iff {first other : Char → Bool} :
    isWord first other text = true ↔ ∃ c cs, text = c :: cs ∧ first c = true ∧ ∀ d ∈ cs, other d = true := by
  cases text with
  | nil => simp [isWord]
  | cons c cs =>
      rw [isWord, Bool.and_eq_true, List.all_eq_true]
      constructor
      · rintro ⟨hc, hcs⟩
        exact ⟨c, cs, rfl, hc, hcs⟩
      · rintro ⟨_, _, h, hc, hcs⟩
        obtain ⟨rfl, rfl⟩ := List.cons_eq_cons.mp h
        exact ⟨hc, hcs⟩

theorem holds_iff {form : TextForm} : form.holds text = true ↔ form.Describes text := by
  cases form with
  | version => exact isVersion_iff
  | categoryName =>
      rw [holds, isWord_iff, Describes]
      simp only [Bool.or_eq_true, beq_iff_eq, or_assoc]
  | commandName =>
      rw [holds, isWord_iff, Describes]
      simp only [Char.isAlphanum, Bool.or_eq_true, beq_iff_eq, or_assoc]

/-- No text of any form has a line end in it. -/
theorem Describes.no_lineEnd {form : TextForm} (h : form.Describes text) : '\n' ∉ text := by
  cases form with
  | version =>
      obtain ⟨major, minor, rfl, -, -, hmajor, hminor⟩ := h
      simp only [List.mem_append, List.mem_cons, not_or]
      exact ⟨fun hmem => absurd (hmajor _ hmem) (by decide), by decide, fun hmem => absurd (hminor _ hmem) (by decide)⟩
  | categoryName =>
      obtain ⟨first, more, rfl, hfirst, hmore⟩ := h
      rw [List.mem_cons, not_or]
      exact ⟨fun heq => absurd (heq ▸ hfirst) (by decide), fun hmem => absurd (hmore _ hmem) (by decide)⟩
  | commandName =>
      obtain ⟨first, more, rfl, hfirst, hmore⟩ := h
      rw [List.mem_cons, not_or]
      exact ⟨fun heq => absurd (heq ▸ hfirst) (by decide), fun hmem => absurd (hmore _ hmem) (by decide)⟩

/-- **A form admits the texts that look like it**, and those with a line end more. -/
theorem admits_iff {form : TextForm} {text : String} :
    form.admits text = true ↔
      ∃ body, form.Describes body ∧ (text.toList = body ∨ text.toList = body ++ ['\n']) := by
  rw [admits, holds_iff, withoutLineEnd]
  constructor
  · intro h
    split at h
    · next hlast =>
        obtain ⟨body, hbody⟩ := List.getLast?_eq_some_iff.mp (eq_of_beq hlast)
        rw [hbody, List.dropLast_concat] at h
        exact ⟨body, h, .inr hbody⟩
    · exact ⟨text.toList, h, .inl rfl⟩
  · rintro ⟨body, hbody, htext | htext⟩
    -- a text of the form does not itself end with a line end
    · have hlast : ¬ (text.toList.getLast? == some '\n') = true := fun heq =>
        hbody.no_lineEnd (htext ▸ List.mem_of_getLast? (eq_of_beq heq))
      rwa [if_neg hlast, htext]
    · rwa [htext, List.getLast?_concat, if_pos (beq_self_eq_true _), List.dropLast_concat]

end TextForm

/-! ## Documents that describe vocabularies -/

namespace Document

/-- A text has a form, perhaps with a line end after it. -/
def IsText (form : TextForm) (s : String) : Prop :=
  ∃ body, form.Describes body ∧ (s.toList = body ∨ s.toList = body ++ ['\n'])

/-- A record with some fields is a category that lists some commands. -/
structure IsCategory (fields : List (String × Document)) (names : List String) : Prop where
  keys : ∀ key ∈ fields.map Prod.fst, key = "description" ∨ key = "commands"
  description : ∀ value, fields.lookup "description" = some value → ∃ s, value = text s
  commands : fields.lookup "commands" = some (list (names.map text))
  nonempty : names ≠ []
  distinct : names.Nodup
  form : ∀ name ∈ names, IsText .commandName name

/-- A field is a category by its name. -/
structure IsEntry (entry : String × Document) (category : CommandCategory) : Prop where
  name : entry.1 = category.name
  form : IsText .categoryName entry.1
  commands : ∃ fields, entry.2 = record fields ∧ IsCategory fields category.commands

/-- A record with some fields is a vocabulary. -/
structure IsVocabulary (fields : List (String × Document)) (v : Vocabulary) : Prop where
  keys : ∀ key ∈ fields.map Prod.fst, key = "version" ∨ key = "interpreter" ∨ key = "categories"
  version : fields.lookup "version" = some (text v.version)
  form : IsText .version v.version
  interpreter : ∀ value, fields.lookup "interpreter" = some value → ∃ s, value = text s
  categories : ∃ entries, fields.lookup "categories" = some (record entries) ∧ List.Forall₂ IsEntry entries v.categories
  nonempty : v.categories ≠ []

/-- A document **describes** a vocabulary if it is a record that is this vocabulary. -/
def Describes (d : Document) (v : Vocabulary) : Prop := ∃ fields, d = record fields ∧ IsVocabulary fields v

/-! ## Checks -/

variable {d value : Document} {fields : List (String × Document)} {form : TextForm} {name : String}

theorem flawIf_eq_nil_iff {condition : Bool} {flaw : Flaw} : flawIf condition flaw = [] ↔ condition = false := by
  cases condition <;> simp [flawIf]

theorem textViolations_eq_nil_iff : d.textViolations = [] ↔ ∃ s, d = text s := by
  cases d <;> simp [textViolations]

theorem formViolations_eq_nil_iff : formViolations form d = [] ↔ ∃ s, d = text s ∧ IsText form s := by
  cases d with
  | text s => simp [formViolations, flawIf_eq_nil_iff, TextForm.admits_iff, IsText]
  | _ => simp [formViolations, textViolations]

theorem fieldViolations_eq_nil_iff {check : Document → List Violation} :
    fieldViolations fields name check = [] ↔ ∀ value, fields.lookup name = some value → check value = [] := by
  rw [fieldViolations]
  cases fields.lookup name <;> simp

theorem keyViolations_eq_nil_iff {required allowed keys : List String} :
    keyViolations required allowed keys = [] ↔ (∀ key ∈ required, key ∈ keys) ∧ ∀ key ∈ keys, key ∈ allowed := by
  rw [keyViolations, List.append_eq_nil_iff, List.map_eq_nil_iff, List.filter_eq_nil_iff, flawIf_eq_nil_iff,
    Bool.not_eq_false', List.isEmpty_iff, List.filter_eq_nil_iff]
  simp only [Bool.not_eq_true', Bool.not_eq_false, List.contains_iff_mem]

theorem mem_keys_iff : name ∈ fields.map Prod.fst ↔ ∃ value, fields.lookup name = some value := by
  rw [← Option.isSome_iff_exists, List.lookup_isSome_iff, List.mem_map]
  exact exists_congr fun p => and_congr_right fun _ => eq_comm.trans beq_iff_eq.symm

theorem same_text (s s' : String) : same (text s) (text s') = (s == s') := by rw [same]

theorem hasRepeats_texts {names : List String} : hasRepeats (names.map text) = false ↔ names.Nodup := by
  induction names with
  | nil => simp [hasRepeats]
  | cons name names ih =>
      rw [List.map_cons, hasRepeats, Bool.or_eq_false_iff, ih, List.nodup_cons, List.any_eq_false]
      refine and_congr_left fun _ => ⟨fun h hmem => ?_, fun h d hd heq => ?_⟩
      · exact h (text name) (List.mem_map_of_mem hmem) (by rw [same_text, beq_self_eq_true])
      · obtain ⟨s, hs, rfl⟩ := List.mem_map.mp hd
        rw [same_text, beq_iff_eq] at heq
        exact h (heq ▸ hs)

/-- Each of some values is a text just if they are the texts of a list. -/
theorem exists_texts_iff {elements : List Document} :
    (∀ d ∈ elements, ∃ s, d = text s ∧ IsText form s) ↔
      ∃ names : List String, elements = names.map text ∧ ∀ name ∈ names, IsText form name := by
  constructor
  · intro h
    induction elements with
    | nil => exact ⟨[], rfl, by simp⟩
    | cons d elements ih =>
        obtain ⟨⟨s, rfl, hs⟩, hrest⟩ := List.forall_mem_cons.mp h
        obtain ⟨names, rfl, hnames⟩ := ih hrest
        exact ⟨s :: names, rfl, List.forall_mem_cons.mpr ⟨hs, hnames⟩⟩
  · rintro ⟨names, rfl, hnames⟩
    exact List.forall_mem_map.mpr fun s hs => ⟨s, rfl, hnames s hs⟩

/-- A list has the commands of a category just if nothing is wrong with it. -/
theorem commandViolations_eq_nil_iff :
    d.commandViolations = [] ↔ ∃ names : List String, d = list (names.map text) ∧ names ≠ [] ∧ names.Nodup ∧
      ∀ name ∈ names, IsText .commandName name := by
  cases d with
  | list elements =>
      have hzip : (∀ e ∈ elements.zipIdx, (e.1.formViolations .commandName).map (Violation.below (.index e.2)) = []) ↔
          ∀ e ∈ elements, ∃ s, e = text s ∧ IsText .commandName s := by
        simp only [List.map_eq_nil_iff, formViolations_eq_nil_iff]
        rw [← List.forall_mem_map (f := Prod.fst) (P := fun e => ∃ s, e = text s ∧ IsText .commandName s)]
        rw [List.zipIdx_map_fst]
      rw [commandViolations, List.append_eq_nil_iff, List.append_eq_nil_iff, flawIf_eq_nil_iff, flawIf_eq_nil_iff,
        List.flatMap_eq_nil_iff, hzip, exists_texts_iff, List.isEmpty_eq_false_iff]
      constructor
      · rintro ⟨⟨hne, hrepeats⟩, names, rfl, hnames⟩
        exact ⟨names, rfl, fun h => hne (h ▸ rfl), hasRepeats_texts.mp hrepeats, hnames⟩
      · rintro ⟨names, h, hne, hdistinct, hnames⟩
        cases h
        exact ⟨⟨fun h => hne (List.map_eq_nil_iff.mp h), hasRepeats_texts.mpr hdistinct⟩, names, rfl, hnames⟩
  | _ => simp [commandViolations]

theorem categoryViolations_eq_nil_iff :
    d.categoryViolations = [] ↔ ∃ fields names, d = record fields ∧ IsCategory fields names := by
  cases d with
  | record fields =>
      rw [categoryViolations, List.append_eq_nil_iff, List.append_eq_nil_iff, keyViolations_eq_nil_iff,
        fieldViolations_eq_nil_iff, fieldViolations_eq_nil_iff, List.forall_mem_singleton, mem_keys_iff]
      simp only [textViolations_eq_nil_iff, commandViolations_eq_nil_iff, List.mem_cons, List.not_mem_nil, or_false]
      constructor
      · rintro ⟨⟨⟨⟨value, hvalue⟩, hkeys⟩, hdescription⟩, hcommands⟩
        obtain ⟨names, rfl, hne, hdistinct, hform⟩ := hcommands value hvalue
        exact ⟨fields, names, rfl, hkeys, hdescription, hvalue, hne,
          hdistinct, hform⟩
      · rintro ⟨fields', names, heq, h⟩
        cases heq
        refine ⟨⟨⟨⟨_, h.commands⟩, h.keys⟩, h.description⟩, ?_⟩
        intro value hvalue
        obtain rfl := Option.some.inj (h.commands.symm.trans hvalue)
        exact ⟨names, rfl, h.nonempty, h.distinct, h.form⟩
  | _ => simp [categoryViolations]

/-- The commands that are read from a category are those that it lists. -/
theorem IsCategory.commandNames_eq {names : List String} (h : IsCategory fields names) :
    (record fields).commandNames = names := by
  rw [commandNames, field?, h.commands]
  exact (List.map_map ..).trans (List.map_id _)

/-- The category that is read from a field. -/
def category (entry : String × Document) : CommandCategory := ⟨entry.1, entry.2.commandNames⟩

theorem IsEntry.category_eq {entry : String × Document} {c : CommandCategory} (h : IsEntry entry c) :
    category entry = c := by
  obtain ⟨fields, hrecord, hcategory⟩ := h.commands
  rw [category, hrecord, hcategory.commandNames_eq, h.name]

/-- Fields are categories if each is the one that is read from it. -/
theorem isEntries_iff {entries : List (String × Document)} {categories : List CommandCategory} :
    List.Forall₂ IsEntry entries categories ↔
      entries.map category = categories ∧ ∀ entry ∈ entries, IsEntry entry (category entry) := by
  constructor
  · intro h
    obtain rfl : entries.map category = categories := by
      rw [← List.forall₂_eq_eq_eq, List.forall₂_map_left_iff]
      exact h.imp fun _ _ => IsEntry.category_eq
    exact ⟨rfl, List.forall₂_same.mp (List.forall₂_map_right_iff.mp h)⟩
  · rintro ⟨rfl, h⟩
    exact List.forall₂_map_right_iff.mpr (List.forall₂_same.mpr h)

theorem isEntry_category_iff {entry : String × Document} :
    IsEntry entry (category entry) ↔ formViolations .categoryName (text entry.1) = [] ∧
      entry.2.categoryViolations = [] := by
  rw [formViolations_eq_nil_iff, categoryViolations_eq_nil_iff]
  constructor
  · intro h
    obtain ⟨fields, hrecord, hcategory⟩ := h.commands
    exact ⟨⟨entry.1, rfl, h.form⟩, fields, _, hrecord, hcategory⟩
  · rintro ⟨⟨s, hs, hform⟩, fields, names, hrecord, hcategory⟩
    cases hs
    refine ⟨rfl, hform, fields, hrecord, ?_⟩
    rwa [category, hrecord, hcategory.commandNames_eq]

theorem categoriesViolations_eq_nil_iff :
    d.categoriesViolations = [] ↔
      ∃ entries categories, d = record entries ∧ List.Forall₂ IsEntry entries categories ∧ categories ≠ [] := by
  cases d with
  | record entries =>
      rw [categoriesViolations, List.append_eq_nil_iff, List.append_eq_nil_iff, flawIf_eq_nil_iff,
        List.flatMap_eq_nil_iff, List.flatMap_eq_nil_iff, List.isEmpty_eq_false_iff]
      -- the categories are the ones that are read, if there are any
      simp only [List.map_eq_nil_iff, isEntries_iff, isEntry_category_iff, forall₂_and]
      constructor
      · rintro ⟨⟨hne, hnames⟩, hentries⟩
        exact ⟨entries, _, rfl, ⟨rfl, hnames, hentries⟩, fun h => hne (List.map_eq_nil_iff.mp h)⟩
      · rintro ⟨_, _, heq, ⟨rfl, hnames, hentries⟩, hne⟩
        cases heq
        exact ⟨⟨fun h => hne (h ▸ rfl), hnames⟩, hentries⟩
  | _ => simp [categoriesViolations]

/-- **A document has nothing wrong with it just if it describes a vocabulary.** -/
theorem violations_eq_nil_iff : d.violations = [] ↔ ∃ v, d.Describes v := by
  cases d with
  | record fields =>
      rw [violations, List.append_eq_nil_iff, List.append_eq_nil_iff, List.append_eq_nil_iff, keyViolations_eq_nil_iff,
        fieldViolations_eq_nil_iff, fieldViolations_eq_nil_iff, fieldViolations_eq_nil_iff, List.forall_mem_cons,
        List.forall_mem_singleton, mem_keys_iff, mem_keys_iff]
      simp only [formViolations_eq_nil_iff, textViolations_eq_nil_iff, categoriesViolations_eq_nil_iff, List.mem_cons,
        List.not_mem_nil, or_false]
      constructor
      · rintro ⟨⟨⟨⟨⟨⟨version, hversion⟩, ⟨value, hvalue⟩⟩, hkeys⟩, hform⟩, hinterpreter⟩, hcategories⟩
        obtain ⟨s, rfl, hs⟩ := hform version hversion
        obtain ⟨entries, categories, rfl, hentries, hne⟩ := hcategories value hvalue
        exact ⟨⟨s, categories⟩, fields, rfl, hkeys, hversion, hs, hinterpreter, ⟨entries, hvalue, hentries⟩, hne⟩
      · rintro ⟨v, fields', heq, h⟩
        cases heq
        obtain ⟨entries, hvalue, hentries⟩ := h.categories
        refine ⟨⟨⟨⟨⟨⟨_, h.version⟩, ⟨_, hvalue⟩⟩, h.keys⟩, ?_⟩, h.interpreter⟩, ?_⟩
        · intro value hversion
          obtain rfl := Option.some.inj (h.version.symm.trans hversion)
          exact ⟨_, rfl, h.form⟩
        · intro value hcategories
          obtain rfl := Option.some.inj (hvalue.symm.trans hcategories)
          exact ⟨entries, _, rfl, hentries, h.nonempty⟩
  | _ => simp [violations, Describes]

/-- What is read from a document that describes a vocabulary is this vocabulary. -/
theorem Describes.vocabulary_eq {v : Vocabulary} (h : d.Describes v) : d.vocabulary = v := by
  obtain ⟨fields, rfl, h⟩ := h
  obtain ⟨entries, hvalue, hentries⟩ := h.categories
  have hcategories := (isEntries_iff.mp hentries).1
  rw [vocabulary, field?, field?, h.version, hvalue]
  exact congrArg (Vocabulary.mk v.version) hcategories

end Document

/-! ## Categories of commands -/

namespace CommandCategory

variable (table : Std.HashMap String String) (category : CommandCategory) (command : String)

/-- One command is entered: those that are in a table keep their category. -/
theorem getElem?_insertIfNew (new name : String) : (table.insertIfNew new name)[command]? =
    table[command]?.or (if new = command then some name else none) := by
  rw [Std.HashMap.getElem?_insertIfNew]
  by_cases hnew : new = command
  · subst hnew
    cases hold : table[new]? with
    | none =>
        have hmem : new ∉ table := by simp [Std.HashMap.mem_iff_isSome_getElem?, hold]
        simp [hmem]
    | some old =>
        have hmem : new ∈ table := by simp [Std.HashMap.mem_iff_isSome_getElem?, hold]
        simp [hmem]
  · simp [hnew]

/-- A category is entered: the commands that had none get this one. -/
theorem getElem?_enter : (enter table category)[command]? =
    table[command]?.or (if command ∈ category.commands then some category.name else none) := by
  rw [enter]
  induction category.commands generalizing table with
  | nil => simp
  | cons first rest ih =>
      rw [List.foldl_cons, ih, getElem?_insertIfNew, Option.or_assoc]
      by_cases hfirst : first = command
      · simp [hfirst]
      · simp [hfirst, Ne.symm hfirst]

/-- Categories are entered one after the other: a command gets the first one that lists it. -/
theorem getElem?_foldl_enter (categories : List CommandCategory) : (categories.foldl enter table)[command]? =
    table[command]?.or ((categories.find? fun c => c.commands.contains command).map name) := by
  induction categories generalizing table with
  | nil => simp
  | cons first rest ih =>
      rw [List.foldl_cons, ih, getElem?_enter, Option.or_assoc]
      by_cases hfirst : command ∈ first.commands
      · simp [hfirst]
      · simp [hfirst]

end CommandCategory

namespace Vocabulary

/-- A command is listed in some category of a vocabulary. -/
def Lists (vocabulary : Vocabulary) (command : String) : Prop :=
  ∃ category ∈ vocabulary.categories, command ∈ category.commands

variable {v : Vocabulary} {command category : String}

/-- The category that the table has for a command is that of the first category that lists it. -/
theorem category?_eq_find? : v.category? command =
    (v.categories.find? fun c => c.commands.contains command).map CommandCategory.name := by
  rw [category?, table, CommandCategory.getElem?_foldl_enter, Std.HashMap.getElem?_empty, Option.none_or]

/-- The commands that are built in are those that are listed. -/
theorem isBuiltin_iff (v : Vocabulary) (command : String) : v.isBuiltin command = true ↔ v.Lists command := by
  have hcontains : v.isBuiltin command = (v.category? command).isSome := Std.HashMap.contains_eq_isSome_getElem?
  rw [hcontains, category?_eq_find?, Option.isSome_map, List.find?_isSome]
  exact exists_congr fun category => and_congr_right fun _ => List.contains_iff_mem

/-- The category of a command is the first one that lists it. -/
theorem category?_eq_some_iff :
    v.category? command = some category ↔
      ∃ before c after, v.categories = before ++ c :: after ∧ c.name = category ∧ command ∈ c.commands ∧
        ∀ b ∈ before, command ∉ b.commands := by
  rw [category?_eq_find?, Option.map_eq_some_iff]
  simp only [List.find?_eq_some_iff_append, List.contains_iff_mem, Bool.not_eq_true', ← Bool.not_eq_true]
  constructor
  · rintro ⟨c, ⟨hmem, before, after, hsplit, hbefore⟩, rfl⟩
    exact ⟨before, c, after, hsplit, rfl, hmem, hbefore⟩
  · rintro ⟨before, c, after, hsplit, rfl, hmem, hbefore⟩
    exact ⟨c, ⟨hmem, before, after, hsplit, hbefore⟩, rfl⟩

end Vocabulary

/-! ## Reading -/

theorem Violation.foremost?_eq_none_iff {violations : List Violation} :
    foremost? violations = none ↔ violations = [] := by
  cases violations <;> simp [foremost?]

/-- The violation that is reported is one of those that were found. -/
theorem Violation.mem_of_foremost? {violations : List Violation} {v : Violation} (h : foremost? violations = some v) :
    v ∈ violations := by
  cases violations with
  | nil => cases h
  | cons first more =>
      rw [foremost?, Option.some.injEq] at h
      subst h
      -- The best so far is one of those that were looked at.
      induction more generalizing first with
      | nil => exact List.mem_singleton_self _
      | cons next more ih =>
          rw [List.foldl_cons]
          split
          · exact List.mem_cons_of_mem _ (ih next)
          · exact List.cons_subset_cons first (List.subset_cons_self next more) (ih first)

namespace Vocabulary

/-- **The documents that are accepted are those that describe a vocabulary**, which is the one that is read. Any
other is refused for something that is wrong with it. The commands that are built in are those that some category
lists, and each belongs to the first category that does. -/
theorem load_describes (file : String) (d : Document) :
    (∀ v, Vocabulary.load file (some d) = .ok v ↔ d.Describes v) ∧
      ((¬ ∃ v, d.Describes v) →
        ∃ violation ∈ d.violations, Vocabulary.load file (some d) = .error (.refused file violation)) ∧
      ∀ v, Vocabulary.load file (some d) = .ok v → ∀ command : String,
        (v.isBuiltin command = true ↔ v.Lists command) ∧
          ∀ category, v.category? command = some category ↔
            ∃ before c after, v.categories = before ++ c :: after ∧ c.name = category ∧ command ∈ c.commands ∧
              ∀ b ∈ before, command ∉ b.commands := by
  refine ⟨fun v => ?_, fun hnone => ?_, fun v _ command => ⟨v.isBuiltin_iff command, fun _ => category?_eq_some_iff⟩⟩
  · rw [Vocabulary.load]
    constructor
    · intro h
      split at h
      · cases h
      · next hforemost =>
          obtain ⟨w, hw⟩ := Document.violations_eq_nil_iff.mp (Violation.foremost?_eq_none_iff.mp hforemost)
          cases h
          rwa [hw.vocabulary_eq]
    · intro h
      rw [Violation.foremost?_eq_none_iff.mpr (Document.violations_eq_nil_iff.mpr ⟨v, h⟩), h.vocabulary_eq]
  · rw [← Document.violations_eq_nil_iff, ← Violation.foremost?_eq_none_iff] at hnone
    obtain ⟨violation, hviolation⟩ := Option.ne_none_iff_exists'.mp hnone
    exact ⟨violation, Violation.mem_of_foremost? hviolation, by rw [Vocabulary.load, hviolation]⟩

/-- A line end may follow a text that has to have a form. -/
theorem load_describes_line_end :
    (Document.record [("version", .text "1.0\n"), ("categories", .record
      [("files", .record [("commands", .list [.text "ls", .text "cp"])])])]).Describes
      ⟨"1.0\n", [⟨"files", ["ls", "cp"]⟩]⟩ :=
  ((load_describes "vocabulary" _).1 _).mp (by rfl)

end Vocabulary

end ShellFront
