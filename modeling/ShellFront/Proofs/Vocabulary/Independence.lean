import ShellFront.Proofs.Twins.Scripts
import ShellFront.Proofs.Vocabulary.Acceptance
import ShellFront.Proofs.Vocabulary.Labels

/-!
# Vocabularies and parsing

Which commands are built in is looked up in the middle of parsing, while readings are tried out and taken back,
and errors are recovered from. All the same it shows in the labels of commands only: a script and its twin, the
same script read with another vocabulary, are alike but for them. And the labels are those of the vocabulary,
since a view that puts them on changes nothing.

## Contents
- `parse_labels`: the labels of commands.
- `parse_vocabulary`: two vocabularies, one script.
-/

namespace ShellFront

/-- The names of commands in a tree are said to be built in just if they have no namespace and are listed. -/
def Outline.Labels (t : Outline) (vocabulary : Vocabulary) : Prop :=
  ∀ u ∈ t.walk, u.kind = .commandName ∨ u.kind = .builtinCommand →
    ∃ c : CommandName, u = c.outline ∧
      (c.builtin = true ↔ c.qualifier = none ∧ vocabulary.Lists c.name)

/-- **The labels of commands are those of the vocabulary.** -/
theorem parse_labels (source file : String) (failFast : Bool) (vocabulary : Vocabulary) :
    (parse source file failFast vocabulary.isBuiltin).program.outline.Labels vocabulary := by
  obtain ⟨hseen, -⟩ := parse_seen (.labelled vocabulary.isBuiltin) .plain vocabulary.isBuiltin
    vocabulary.isBuiltin ⟨rfl, rfl⟩ ⟨rfl, rfl⟩ (fun _ => rfl) (fun _ _ => rfl) source file failFast
  generalize (parse source file failFast vocabulary.isBuiltin).program = p at hseen ⊢
  rw [List.map_id'' Node.view_plain] at hseen
  have htold : Told vocabulary.isBuiltin p.outline := by
    rw [Program.outline, ← hseen, ← Node.views_eq]
    exact labelled_mk rfl (Node.views_seen p.statements).labelled
  intro u hu hkind
  rw [Outline.walk_eq_preorder] at hu
  obtain ⟨c, rfl, hc⟩ := htold u hu hkind
  refine ⟨c, rfl, ?_⟩
  rw [hc, Bool.and_eq_true, Option.isNone_iff_eq_none, vocabulary.isBuiltin_iff]

/-- **The vocabulary does not influence parsing.** Under two vocabularies, the same is reported about a script and
    its programs are the same but for what they say of commands, which is what each vocabulary says. Resolving
    their names gives the same bindings, scopes, references and warnings, but for the labels in the places of
    references. -/
theorem parse_vocabulary (source file : String) (failFast : Bool) (vocabulary vocabulary' : Vocabulary) :
    let parsed := parse source file failFast vocabulary.isBuiltin
    let parsed' := parse source file failFast vocabulary'.isBuiltin
    parsed.report = parsed'.report ∧ parsed.program.unlabelled = parsed'.program.unlabelled ∧
      parsed.program.outline.Labels vocabulary ∧ parsed'.program.outline.Labels vocabulary' ∧
      ∀ report, (resolve parsed.program report).table.unlabelled = (resolve parsed'.program report).table.unlabelled ∧
        (resolve parsed.program report).report = (resolve parsed'.program report).report := by
  obtain ⟨hstatements, hspan, hfile, hreport⟩ := parse_seen .unlabelled .unlabelled vocabulary.isBuiltin
    vocabulary'.isBuiltin ⟨rfl, rfl⟩ ⟨rfl, rfl⟩ (fun _ => rfl) (fun _ _ => rfl) source file failFast
  have hsame : (parse source file failFast vocabulary.isBuiltin).program.unlabelled =
      (parse source file failFast vocabulary'.isBuiltin).program.unlabelled := by
    rw [Program.unlabelled, Program.unlabelled, hstatements, hspan, hfile]
  exact ⟨hreport, hsame, parse_labels source file failFast _, parse_labels source file failFast _,
    resolve_unlabelled hsame⟩

end ShellFront
