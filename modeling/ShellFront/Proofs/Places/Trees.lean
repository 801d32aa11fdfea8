import ShellFront.Proofs.Tree.Seen

/-!
# The places of a tree that is seen

Node for node, the tree that is seen stands where the places of the tree are seen to be, so what a view does to places
can be read off the outlines.

## Contents
- `Outline.places`, the places of all nodes.
- `Moved` and how it is put together.
- `View.placing`, the view that shows places only.
- `Seen.moved`: where the nodes of a tree stand that is seen.
-/

namespace ShellFront

/-! ## The places of trees -/

/-- The places of all nodes in trees, each before those below it. -/
def Outline.places (ts : List Outline) : List Span := (preorders ts).map span

@[simp] theorem Outline.places_append (ts us : List Outline) : places (ts ++ us) = places ts ++ places us := by
  rw [places, preorders_append, List.map_append]
  rfl

theorem Outline.places_mk (kind : NodeKind) (span : Span) (attributes : List (String × Attribute))
    (ts : List Outline) : places [mk kind span attributes ts] = span :: places ts := by
  rw [places, preorders, preorders, List.append_nil, preorder]
  rfl

/-- Trees are **moved**: node for node, the new ones stand where the places of the old ones are taken to. -/
def Moved (place : Span → Span) (ts us : List Outline) : Prop := Outline.places us = (Outline.places ts).map place

namespace Moved

variable {place : Span → Span} {ts us ts' us' : List Outline} {kind kind' : NodeKind} {span : Span}
  {attributes attributes' : List (String × Attribute)}

theorem nil : Moved place [] [] := rfl

theorem append (h : Moved place ts us) (h' : Moved place ts' us') : Moved place (ts ++ ts') (us ++ us') := by
  unfold Moved at *
  rw [Outline.places_append, Outline.places_append, h, h', List.map_append]

/-- A node over trees that are moved. -/
theorem node (h : Moved place ts us) :
    Moved place [.mk kind span attributes ts] [.mk kind' (place span) attributes' us] := by
  unfold Moved at *
  rw [Outline.places_mk, Outline.places_mk, h, List.map_cons]

theorem leaf : Moved place [.mk kind span attributes []] [.mk kind' (place span) attributes' []] := node nil

end Moved

/-- The view that shows places only, and takes them elsewhere. -/
def View.placing (place : Span → Span) : View := ⟨place, fun _ => "", fun _ _ flag => flag, false⟩

/-- **The nodes of a tree that is seen stand where its places are seen.** -/
theorem Seen.moved {g : View} {ts us : List Outline} (h : Seen g ts us) (hbare : g.bare = false) :
    Moved g.span ts us := by
  induction h with
  | nil => exact .nil
  | append _ _ ih ih' => exact ih.append ih'
  | command c => exact .leaf
  | broken => exact .leaf
  | bare _ h =>
      rw [hbare] at h
      contradiction
  | node _ _ ih => exact ih.node

end ShellFront
