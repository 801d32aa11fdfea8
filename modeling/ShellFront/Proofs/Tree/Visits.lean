import ShellFront.CommandLine.Check
import ShellFront.Proofs.Tree.Outlined
import ShellFront.Proofs.Written.Numbers

/-!
# Walks and listings visit the same nodes

A node of a tree is found by the way to it from the root: which child to go to, and which child of that, and so on. No
two nodes have one way, even where their subtrees are equal, and ways are in the order of the source when they are in
the order of words. The walk, which keeps a stack of trees, meets every way once and in this order; so does the listing,
which goes down the tree by recursion, and indents each line by the length of the way. Only integers that are too long
to be written out keep a tree from being listed.

## Contents
- `Outline.visits`, all nodes with the ways to them.
- `Outline.visits_sorted`, `Outline.mem_visits`: every way once, and in order.
- `Outline.preorder_eq_visits`, `Outline.listingAt_eq_visits`.
- `Outline.walk_listing`.
- `Outline.checkText_spelling`: numbers that are too long to be listed.
-/

namespace ShellFront

namespace Outline

/-! ## All nodes with their ways -/

mutual

/-- All nodes of a tree, each with the way to it. -/
def visits : Outline → List (List Nat × Outline)
  | mk kind span attributes children =>
      ([], mk kind span attributes children) :: visitsFrom 0 children

/-- All nodes of trees, where the first tree is the child with some number. -/
def visitsFrom (i : Nat) : List Outline → List (List Nat × Outline)
  | [] => []
  | t :: ts => t.visits.map (fun (way, u) => (i :: way, u)) ++ visitsFrom (i + 1) ts

end

theorem visits_eq (t : Outline) : t.visits = ([], t) :: visitsFrom 0 t.children := by
  cases t
  rw [visits, children]

/-- A way into one of some trees goes to one of them and on from there. -/
theorem mem_visitsFrom {ts : List Outline} {i : Nat} {way : List Nat} {u : Outline} :
    (way, u) ∈ visitsFrom i ts ↔ ∃ j rest t, way = (i + j) :: rest ∧ ts[j]? = some t ∧ (rest, u) ∈ t.visits := by
  induction ts generalizing i with
  | nil => simp [visitsFrom]
  | cons t ts ih =>
      rw [visitsFrom, List.mem_append, List.mem_map, ih]
      constructor
      · rintro (⟨⟨rest, v⟩, hmem, heq⟩ | ⟨j, rest, v, rfl, hj, hmem⟩)
        · obtain ⟨rfl, rfl⟩ := Prod.mk.inj heq
          exact ⟨0, rest, t, rfl, rfl, hmem⟩
        · exact ⟨j + 1, rest, v, by rw [Nat.add_right_comm, Nat.add_assoc], hj, hmem⟩
      · rintro ⟨_ | j, rest, v, rfl, hj, hmem⟩
        · obtain rfl : t = v := Option.some.inj hj
          exact .inl ⟨(rest, u), hmem, rfl⟩
        · exact .inr ⟨j, rest, v, by rw [Nat.add_right_comm, Nat.add_assoc], hj, hmem⟩

/-- **The nodes that are visited are those at the ends of ways.** -/
theorem mem_visits {t u : Outline} {way : List Nat} : (way, u) ∈ t.visits ↔ t.at? way = some u := by
  induction way generalizing t with
  | nil =>
      rw [visits_eq, List.mem_cons, mem_visitsFrom, at?, Option.some_inj]
      constructor
      · rintro (heq | ⟨_, _, _, heq, -⟩)
        · exact (Prod.mk.inj heq).2.symm
        · contradiction
      · rintro rfl
        exact .inl rfl
  | cons i way ih =>
      rw [visits_eq, List.mem_cons, mem_visitsFrom, at?, Option.bind_eq_some_iff]
      constructor
      · rintro (heq | ⟨j, rest, c, heq, hchild, hmem⟩)
        · exact absurd (Prod.mk.inj heq).1 (List.cons_ne_nil i way)
        · obtain ⟨rfl, rfl⟩ := List.cons.inj heq
          exact ⟨c, by rwa [Nat.zero_add], ih.mp hmem⟩
      · rintro ⟨c, hchild, hway⟩
        exact .inr ⟨i, way, c, by rw [Nat.zero_add], hchild, ih.mpr hway⟩

/-! ## The order of visits -/

theorem visitsFrom_sorted {ts : List Outline} (i : Nat)
    (h : ∀ t ∈ ts, (t.visits.map Prod.fst).Pairwise (· < ·)) : ((visitsFrom i ts).map Prod.fst).Pairwise (· < ·) := by
  induction ts generalizing i with
  | nil => exact .nil
  | cons t ts ih =>
      obtain ⟨ht, hts⟩ := List.forall_mem_cons.mp h
      rw [visitsFrom, List.map_append, List.map_map, List.pairwise_append]
      refine ⟨?_, ih (i + 1) hts, ?_⟩
      · have hbelow := ht.map (i :: ·) fun a b hab => List.cons_lt_cons_iff.mpr (.inr ⟨rfl, hab⟩)
        rwa [List.map_map] at hbelow
      · intro a ha b hb
        -- the ways go to different trees
        obtain ⟨⟨way, u⟩, -, rfl⟩ := List.mem_map.mp ha
        obtain ⟨⟨way', u'⟩, hmem, rfl⟩ := List.mem_map.mp hb
        obtain ⟨j, rest, c, rfl, -⟩ := mem_visitsFrom.mp hmem
        exact List.cons_lt_cons_iff.mpr (.inl (by omega))

/-- **The ways are visited in order**, and so none of them twice. -/
theorem visits_sorted (t : Outline) : (t.visits.map Prod.fst).Pairwise (· < ·) := by
  induction t with
  | mk kind span attributes children ih =>
      rw [visits, List.map_cons, List.pairwise_cons]
      refine ⟨fun way hway => ?_, visitsFrom_sorted 0 ih⟩
      obtain ⟨⟨_, u⟩, hmem, rfl⟩ := List.mem_map.mp hway
      obtain ⟨j, rest, c, rfl, -⟩ := mem_visitsFrom.mp hmem
      exact List.nil_lt_cons _ _

/-! ## What walks and listings visit -/

mutual

theorem preorder_eq_visits : ∀ t : Outline, t.preorder = t.visits.map Prod.snd
  | mk _ _ _ children => by rw [preorder, visits, List.map_cons, preorders_eq_visitsFrom 0 children]

theorem preorders_eq_visitsFrom (i : Nat) : ∀ ts : List Outline, preorders ts = (visitsFrom i ts).map Prod.snd
  | [] => rfl
  | t :: ts => by
      rw [preorders, visitsFrom, List.map_append, List.map_map, preorder_eq_visits t,
        preorders_eq_visitsFrom (i + 1) ts]
      rfl

end

mutual

theorem listingAt_eq_visits (depth : Nat) : ∀ t : Outline,
    listingAt depth t = t.visits.map fun (way, u) => indented (depth + way.length) u.summary
  | mk _ _ _ children => by rw [listingAt, visits, List.map_cons, listingsAt_eq_visitsFrom depth 0 children]; rfl

theorem listingsAt_eq_visitsFrom (depth i : Nat) : ∀ ts : List Outline,
    listingsAt (depth + 1) ts = (visitsFrom i ts).map fun (way, u) => indented (depth + way.length) u.summary
  | [] => rfl
  | t :: ts => by
      have hdepth (way : List Nat) : depth + 1 + way.length = depth + (way.length + 1) := by omega
      rw [listingsAt, visitsFrom, List.map_append, List.map_map, listingAt_eq_visits (depth + 1) t,
        listingsAt_eq_visitsFrom depth (i + 1) ts]
      simp only [hdepth]
      rfl

end

theorem preorders_eq_flatMap (ts : List Outline) : preorders ts = ts.flatMap preorder := by
  induction ts with
  | nil => rfl
  | cons t ts ih => rw [preorders, ih, List.flatMap_cons]

/-- A tree is listed if no integer in it is too long. -/
theorem isListable_iff {t : Outline} : t.isListable = true ↔
    ∀ u ∈ t.walk, ∀ name n, (name, Attribute.integer n) ∈ u.attributes →
      (toString n.natAbs).length ≤ Numeral.decimalLimit := by
  rw [isListable, walk_eq_preorder, List.all_eq_true]
  refine forall₂_congr fun u _ => ?_
  rw [List.all_eq_true]
  constructor
  · intro h name n hmem
    exact of_decide_eq_true (h (name, .integer n) hmem)
  · rintro h ⟨name, value⟩ hmem
    cases value with
    | integer n => exact decide_eq_true (h name n hmem)
    | _ => rfl

/-- **The walk and the listing visit the same nodes.** The walk is the pre-order: a node and then the walks of its
    children. It meets the node at the end of each way once, in the order of the ways; the listing has one line for each
    node that the walk meets, in the same order, which describes the node and is indented by two spaces for each step
    of the way. A tree is listed unless it holds an integer that is too long to be written out. -/
theorem walk_listing (t : Outline) :
    t.walk = t :: t.children.flatMap walk ∧
    (∃ visits : List (List Nat × Outline),
      (visits.map Prod.fst).Pairwise (· < ·) ∧ (∀ way u, (way, u) ∈ visits ↔ t.at? way = some u) ∧
      t.walk = visits.map Prod.snd ∧ t.listing = visits.map fun (way, u) => indented way.length u.summary) ∧
    (t.isListable = true ↔ ∀ u ∈ t.walk, ∀ name n, (name, Attribute.integer n) ∈ u.attributes →
      (toString n.natAbs).length ≤ Numeral.decimalLimit) := by
  refine ⟨?_, ⟨t.visits, t.visits_sorted, fun _ _ => mem_visits, ?_, ?_⟩, isListable_iff⟩
  · rw [walk_eq_preorder, preorder_eq, preorders_eq_flatMap, funext walk_eq_preorder]
  · rw [walk_eq_preorder, preorder_eq_visits]
  · rw [listing, listingAt_eq_visits]
    simp only [Nat.zero_add]

/-- The tree of a script that is a number with a radix mark. -/
theorem walk_spelling {radix : Radix} (hradix : radix ≠ .decimal) (n : Nat) (file : String) (failFast : Bool)
    (isBuiltin : String → Bool) :
    let tree := (parse (Numeral.spelling radix n) file failFast isBuiltin).program.outline
    ∃ span, tree.walk = [tree, (Literal.integer n radix).outline span] := by
  intro tree
  have hspells : Numeral.Spells radix n (String.ofList (Nat.toDigits radix.base n)).toList := by
    rw [String.toList_ofList]
    exact Numeral.spells_toDigits radix n
  obtain ⟨-, span, -, -, -, -, -, -, -, hstatements⟩ := tokenize_spelled hspells (fun h => absurd h hradix) file true
    isBuiltin .empty #[] failFast
  have hchildren : tree.children = [(Literal.integer n radix).outline span] := by
    show Node.outlines (parse (Numeral.spelling radix n) file failFast isBuiltin).program.statements = _
    rw [Numeral.spelling, hstatements, Node.outlines, Node.outlines, Node.outline]
  refine ⟨span, ?_⟩
  rw [walk_eq_preorder, preorder_eq, hchildren]
  rfl

/-- It is not listed if it has too many decimal digits. -/
theorem checkText_spelling {radix : Radix} (hradix : radix ≠ .decimal) {n : Nat}
    (hlong : Numeral.decimalLimit < (Nat.toDigits 10 n).length) (isBuiltin : String → Bool) (file : String)
    {o : CommandLine.Options} (htokens : o.tokens = false) (htree : o.tree = true) :
    CommandLine.checkText o isBuiltin file (Numeral.spelling radix n) = .error .integerTooLong := by
  obtain ⟨span, hwalk⟩ := walk_spelling hradix n file o.failFast isBuiltin
  have hunlisted : (parse (Numeral.spelling radix n) file o.failFast isBuiltin).program.outline.isListable = false := by
    rw [← Bool.not_eq_true, isListable_iff, hwalk]
    intro h
    have hshort := h _ (List.mem_cons_of_mem _ (List.mem_singleton_self _)) "value" n (List.mem_cons_self ..)
    rw [Int.natAbs_natCast, Nat.toString_eq_ofList_toDigits, ← String.length_toList, String.toList_ofList] at hshort
    exact absurd hshort (Nat.not_le.mpr hlong)
  rw [CommandLine.checkText, htokens, htree]
  simp [hunlisted]

/-- A number with more decimal digits than can be written out. -/
theorem length_power : Numeral.decimalLimit < (Nat.toDigits 10 (16 ^ 3600)).length := by
  have hpower : 10 ^ Numeral.decimalLimit ≤ 16 ^ 3600 := by
    rw [show Numeral.decimalLimit = 43 * 100 from rfl, show 3600 = 36 * 100 from rfl, Nat.pow_mul, Nat.pow_mul]
    exact Nat.pow_le_pow_left (by decide) 100
  -- as many digits as the limit allows stand for less than its power of ten
  rw [← Nat.not_le, Nat.length_toDigits_le_iff (by decide) (by decide), Nat.not_lt]
  exact hpower

/-- **The tree of a long hexadecimal number is walked, but not listed.** -/
theorem walk_listing_long :
    let source := Numeral.spelling .hexadecimal (16 ^ 3600)
    let tree := (parse source "<string>" false fun _ => false).program.outline
    (∃ span, tree.walk = [tree, (Literal.integer (16 ^ 3600 : Nat) .hexadecimal).outline span]) ∧
      CommandLine.checkText ⟨false, false, false, true, 0⟩ (fun _ => false) "<string>" source =
        .error .integerTooLong :=
  ⟨walk_spelling (by decide) _ _ _ _, checkText_spelling (by decide) length_power _ _ rfl rfl⟩

end Outline

end ShellFront
