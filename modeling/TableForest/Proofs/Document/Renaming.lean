import Mathlib.Tactic.Choose
import TableForest.Proofs.Document.Forest
import TableForest.Proofs.Document.Table

/-!
# Forests that differ in their handles only

Two forests of the same shape have their tables under different handles.  `Forest.Renaming` says of a map of
handles that it takes one forest to the other, with all parents, children and roots in their order.

## The architecture

* **`Forest.SamePlace`** leads from the roots down through both forests at once.  In linked forests a place belongs
  to one table only (**`SamePlace.unique`**).
* **`Forest.exists_samePlace`**: if two forests are represented by the same stored tables, every table has its
  counterpart.
* **`Forest.exists_renaming`**: the counterparts make a renaming.
-/

namespace TableForest.Forest

variable {f g : Forest}

/-- A map of handles takes a forest to another: the roots and the children to roots and children in the same
order, parents to parents, and every table to one that says the same.  All tables are met, and no two become
one. -/
structure Renaming (f g : Forest) (rename : TableId → TableId) : Prop where
  roots : g.roots = f.roots.map rename
  tables : ∀ {id n}, f.node? id = some n → ∃ m, g.node? (rename id) = some m ∧
    m.parent = n.parent.map rename ∧ m.children = n.children.map rename ∧ n.table.SameContent m.table
  injective : ∀ {id other n m}, f.node? id = some n → f.node? other = some m → rename id = rename other → id = other
  onto : ∀ {other m}, g.node? other = some m → ∃ id n, f.node? id = some n ∧ rename id = other

/-! ## Places -/

/-- Two handles stand in the same place of two forests: they are the same root, or the same child of tables in
the same place. -/
inductive SamePlace (f g : Forest) : TableId → TableId → Prop
  | root {i : Nat} {id other : TableId} (left : f.roots[i]? = some id) (right : g.roots[i]? = some other) :
      SamePlace f g id other
  | child {i : Nat} {p q id other : TableId} {cs ds : List TableId} (above : SamePlace f g p q)
      (leftOf : f.childrenOf? p = some cs) (rightOf : g.childrenOf? q = some ds) (left : cs[i]? = some id)
      (right : ds[i]? = some other) : SamePlace f g id other

namespace SamePlace

theorem symm {id other : TableId} (h : SamePlace f g id other) : SamePlace g f other id := by
  induction h with
  | root left right => exact .root right left
  | child _ leftOf rightOf left right ih => exact .child ih rightOf leftOf right left

/-- A handle stands once in a list without repetitions. -/
theorem position_unique {ids : List TableId} (hnodup : ids.Nodup) {i j : Nat} {id : TableId}
    (hi : ids[i]? = some id) (hj : ids[j]? = some id) : i = j := by
  obtain ⟨hlt, -⟩ := List.getElem?_eq_some_iff.1 hi
  exact (List.getElem?_inj hlt hnodup).1 (hi.trans hj.symm)

/-- **In a linked forest a table has one place only.** -/
theorem unique (hf : f.Linked) {id a b : TableId} (ha : SamePlace f g id a) (hb : SamePlace f g id b) : a = b := by
  induction ha generalizing b with
  | root left right =>
    have hroot := (hf.roots _).1 (List.mem_of_getElem? left)
    cases hb with
    | root left' right' =>
      obtain rfl := position_unique hf.rootsNodup left left'
      exact Option.some.inj (right.symm.trans right')
    | child _ leftOf' _ left' _ =>
      have hchild := (hf.children leftOf' _).1 (List.mem_of_getElem? left')
      exact nomatch hroot.symm.trans hchild
  | child _ leftOf rightOf left right ih =>
    have hchild := (hf.children leftOf _).1 (List.mem_of_getElem? left)
    cases hb with
    | root left' _ =>
      have hroot := (hf.roots _).1 (List.mem_of_getElem? left')
      exact nomatch hroot.symm.trans hchild
    | child above' leftOf' rightOf' left' right' =>
      have hchild' := (hf.children leftOf' _).1 (List.mem_of_getElem? left')
      -- The parents agree, so do their counterparts, and so do the children of both.
      obtain rfl := Option.some.inj (Option.some.inj (hchild.symm.trans hchild'))
      obtain rfl := ih above'
      obtain rfl := Option.some.inj (leftOf.symm.trans leftOf')
      obtain rfl := Option.some.inj (rightOf.symm.trans rightOf')
      obtain rfl := position_unique (hf.childrenNodup leftOf) left left'
      exact Option.some.inj (right.symm.trans right')

end SamePlace

/-! ## Counterparts -/

variable {As Bs : Table → TableDocument → Prop} {ds : List TableDocument}

theorem SamePlace.represents (hf : f.Represents As 0 f.roots ds) (hg : g.Represents Bs 0 g.roots ds)
    {id other : TableId} (h : SamePlace f g id other) :
    ∃ n m d, f.node? id = some n ∧ g.node? other = some m ∧ As n.table d ∧ Bs m.table d ∧
      f.Represents As 0 n.children d.children ∧ g.Represents Bs 0 m.children d.children := by
  -- What holds for roots holds for children: both are lists that stored tables represent.
  have hpair : ∀ {ids others : List TableId} {es : List TableDocument} {i : Nat} {id other : TableId},
      f.Represents As 0 ids es → g.Represents Bs 0 others es → ids[i]? = some id → others[i]? = some other →
      ∃ n m d, f.node? id = some n ∧ g.node? other = some m ∧ As n.table d ∧ Bs m.table d ∧
        f.Represents As 0 n.children d.children ∧ g.Represents Bs 0 m.children d.children := by
    intro ids others es i id other hids hothers left right
    obtain ⟨d, hd⟩ := hids.document_of_handle left
    obtain ⟨n, hn, has, hleft⟩ := hids.of_getElem? left hd
    obtain ⟨m, hm, hbs, hright⟩ := hothers.of_getElem? right hd
    exact ⟨n, m, d, hn, hm, has, hbs, hleft, hright⟩
  induction h with
  | root left right => exact hpair hf hg left right
  | child _ leftOf rightOf left right ih =>
    obtain ⟨n, m, d, hn, hm, -, -, hleft, hright⟩ := ih
    obtain rfl := Option.some.inj ((childrenOf?_of_node? hn).symm.trans leftOf)
    obtain rfl := Option.some.inj ((childrenOf?_of_node? hm).symm.trans rightOf)
    exact hpair hleft hright left right

theorem Represents.counterpart {ids others : List TableId} {es : List TableDocument}
    (hf : f.Represents As 0 ids es) (hg : g.Represents Bs 0 others es) {i : Nat} {id : TableId}
    (h : ids[i]? = some id) : ∃ other, others[i]? = some other := by
  obtain ⟨d, hd⟩ := hf.document_of_handle h
  exact hg.handle_of_document hd

/-- **Every table has its counterpart**, for its parent has one. -/
theorem exists_samePlace (hlinked : f.Linked) (hf : f.Represents As 0 f.roots ds)
    (hg : g.Represents Bs 0 g.roots ds) {id : TableId} {n : ForestNode} (hnode : f.node? id = some n) :
    ∃ other, SamePlace f g id other := by
  induction hnode using hlinked.parent_induction with
  | @root id n hnode hparent =>
    obtain ⟨i, hi⟩ := List.mem_iff_getElem?.1 ((hlinked.roots id).2 hparent)
    obtain ⟨other, hother⟩ := hf.counterpart hg hi
    exact ⟨other, .root hi hother⟩
  | @child id n p np hnode hnp hparent ih =>
    obtain ⟨q, hq⟩ := ih
    obtain ⟨np', m, d, hnp', hm, -, -, hleft, hright⟩ := hq.represents hf hg
    obtain rfl := Option.some.inj (hnp.symm.trans hnp')
    have hcs := childrenOf?_of_node? hnp
    obtain ⟨i, hi⟩ := List.mem_iff_getElem?.1 ((hlinked.children hcs id).2 hparent)
    obtain ⟨other, hother⟩ := hleft.counterpart hright hi
    exact ⟨other, .child hq hcs (childrenOf?_of_node? hm) hi hother⟩

/-- Lists whose handles stand in the same places are renamed into one another. -/
theorem map_eq_of_samePlace (hlinked : f.Linked) {rename : TableId → TableId} {ids others : List TableId}
    {es : List TableDocument} (hf : f.Represents As 0 ids es) (hg : g.Represents Bs 0 others es)
    (hplace : ∀ {i : Nat} {id other : TableId}, ids[i]? = some id → others[i]? = some other → SamePlace f g id other)
    (hrename : ∀ {id n}, f.node? id = some n → SamePlace f g id (rename id)) : others = ids.map rename := by
  refine List.ext_getElem? fun i => ?_
  rw [List.getElem?_map]
  cases hid : ids[i]? with
  | none =>
    rw [List.getElem?_eq_none_iff, hf.length_eq, ← hg.length_eq] at hid
    exact List.getElem?_eq_none hid
  | some id =>
    obtain ⟨d, hd⟩ := hf.document_of_handle hid
    obtain ⟨other, hother⟩ := hg.handle_of_document hd
    obtain ⟨n, hn, -⟩ := hf.of_getElem? hid hd
    rw [hother, (hplace hid hother).unique hlinked (hrename hn)]
    rfl

/-- **Forests that the same stored tables represent are renamed into one another**, if what they represent a table
by says enough of it. -/
theorem exists_renaming (hlinked : f.Linked) (hlinked' : g.Linked) (hf : f.Represents As 0 f.roots ds)
    (hg : g.Represents Bs 0 g.roots ds)
    (hcontent : ∀ {t u d}, As t d → Bs u d → t.SameContent u) :
    ∃ rename, f.Renaming g rename := by
  -- Handles of which nothing stands in the forest are renamed into anything.
  have htotal : ∀ id, ∃ other, ∀ n, f.node? id = some n → SamePlace f g id other := by
    intro id
    by_cases hnode : ∃ n, f.node? id = some n
    · obtain ⟨n, hn⟩ := hnode
      obtain ⟨other, hother⟩ := exists_samePlace hlinked hf hg hn
      exact ⟨other, fun _ _ => hother⟩
    · exact ⟨id, fun n hn => absurd ⟨n, hn⟩ hnode⟩
  choose rename hchoice using htotal
  have hrename : ∀ {id n}, f.node? id = some n → SamePlace f g id (rename id) := fun hn => hchoice _ _ hn
  refine ⟨rename, ?_, fun {id n} hn => ?_, fun {id other n m} hn hm heq => ?_, fun {other m} hm => ?_⟩
  · exact map_eq_of_samePlace hlinked hf hg .root hrename
  · have hplace := hrename hn
    obtain ⟨n', m, d, hn', hm, has, hbs, hleft, hright⟩ := hplace.represents hf hg
    obtain rfl := Option.some.inj (hn.symm.trans hn')
    refine ⟨m, hm, ?_, ?_, hcontent has hbs⟩
    · -- The parent is where the place leads through.
      cases hplace with
      | root left right =>
        have hl := (hlinked.roots _).1 (List.mem_of_getElem? left)
        have hr := (hlinked'.roots _).1 (List.mem_of_getElem? right)
        rw [parentOf?_of_node? hn] at hl
        rw [parentOf?_of_node? hm] at hr
        rw [Option.some.inj hl, Option.some.inj hr]
        rfl
      | child above leftOf rightOf left right =>
        have hl := (hlinked.children leftOf _).1 (List.mem_of_getElem? left)
        have hr := (hlinked'.children rightOf _).1 (List.mem_of_getElem? right)
        rw [parentOf?_of_node? hn] at hl
        rw [parentOf?_of_node? hm] at hr
        obtain ⟨np, hnp, -⟩ := Option.map_eq_some_iff.1 leftOf
        rw [Option.some.inj hl, Option.some.inj hr, Option.map_some, above.unique hlinked (hrename hnp)]
    · exact map_eq_of_samePlace hlinked hleft hright
        (.child hplace (childrenOf?_of_node? hn) (childrenOf?_of_node? hm)) hrename
  · have hleft := (hrename hn).symm
    rw [heq] at hleft
    exact hleft.unique hlinked' (hrename hm).symm
  · obtain ⟨id, hplace⟩ := exists_samePlace hlinked' hg hf hm
    obtain ⟨-, n, -, -, hn, -⟩ := hplace.represents hg hf
    exact ⟨id, n, hn, (hrename hn).unique hlinked hplace.symm⟩

end TableForest.Forest
