import TableForest.Proofs.Document.Decode
import TableForest.Proofs.Document.Forest
import TableForest.Proofs.Forest.Depth

/-!
# Positions of stored tables

Positions lead through stored tables as handles lead through a forest, and a table stands as deep as there are
positions on the way to it.

## The architecture

* **`Represents.follow`** and **`Represents.exists_follow`** are the two directions.
* **`Represents.everywhere_iff`** carries over what is said of all stored tables.
-/

namespace TableForest.Forest

open TableDocument

variable {f : Forest} {As : Table → TableDocument → Prop}

theorem depth_of_mem_children (hlinked : f.Linked) {id c : TableId} {n : ForestNode} {depth : Nat}
    (hnode : f.node? id = some n) (hdepth : f.depth id = .ok depth) (hc : c ∈ n.children) :
    f.depth c = .ok (depth + 1) := by
  rw [depth_of_child hlinked ((hlinked.children (childrenOf?_of_node? hnode) c).1 hc), hdepth]
  rfl

/-- Where positions lead to stands a table, as deep as there are positions. -/
theorem Represents.follow (hlinked : f.Linked) {oldest : Nat} {ids : List TableId} {ds : List TableDocument}
    (h : f.Represents As oldest ids ds) {depth : Nat} (hdepth : ∀ id ∈ ids, f.depth id = .ok depth)
    {path : List Nat} {d : TableDocument} (hd : follow? ds path = some d) :
    ∃ id n deeper, f.node? id = some n ∧ As n.table d ∧ f.depth id = .ok deeper ∧
      path.length + depth = deeper + 1 := by
  induction path generalizing ids ds depth with
  | nil => cases hd
  | cons i path ih =>
    cases hi : ds[i]? with
    | none =>
      cases path with
      | nil => exact nomatch hi.symm.trans hd
      | cons j path =>
        rw [follow?, hi] at hd
        cases hd
    -- The first position is that of a table at the depth of the list; the others go on below it.
    | some e =>
      obtain ⟨id, hid⟩ := h.handle_of_document hi
      obtain ⟨n, hn, has, hbelow⟩ := h.of_getElem? hid hi
      have hhere := hdepth id (List.mem_of_getElem? hid)
      cases path with
      | nil =>
        obtain rfl := Option.some.inj (hi.symm.trans hd)
        exact ⟨id, n, depth, hn, has, hhere, Nat.add_comm _ _⟩
      | cons j path =>
        rw [follow?_cons hi (List.cons_ne_nil _ _)] at hd
        obtain ⟨c, m, deeper, hm, hc, hdeeper, hlength⟩ :=
          ih hbelow (fun c hc => depth_of_mem_children hlinked hn hhere hc) hd
        refine ⟨c, m, deeper, hm, hc, hdeeper, ?_⟩
        rw [← hlength]
        exact Nat.succ_add_eq_add_succ _ _

/-- **Positions lead to every table**: they lead to its parent, and one more to it. -/
theorem Represents.exists_follow (hlinked : f.Linked) {ds : List TableDocument}
    (h : f.Represents As 0 f.roots ds) {id : TableId} {n : ForestNode} (hnode : f.node? id = some n) :
    ∃ path d depth, follow? ds path = some d ∧ As n.table d ∧ f.Represents As 0 n.children d.children ∧
      f.depth id = .ok depth ∧ path.length = depth + 1 := by
  induction hnode using hlinked.parent_induction with
  | @root id n hnode hparent =>
    -- A root is found at its position in the list of roots.
    obtain ⟨i, hi⟩ := List.mem_iff_getElem?.1 ((hlinked.roots id).2 hparent)
    obtain ⟨d, hd⟩ := h.document_of_handle hi
    obtain ⟨m, hm, has, hbelow⟩ := h.of_getElem? hi hd
    obtain rfl := Option.some.inj (hnode.symm.trans hm)
    exact ⟨[i], d, 0, hd, has, hbelow, depth_of_root hparent, rfl⟩
  | @child id n p np hnode hnp hparent ih =>
    obtain ⟨path, e, depth, he, -, habove, hdepth, hlength⟩ := ih
    -- Any other table is found among the children of its parent.
    have hmem := (hlinked.children (childrenOf?_of_node? hnp) id).2 hparent
    obtain ⟨i, hi⟩ := List.mem_iff_getElem?.1 hmem
    obtain ⟨d, hd⟩ := habove.document_of_handle hi
    obtain ⟨m, hm, has, hbelow⟩ := habove.of_getElem? hi hd
    obtain rfl := Option.some.inj (hnode.symm.trans hm)
    refine ⟨path ++ [i], d, depth + 1, ?_, has, hbelow, depth_of_mem_children hlinked hnp hdepth hmem, ?_⟩
    · rw [follow?_append he, hd]
    · rw [List.length_append, hlength, List.length_singleton]

theorem depth_of_mem_roots (hlinked : f.Linked) : ∀ id ∈ f.roots, f.depth id = .ok 0 :=
  fun id hid => depth_of_root ((hlinked.roots id).1 hid)

/-- **What holds of all stored tables holds of all tables of the forest**, if it does of a table whenever it does of
its stored form, **and the other way round.** -/
theorem Represents.everywhere_iff (hlinked : f.Linked) {ds : List TableDocument}
    (h : f.Represents As 0 f.roots ds) {P : TableDocument → Prop} {Q : Table → Prop}
    (hiff : ∀ t d, As t d → (P d ↔ Q t)) : Everywhere P ds ↔ ∀ id n, f.node? id = some n → Q n.table := by
  constructor
  · intro hall id n hn
    obtain ⟨path, d, -, hd, has, -⟩ := h.exists_follow hlinked hn
    exact (hiff _ _ has).1 (hall path d hd)
  · intro hall path d hd
    obtain ⟨id, n, -, hn, has, -⟩ := h.follow hlinked (depth_of_mem_roots hlinked) hd
    exact (hiff _ _ has).2 (hall id n hn)

end TableForest.Forest
