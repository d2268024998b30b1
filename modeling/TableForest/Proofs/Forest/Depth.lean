import TableForest.Proofs.Forest.Linked

/-!
# Depths in a forest

The depth of a table is the number of tables above it.  It is found by climbing to the root in as many steps as
the arena is long, and since parents are older than their children the steps suffice: **`depth_of_child`**
says that a child is one deeper than its parent.
-/

namespace TableForest.Forest

variable {f : Forest}

theorem climb_of_root {id : TableId} (h : f.parentOf? id = some none) (steps : Nat) :
    f.climb (steps + 1) id = .ok [] := by
  obtain ⟨n, hn, hroot⟩ := Option.map_eq_some_iff.1 h
  rw [climb, node_eq_ok.2 hn]
  simp only [bind, Except.bind, hroot]
  rfl

theorem climb_of_child {id p : TableId} (h : f.parentOf? id = some (some p)) (steps : Nat) :
    f.climb (steps + 1) id = (f.climb steps p).map (p :: ·) := by
  obtain ⟨n, hn, hchild⟩ := Option.map_eq_some_iff.1 h
  rw [climb, node_eq_ok.2 hn]
  simp only [bind, Except.bind, hchild]
  cases f.climb steps p <;> rfl

/-- Steps beyond the age of a table change nothing. -/
theorem climb_congr (h : f.Linked) : ∀ {m n : Nat} {id : TableId}, id.index < m → id.index < n →
    f.climb m id = f.climb n id
  | 0, _, _, hm, _ => absurd hm (Nat.not_lt_zero _)
  | _, 0, _, _, hn => absurd hn (Nat.not_lt_zero _)
  | m + 1, n + 1, id, hm, hn => by
    -- a table that is not there fails with either number of steps, and each parent needs a step less
    cases hp : f.parentOf? id with
    | none =>
      have hnode : f.node? id = none := Option.map_eq_none_iff.1 hp
      unfold climb node
      rw [hnode]
      rfl
    | some parent =>
      cases parent with
      | none => rw [climb_of_root hp, climb_of_root hp]
      | some p =>
        have holder := h.older hp
        rw [climb_of_child hp, climb_of_child hp, climb_congr h (m := m) (n := n) (by omega) (by omega)]

theorem index_lt_of_parentOf? {id : TableId} {parent : Option TableId} (h : f.parentOf? id = some parent) :
    id.index < f.nodes.length := by
  obtain ⟨n, hn⟩ := exists_node?_of_parentOf? h
  exact index_lt_of_node? hn

theorem depth_eq_climb {id : TableId} {parent : Option TableId} (h : f.parentOf? id = some parent) :
    f.depth id = (f.climb f.nodes.length id).map List.length := by
  obtain ⟨n, hn⟩ := exists_node?_of_parentOf? h
  unfold depth ancestors
  rw [node_eq_ok.2 hn]
  rfl

theorem depth_of_root {id : TableId} (h : f.parentOf? id = some none) : f.depth id = .ok 0 := by
  have hlt := index_lt_of_parentOf? h
  obtain ⟨steps, hsteps⟩ : ∃ steps, f.nodes.length = steps + 1 := ⟨f.nodes.length - 1, by omega⟩
  rw [depth_eq_climb h, hsteps, climb_of_root h]
  rfl

/-- **A child is one deeper than its parent.** -/
theorem depth_of_child (h : f.Linked) {id p : TableId} (hp : f.parentOf? id = some (some p)) :
    f.depth id = (f.depth p).map (· + 1) := by
  have hlt := index_lt_of_parentOf? hp
  have holder := h.older hp
  obtain ⟨cs, hcs⟩ := h.parents hp
  obtain ⟨grand, hgrand⟩ := parentOf?_of_childrenOf? hcs
  obtain ⟨steps, hsteps⟩ : ∃ steps, f.nodes.length = steps + 1 := ⟨f.nodes.length - 1, by omega⟩
  rw [depth_eq_climb hp, depth_eq_climb hgrand, hsteps, climb_of_child hp,
    climb_congr h (m := steps + 1) (n := steps) (by omega) (by omega)]
  cases f.climb steps p <;> rfl

end TableForest.Forest
