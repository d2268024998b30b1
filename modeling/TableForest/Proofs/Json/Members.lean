import TableForest.Json.Decode
import TableForest.Proofs.Json.Decode

/-!
# Records with a member changed

A record comes as an object or as an array, and either way one of its members can be changed where it stands.  The
reader then finds the new value in the place of the old one (**`asRecord?_modifyMember`**), if it finds the record
at all: neither what else there is nor what is missing or repeated makes a difference.
-/

namespace TableForest

theorem mapM_eq_mapM {α β : Type} {decode decode' : α → Option β} {xs : List α} (h : ∀ x ∈ xs, decode' x = decode x) :
    xs.mapM decode' = xs.mapM decode := by
  induction xs with
  | nil => rfl
  | cons x rest ih =>
    obtain ⟨hx, hrest⟩ := List.forall_mem_cons.1 h
    rw [List.mapM_cons, List.mapM_cons, hx, ih hrest]

/-- Reading what a change makes of a list is changing what is read. -/
theorem mapM_map_comm {α β : Type} {change : α → α} {decode : α → Option β} {result : β → β}
    (h : ∀ x, decode (change x) = (decode x).map result) (xs : List α) :
    (xs.map change).mapM decode = (xs.mapM decode).map (List.map result) := by
  induction xs with
  | nil => rfl
  | cons x rest ih =>
    rw [List.map_cons, List.mapM_cons, List.mapM_cons, h, ih]
    cases decode x with
    | none => rfl
    | some y =>
      cases rest.mapM decode with
      | none => rfl
      | some ys => rfl

/-- What is read otherwise in one place is another result in that place. -/
theorem mapM_modify {α β : Type} {decode decode' : α → Option β} {result : β → β} {key : α} {xs : List α} {i : Nat}
    (hnodup : xs.Nodup) (hkey : xs[i]? = some key) (hsame : ∀ x, x ≠ key → decode' x = decode x)
    (hchanged : decode' key = (decode key).map result) :
    xs.mapM decode' = (xs.mapM decode).map (·.modify i result) := by
  induction xs generalizing i with
  | nil => cases hkey
  | cons x rest ih =>
    obtain ⟨hfresh, hrest⟩ := List.nodup_cons.1 hnodup
    rw [List.mapM_cons, List.mapM_cons]
    -- the key stands once, so a change at it is a change of one member
    cases i with
    | zero =>
      obtain rfl := Option.some.inj hkey
      have hothers : rest.mapM decode' = rest.mapM decode := by
        refine mapM_eq_mapM fun y hy => hsame y ?_
        rintro rfl
        exact hfresh hy
      rw [hchanged, hothers]
      cases decode x with
      | none => rfl
      | some y =>
        cases rest.mapM decode with
        | none => rfl
        | some ys => rfl
    | succ i =>
      have hne : x ≠ key := by
        -- the changed member is another one, so the first is read as before
        rintro rfl
        exact hfresh (List.mem_of_getElem? hkey)
      rw [hsame x hne, ih hrest hkey]
      cases decode x with
      | none => rfl
      | some y =>
        cases rest.mapM decode with
        | none => rfl
        | some ys => rfl

namespace Json

/-- A record with one of its members changed, be it an object or the array of its members. -/
def modifyMember (names : List String) (i : Nat) (change : Json → Json) : Json → Json
  | .object members => .object (members.map fun m => if m.1 = names[i]? then (m.1, change m.2) else m)
  | .array items => .array (items.modify i change)
  | j => j

/-- The members of a name with their values changed. -/
def changeMembers (key : String) (change : Json → Json) (members : List (String × Json)) : List (String × Json) :=
  members.map fun m => if m.1 = key then (m.1, change m.2) else m

variable {change : Json → Json} {members : List (String × Json)} {key name : String}

theorem filter_changeMembers :
    (changeMembers key change members).filter (·.1 = name) =
      changeMembers key change (members.filter (·.1 = name)) := by
  have hname : ∀ m : String × Json, (if m.1 = key then (m.1, change m.2) else m).1 = m.1 := by
    intro m
    split
    · rfl
    · rfl
  unfold changeMembers
  rw [List.filter_map]
  simp only [Function.comp_def, hname]

theorem member?_changeMembers_of_ne (h : name ≠ key) :
    member? (changeMembers key change members) name = member? members name := by
  have hsame : changeMembers key change (members.filter (·.1 = name)) = members.filter (·.1 = name) := by
    unfold changeMembers
    rw [List.map_congr_left (g := id), List.map_id]
    intro m hm
    have hname : m.1 = name := by simpa using (List.mem_filter.1 hm).2
    rw [if_neg (hname ▸ h), id]
  unfold member?
  rw [filter_changeMembers, hsame]

/-- The only value of a member is changed, and one that is there twice stays refused. -/
theorem member?_changeMembers :
    member? (changeMembers key change members) key = (member? members key).map (Option.map change) := by
  have hfound : changeMembers key change (members.filter (·.1 = key)) =
      (members.filter (·.1 = key)).map fun m => (m.1, change m.2) := by
    unfold changeMembers
    refine List.map_congr_left fun m hm => if_pos ?_
    simpa using (List.mem_filter.1 hm).2
  unfold member?
  rw [filter_changeMembers, hfound]
  cases members.filter (·.1 = key) with
  | nil => rfl
  | cons m others =>
    cases others with
    | nil => rfl
    | cons m' others => rfl

/-- What is missing at the end of a record has no value to change. -/
theorem map_some_modify (change : Json → Json) (items : List Json) (i missing : Nat) :
    (items.modify i change).map some ++ List.replicate missing none =
      (items.map some ++ List.replicate missing none).modify i (Option.map change) := by
  induction items generalizing i with
  | nil =>
    rw [List.modify_nil, List.map_nil, List.nil_append]
    induction missing generalizing i with
    | zero => exact (List.modify_nil (Option.map change) i).symm
    | succ missing ih =>
      cases i with
      | zero => rfl
      | succ i => exact congrArg (none :: ·) (ih i)
  | cons item rest ih =>
    cases i with
    | zero => rfl
    | succ i => exact congrArg (some item :: ·) (ih i)

/-- A member under its key, if that is a text. -/
def keyed? (m : Option String × Json) : Option (String × Json) :=
  m.1.bind fun name => some (name, m.2)

theorem keyed?_modify (key : String) (change : Json → Json) (m : Option String × Json) :
    keyed? (if m.1 = some key then (m.1, change m.2) else m) =
      (keyed? m).map fun p => if p.1 = key then (p.1, change p.2) else p := by
  obtain ⟨name, value⟩ := m
  cases name with
  | none => rfl
  | some name =>
    show keyed? (if some name = some key then (some name, change value) else (some name, value)) =
      some (if name = key then (name, change value) else (name, value))
    by_cases hname : name = key
    · rw [if_pos (congrArg some hname), if_pos hname]
      rfl
    · rw [if_neg (mt Option.some.inj hname), if_neg hname]
      rfl

/-- **What is read of a record with a member changed** is what was read of it, with the value changed in the place of
the member. -/
theorem asRecord?_modifyMember {names : List String} {i : Nat} (hnames : names.Nodup) (hi : i < names.length)
    (change : Json → Json) (depth : Nat) (j : Json) :
    (j.modifyMember names i change).asRecord? names depth =
      (j.asRecord? names depth).map (·.modify i (Option.map change)) := by
  have hkey : names[i]? = some names[i] := List.getElem?_eq_getElem hi
  cases depth with
  | zero => cases j <;> rfl
  | succ depth =>
    cases j with
    -- the change is made at every member of the name, and the reader takes at most one
    | object members =>
      have hread := mapM_map_comm (keyed?_modify names[i] change) members
      show ((members.map fun m => if m.1 = names[i]? then (m.1, change m.2) else m).mapM keyed?).bind
          (fun members => names.mapM (member? members)) =
        ((members.mapM keyed?).bind fun members => names.mapM (member? members)).map _
      rw [hkey, hread]
      cases members.mapM keyed? with
      | none => rfl
      | some found =>
        exact mapM_modify hnames hkey (fun name hne => member?_changeMembers_of_ne hne) member?_changeMembers
    -- an array is read by position, so the item with the number of the name is changed
    | array items =>
      show (if (items.modify i change).length ≤ names.length then
          some ((items.modify i change).map some ++ List.replicate (names.length - (items.modify i change).length) none)
        else none) = Option.map _ (if items.length ≤ names.length then
          some (items.map some ++ List.replicate (names.length - items.length) none) else none)
      rw [List.length_modify]
      split
      · exact congrArg some (map_some_modify change items i _)
      · rfl
    | _ => rfl

end Json
end TableForest
