import TableForest.Json.Decode
import TableForest.Document.Json
import TableForest.Proofs.Dict
import TableForest.Proofs.Json.Lexer

/-!
# Members and plain values are decoded

What the typed readers make of values that the library writes: numbers, texts, dictionaries, optional members
and records of distinct members.
-/

namespace TableForest

/-- Reading all of a list gives what is read of each. -/
theorem mapM_map_eq_map {α β γ : Type} {encode : α → β} {decode : β → Option γ} {out : α → γ} {xs : List α}
    (h : ∀ x ∈ xs, decode (encode x) = some (out x)) : (xs.map encode).mapM decode = some (xs.map out) := by
  induction xs with
  | nil => rfl
  | cons x rest ih =>
    obtain ⟨hx, hrest⟩ := List.forall_mem_cons.1 h
    rw [List.map_cons, List.mapM_cons, hx, ih hrest]
    rfl

theorem mapM_map_eq_some {α β : Type} {encode : α → β} {decode : β → Option α} {xs : List α}
    (h : ∀ x ∈ xs, decode (encode x) = some x) : (xs.map encode).mapM decode = some xs := by
  have hread : (xs.map encode).mapM decode = some (xs.map id) := mapM_map_eq_map h
  rw [hread, List.map_id]

/-- Reading all of a list gives nothing, if one is not read. -/
theorem mapM_eq_none {α β : Type} {decode : β → Option α} {ys : List β}
    (h : ∃ y ∈ ys, decode y = none) : ys.mapM decode = none := by
  induction ys with
  | nil =>
    obtain ⟨y, hy, -⟩ := h
    cases hy
  | cons y rest ih =>
    rw [List.mapM_cons]
    cases hy : decode y with
    | none => rfl
    | some x =>
      -- the member that fails is the first one or among the others
      obtain ⟨z, hz, hnone⟩ := h
      rcases List.mem_cons.1 hz with rfl | hz
      · rw [hy] at hnone
        cases hnone
      · rw [ih ⟨z, hz, hnone⟩]
        rfl

/-- Whatever is read of a list is read of one of its items. -/
theorem exists_of_mapM_eq_some {α β : Type} {decode : β → Option α} {ys : List β} {xs : List α}
    (h : ys.mapM decode = some xs) : ∀ x ∈ xs, ∃ y ∈ ys, decode y = some x := by
  induction ys generalizing xs with
  | nil =>
    obtain rfl := Option.some.inj h
    exact nofun
  | cons y rest ih =>
    rw [List.mapM_cons] at h
    obtain ⟨x, hx, h⟩ := Option.bind_eq_some_iff.1 h
    obtain ⟨others, hothers, h⟩ := Option.bind_eq_some_iff.1 h
    obtain rfl := Option.some.inj h
    refine List.forall_mem_cons.2 ⟨⟨y, List.mem_cons_self, hx⟩, fun z hz => ?_⟩
    obtain ⟨w, hw, hread⟩ := ih hothers z hz
    exact ⟨w, List.mem_cons_of_mem y hw, hread⟩

namespace Json

/-! ## What was read -/

/-- What stands for a member was read, unless it stands for a missing one. -/
theorem eq_or_exists_of_orElse? {α : Type} {missing a : α} {decode : Json → Option α} {j? : Option Json}
    (h : orElse? missing decode j? = some a) : a = missing ∨ ∃ j, decode j = some a := by
  cases j? with
  | none => exact .inl (Option.some.inj h).symm
  | some j => exact .inr ⟨j, h⟩

/-- An optional value was read, if there is one. -/
theorem exists_of_orElse?_nullable? {α : Type} {decode : Json → Option α} {j? : Option Json} {a? : Option α}
    (h : orElse? none (nullable? decode) j? = some a?) : ∀ a ∈ a?, ∃ j, decode j = some a := by
  rintro a rfl
  rcases eq_or_exists_of_orElse? h with hnone | ⟨j, hj⟩
  · cases hnone
  · refine ⟨j, ?_⟩
    unfold nullable? at hj
    split at hj
    · cases hj
    · obtain ⟨b, hb, heq⟩ := Option.map_eq_some_iff.1 hj
      rw [hb, heq]

/-- The values of an array were read, each of them with the same depth left. -/
theorem exists_of_asArray? {α : Type} {decode : Nat → Json → Option α} {depth : Nat} {j : Json} {as : List α}
    (h : asArray? decode depth j = some as) : ∀ a ∈ as, ∃ v, decode (depth - 1) v = some a := by
  unfold asArray? at h
  split at h
  · intro a ha
    obtain ⟨v, -, hv⟩ := exists_of_mapM_eq_some h a ha
    exact ⟨v, hv⟩
  · cases h

/-! ## Spelled values -/

theorem spelled_array_iff {items : List Json} : (array items).Spelled ↔ ∀ v ∈ items, v.Spelled := by
  constructor
  · intro h
    cases h with
    | array hitems => exact hitems
  · exact .array

theorem spelled_ofMembers_iff {members : List (String × Json)} :
    (ofMembers members).Spelled ↔ ∀ m ∈ members, m.2.Spelled := by
  constructor
  · intro h m hm
    cases h with
    | object _ hvalues => exact hvalues (some m.1, m.2) (List.mem_map_of_mem hm)
  · intro h
    refine .object ?_ ?_
    · intro m hm
      obtain ⟨p, -, rfl⟩ := List.mem_map.1 hm
      exact ⟨p.1, rfl⟩
    · intro m hm
      obtain ⟨p, hp, rfl⟩ := List.mem_map.1 hm
      exact h p hp

theorem spelled_texts (texts : List String) : (Json.array (texts.map .ofString)).Spelled := by
  refine .array fun v hv => ?_
  obtain ⟨s, -, rfl⟩ := List.mem_map.1 hv
  exact .string s

/-! ## Members -/

/-- Of an optional member remains all or nothing. -/
theorem filter_optionalMember (name wanted : String) (j : Option Json) :
    (optionalMember name j).filter (·.1 = wanted) = if name = wanted then optionalMember name j else [] := by
  cases j with
  | none =>
    split
    · rfl
    · rfl
  | some v =>
    show [(name, v)].filter _ = _
    rw [List.filter_cons, List.filter_nil]
    by_cases h : name = wanted
    · rw [if_pos (decide_eq_true h), if_pos h]
      rfl
    · rw [if_neg (by simpa using h), if_neg h]

theorem member?_eq_some {members : List (String × Json)} {name : String} {j : Option Json}
    (h : members.filter (·.1 = name) = optionalMember name j) : member? members name = some j := by
  unfold member?
  rw [h]
  cases j with
  | none => rfl
  | some v => rfl

/-- Of members under distinct names each is found under its own. -/
theorem filter_flatMap_optionalMember {fields : List (String × Option Json)}
    (hnames : (fields.map Prod.fst).Nodup) {p : String × Option Json} (hp : p ∈ fields) :
    (fields.flatMap fun q => optionalMember q.1 q.2).filter (·.1 = p.1) = optionalMember p.1 p.2 := by
  -- Members under other names leave nothing.
  have hothers : ∀ {rest : List (String × Option Json)}, p.1 ∉ rest.map Prod.fst →
      (rest.flatMap fun q => optionalMember q.1 q.2).filter (·.1 = p.1) = [] := by
    intro rest hrest
    induction rest with
    | nil => rfl
    | cons q rest ih =>
      rw [List.map_cons, List.mem_cons, not_or] at hrest
      rw [List.flatMap_cons, List.filter_append, filter_optionalMember, if_neg (Ne.symm hrest.1), ih hrest.2]
      rfl
  induction fields with
  | nil => cases hp
  | cons q rest ih =>
    obtain ⟨hfresh, hrest⟩ := List.nodup_cons.1 hnames
    rw [List.flatMap_cons, List.filter_append, filter_optionalMember]
    rcases List.mem_cons.1 hp with rfl | hp
    · rw [if_pos rfl, hothers hfresh, List.append_nil]
    · -- the wanted member stands further on, and no name stands twice
      have hne : q.1 ≠ p.1 := fun heq => hfresh (heq ▸ List.mem_map_of_mem hp)
      rw [if_neg hne, ih hrest hp]
      rfl

/-- An object of members of which each may be missing. -/
def ofFields (fields : List (String × Option Json)) : Json :=
  ofMembers (fields.flatMap fun p => optionalMember p.1 p.2)

theorem spelled_ofFields_iff {fields : List (String × Option Json)} :
    (ofFields fields).Spelled ↔ ∀ p ∈ fields, ∀ v, p.2 = some v → v.Spelled := by
  rw [ofFields, spelled_ofMembers_iff]
  constructor
  -- a field that has a value is a member of the object, and no other is
  · intro h p hp v hv
    refine h (p.1, v) (List.mem_flatMap.2 ⟨p, hp, ?_⟩)
    rw [hv]
    exact List.mem_singleton_self _
  · intro h m hm
    obtain ⟨p, hp, hm⟩ := List.mem_flatMap.1 hm
    cases hv : p.2 with
    | none =>
      rw [hv] at hm
      cases hm
    | some v =>
      rw [hv] at hm
      obtain rfl := List.mem_singleton.1 hm
      exact h p hp v hv

/-- **A record of members under distinct names is read back**, whether they are there or not. -/
theorem asRecord?_ofFields (fields : List (String × Option Json)) (hnames : (fields.map Prod.fst).Nodup)
    (depth : Nat) :
    (ofFields fields).asRecord? (fields.map Prod.fst) (depth + 1) = some (fields.map Prod.snd) := by
  unfold ofFields
  generalize hmembers : fields.flatMap (fun p => optionalMember p.1 p.2) = members
  -- All keys are texts, so the reader takes the members as they are.
  have hkeys : (members.map fun p => ((some p.1, p.2) : Option String × Json)).mapM
      (fun p : Option String × Json => p.1.bind fun key => some (key, p.2)) = some members :=
    mapM_map_eq_some fun _ _ => rfl
  show (List.mapM (fun p : Option String × Json => p.1.bind fun key => some (key, p.2)) _).bind
    (fun members => (fields.map Prod.fst).mapM (member? members)) = _
  rw [hkeys, Option.bind_some]
  refine mapM_map_eq_map fun p hp => member?_eq_some ?_
  rw [← hmembers]
  exact filter_flatMap_optionalMember hnames hp

theorem orElse?_some {α : Type} (missing : α) (decode : Json → Option α) (j : Json) :
    orElse? missing decode (some j) = decode j := rfl

theorem required?_some {α : Type} (decode : Json → Option α) (j : Json) :
    required? decode (some j) = decode j := rfl

/-- A member that may be missing and may be null, and is neither written as null nor missing if it is there. -/
theorem orElse?_nullable? {α : Type} {encode : α → Json} {decode : Json → Option α}
    (h : ∀ x, nullable? decode (encode x) = some (some x)) (x : Option α) :
    orElse? none (nullable? decode) (x.map encode) = some x := by
  cases x with
  | none => rfl
  | some x => exact h x

/-! ## Plain values -/

/-- Whatever fits sixty-four bits, with or without a sign, is an integer. -/
theorem integer?_ofInt {n : Int} (hlow : -(UInt64.size / 2 : Nat) ≤ n) (hhigh : n < UInt64.size) :
    (Numeral.ofInt n).integer? = some n := by
  unfold Numeral.ofInt Numeral.integer?
  simp only [and_self, if_true, decide_eq_true_eq]
  by_cases hneg : n < 0
  · rw [if_pos hneg, if_pos ⟨by omega, by omega⟩]
    exact congrArg some (by omega)
  · rw [if_neg hneg, if_pos (by omega)]
    exact congrArg some (by omega)

theorem asInt?_ofNat {n : Nat} {greatest : Int} (h : (n : Int) ≤ greatest) (hlt : n < UInt64.size) :
    asInt? 0 greatest (.ofNat n) = some (n : Int) := by
  have hinteger := integer?_ofInt (n := n) (by omega) (by omega)
  unfold asInt? ofNat ofInt
  simp only [hinteger, Option.bind_some]
  rw [if_pos ⟨by omega, h⟩]

theorem asInt64?_ofInt (n : Int64) : asInt64? (.ofInt n.toInt) = some n := by
  have hlow := Int64.le_toInt n
  have hhigh := Int64.toInt_lt n
  have hsize : UInt64.size = 2 ^ 64 := rfl
  have hinteger := integer?_ofInt (n := n.toInt) (by omega) (by omega)
  unfold asInt64? asInt? ofInt
  simp only [hinteger, Option.bind_some]
  rw [if_pos ⟨Int64.minValue_le_toInt n, Int64.toInt_le n⟩, Option.map_some, Int64.ofInt_toInt]

theorem asUInt32?_ofNat (n : UInt32) : asUInt32? (.ofNat n.toNat) = some n := by
  have hlt : n.toNat < UInt32.size := n.toNat_lt
  have hfits : n.toNat < UInt64.size := Nat.lt_trans hlt (by decide)
  unfold asUInt32?
  rw [asInt?_ofNat (by omega) hfits, Option.map_some, Int.toNat_natCast, UInt32.ofNat_toNat]

theorem asUInt64?_ofNat (n : UInt64) : asUInt64? (.ofNat n.toNat) = some n := by
  have hlt : n.toNat < UInt64.size := n.toNat_lt
  unfold asUInt64?
  rw [asInt?_ofNat (by omega) hlt, Option.map_some, Int.toNat_natCast, UInt64.ofNat_toNat]

/-- The items of an array are read back if one more level is left for them. -/
theorem asArray?_map {α : Type} {encode : α → Json} {decode : Nat → Json → Option α} (depth : Nat) {xs : List α}
    (h : ∀ x ∈ xs, decode depth (encode x) = some x) :
    asArray? decode (depth + 1) (.array (xs.map encode)) = some xs :=
  mapM_map_eq_some h

end Json

/-! ## Dictionaries -/

theorem Dict.spelled_toJson (d : Dict String) : d.toJson.Spelled := by
  refine Json.spelled_ofMembers_iff.2 fun m hm => ?_
  obtain ⟨p, -, rfl⟩ := List.mem_map.1 hm
  exact .string p.2

theorem Dict.ofJson?_toJson (d : Dict String) (depth : Nat) : Dict.ofJson? (depth + 1) d.toJson = some d := by
  have htexts : d.toJson.asTexts? (depth + 1) = some d.entries := by
    unfold Dict.toJson Json.ofMembers
    rw [List.map_map]
    exact mapM_map_eq_some fun _ _ => rfl
  unfold Dict.ofJson?
  rw [htexts, Option.map_some, Dict.ofList_entries]

theorem Dict.eq_empty {α : Type} {d : Dict α} (h : d.isEmpty = true) : d = .empty :=
  Dict.eq_of_entries (List.isEmpty_iff.1 h)

end TableForest
