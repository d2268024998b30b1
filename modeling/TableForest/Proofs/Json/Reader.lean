import TableForest.Json.Reader
import TableForest.Proofs.Json.Lexer

/-!
# Printed JSON is read back

The tokens of a value are put together to the value again, inside of whatever is open; together with the
tokens of printed bytes this is the round trip of printing and reading.
-/

namespace TableForest.Json

/-- A value may come next. -/
def Expected.AllowsValue (e : Expected) : Prop :=
  e = .value ∨ e = .valueOrEnd

namespace Reader

/-- Where a value may come, a token that ends nothing begins one. -/
theorem step?_of_allowsValue {e : Expected} (he : e.AllowsValue) (frames : List Frame) (t : Token)
    (ht : t ≠ .endArray) : step? ⟨frames, e, none⟩ t = begin? frames t := by
  rcases he with rfl | rfl
  · rfl
  · cases t with
    | endArray => exact absurd rfl ht
    | _ => rfl

/-- The tokens of a value put it where it belongs. -/
def Gives (v : Json) : Prop :=
  ∀ (frames : List Frame) (e : Expected), e.AllowsValue →
    v.tokens.foldlM step? ⟨frames, e, none⟩ = give? frames v

/-- The rest of an array. -/
theorem foldlM_itemTokens {items : List Json} (hitems : ∀ v ∈ items, Gives v) (frames : List Frame)
    (done : List Json) :
    (itemTokens false items ++ [Token.endArray]).foldlM step? ⟨.array done :: frames, .separator, none⟩ =
      give? frames (.array (done.reverse ++ items)) := by
  induction items generalizing done with
  | nil =>
    show (give? frames (.array done.reverse)).bind some = _
    rw [Option.bind_fun_some, List.append_nil]
  | cons v rest ih =>
    -- The comma was no part of the value: behind it a value is expected again.
    obtain ⟨hv, hrest⟩ := List.forall_mem_cons.1 hitems
    show (v.tokens ++ itemTokens false rest ++ [Token.endArray]).foldlM step? ⟨.array done :: frames, .value, none⟩ = _
    rw [List.append_assoc, List.foldlM_append, hv _ _ (.inl rfl)]
    show (itemTokens false rest ++ [Token.endArray]).foldlM step? ⟨.array (v :: done) :: frames, .separator, none⟩ = _
    rw [ih hrest, List.reverse_cons, List.append_assoc]
    rfl

/-- The rest of an object. -/
theorem foldlM_memberTokens {members : List (Option String × Json)} (hmembers : ∀ m ∈ members, Gives m.2)
    (frames : List Frame) (done : List (Option String × Json)) :
    (memberTokens false members ++ [Token.endObject]).foldlM step? ⟨.object done :: frames, .separator, none⟩ =
      give? frames (.object (done.reverse ++ members)) := by
  induction members generalizing done with
  | nil =>
    show (give? frames (.object done.reverse)).bind some = _
    rw [Option.bind_fun_some, List.append_nil]
  | cons m rest ih =>
    obtain ⟨key, v⟩ := m
    obtain ⟨hv, hrest⟩ := List.forall_mem_cons.1 hmembers
    -- Comma, key and colon leave a frame in which the key waits for its value.
    show (v.tokens ++ memberTokens false rest ++ [Token.endObject]).foldlM step?
      ⟨.member done key :: frames, .value, none⟩ = _
    rw [List.append_assoc, List.foldlM_append, hv _ _ (.inl rfl)]
    show (memberTokens false rest ++ [Token.endObject]).foldlM step?
      ⟨.object ((key, v) :: done) :: frames, .separator, none⟩ = _
    rw [ih hrest, List.reverse_cons, List.append_assoc]
    rfl

/-- **The tokens of a value are put together to the value.** -/
theorem gives (v : Json) (h : v.Spelled) : Gives v := by
  induction h with
  | null =>
    intro frames e he
    show (step? ⟨frames, e, none⟩ .null).bind some = _
    rw [step?_of_allowsValue he frames .null nofun, Option.bind_fun_some]
    rfl
  | bool b =>
    intro frames e he
    show (step? ⟨frames, e, none⟩ (.bool b)).bind some = _
    rw [step?_of_allowsValue he frames (.bool b) nofun, Option.bind_fun_some]
    rfl
  | number n =>
    intro frames e he
    show (step? ⟨frames, e, none⟩ (.number n)).bind some = _
    rw [step?_of_allowsValue he frames (.number n) nofun, Option.bind_fun_some]
    rfl
  | string s =>
    intro frames e he
    show (step? ⟨frames, e, none⟩ (.string (some s))).bind some = _
    rw [step?_of_allowsValue he frames (.string (some s)) nofun, Option.bind_fun_some]
    rfl
  | @array items _ ih =>
    intro frames e he
    show (step? ⟨frames, e, none⟩ .beginArray).bind _ = _
    rw [step?_of_allowsValue he frames .beginArray nofun]
    -- The first item has no comma before it, so it stands apart from the induction over the others.
    show (itemTokens true items ++ [Token.endArray]).foldlM step? ⟨.array [] :: frames, .valueOrEnd, none⟩ = _
    cases items with
    | nil =>
      show (give? frames (.array [])).bind some = _
      rw [Option.bind_fun_some]
    | cons v rest =>
      obtain ⟨hv, hrest⟩ := List.forall_mem_cons.1 ih
      show (v.tokens ++ itemTokens false rest ++ [Token.endArray]).foldlM step?
        ⟨.array [] :: frames, .valueOrEnd, none⟩ = _
      rw [List.append_assoc, List.foldlM_append, hv _ _ (.inr rfl)]
      exact foldlM_itemTokens hrest frames [v]
  | @object members _ _ ih =>
    intro frames e he
    show (step? ⟨frames, e, none⟩ .beginObject).bind _ = _
    rw [step?_of_allowsValue he frames .beginObject nofun]
    show (memberTokens true members ++ [Token.endObject]).foldlM step? ⟨.object [] :: frames, .keyOrEnd, none⟩ = _
    cases members with
    | nil =>
      show (give? frames (.object [])).bind some = _
      rw [Option.bind_fun_some]
    | cons m rest =>
      obtain ⟨key, v⟩ := m
      obtain ⟨hv, hrest⟩ := List.forall_mem_cons.1 ih
      show (v.tokens ++ memberTokens false rest ++ [Token.endObject]).foldlM step?
        ⟨.member [] key :: frames, .value, none⟩ = _
      rw [List.append_assoc, List.foldlM_append, hv _ _ (.inl rfl)]
      exact foldlM_memberTokens hrest frames [(key, v)]

end Reader

/-- **What is printed is read back**, in both styles. -/
theorem read?_bytes (style : Style) {v : Json} (h : v.Spelled) : read? (v.bytes style) = some v := by
  unfold read? ofTokens? Reader.start
  rw [tokens?_bytes style h, Option.bind_some, Reader.gives v h _ _ (.inl rfl)]
  rfl

end TableForest.Json
