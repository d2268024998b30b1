import TableForest.Json.Token

/-!
# Reading JSON

The grammar of JSON, a token at a time.  What is open stands on a stack, so nesting has no limit here;
a reader of a format that has one asks `Json.Decode`.
-/

namespace TableForest.Json

/-- A collection that is still open; its elements stand in reverse. -/
inductive Frame where
  | array (items : List Json)
  | object (members : List (Option String × Json))
  | member (members : List (Option String × Json)) (key : Option String)

/-- What may come next. -/
inductive Expected where
  | value
  | valueOrEnd
  | key
  | keyOrEnd
  | colon
  | separator
  | nothing
  deriving DecidableEq, Repr

/-- The reader after some tokens. -/
structure Reader where
  frames : List Frame
  expected : Expected
  result : Option Json

namespace Reader

def start : Reader := ⟨[], .value, none⟩

/-- A value has ended: it belongs to the innermost open collection or is the result. -/
def give? (frames : List Frame) (v : Json) : Option Reader :=
  match frames with
  | [] => some ⟨[], .nothing, some v⟩
  | .array items :: rest => some ⟨.array (v :: items) :: rest, .separator, none⟩
  | .member members key :: rest => some ⟨.object ((key, v) :: members) :: rest, .separator, none⟩
  | .object _ :: _ => none

def begin? (frames : List Frame) : Token → Option Reader
  | .null => give? frames .null
  | .bool b => give? frames (.bool b)
  | .number n => give? frames (.number n)
  | .string s => give? frames (.string s)
  | .beginArray => some ⟨.array [] :: frames, .valueOrEnd, none⟩
  | .beginObject => some ⟨.object [] :: frames, .keyOrEnd, none⟩
  | _ => none

def end? : List Frame → Token → Option Reader
  | .array items :: rest, .endArray => give? rest (.array items.reverse)
  | .object members :: rest, .endObject => give? rest (.object members.reverse)
  | _, _ => none

def key? : List Frame → Token → Option Reader
  | .object members :: rest, .string key => some ⟨.member members key :: rest, .colon, none⟩
  | _, _ => none

def separator? (frames : List Frame) (t : Token) : Option Reader :=
  match frames, t with
  | .array _ :: _, .comma => some ⟨frames, .value, none⟩
  | .object _ :: _, .comma => some ⟨frames, .key, none⟩
  | _, _ => end? frames t

def step? (r : Reader) (t : Token) : Option Reader :=
  match r.expected with
  | .value => begin? r.frames t
  | .valueOrEnd => if t matches .endArray then end? r.frames t else begin? r.frames t
  | .key => key? r.frames t
  | .keyOrEnd => if t matches .endObject then end? r.frames t else key? r.frames t
  | .colon => if t matches .colon then some ⟨r.frames, .value, none⟩ else none
  | .separator => separator? r.frames t
  | .nothing => none

end Reader

def ofTokens? (ts : List Token) : Option Json :=
  (ts.foldlM Reader.step? Reader.start).bind Reader.result

def read? (bs : Bytes) : Option Json :=
  (tokens? bs).bind ofTokens?

end TableForest.Json
