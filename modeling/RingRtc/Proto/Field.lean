import RingRtc.Proto.Wire
import RingRtc.Proto.Utf8

/-! # Fields, the merge loop and prost's `Message`

prost decodes a message by reading a key and handing the rest of the buffer to the
message's `merge_field`, until the buffer is used up. A nested message is decoded by
the same loop against a limit: it runs while more than `limit` bytes remain and must
stop exactly there (`merge_loop`). Unknown fields are skipped by their wire type
(`skip_field`), groups included. A `DecodeContext` goes down with every field and counts
the levels the decoder may still enter: it starts at 100, a nested message and the fields
of a group are read one level down, and at 0 prost stops with an error.
-/
namespace RingRtc.Proto

/-- prost's `RECURSION_LIMIT`. -/
def recursionLimit : Nat := 100

/-- prost's `DecodeContext`: how many more levels of nesting the decoder enters. -/
structure DecodeContext where
  recurseCount : Nat
  deriving DecidableEq, Repr

namespace DecodeContext

/-- `DecodeContext::default`. -/
def default : DecodeContext := ⟨recursionLimit⟩

/-- `enter_recursion`, called where `limit_reached` has passed. -/
def enterRecursion (ctx : DecodeContext) : DecodeContext := ⟨ctx.recurseCount - 1⟩

/-- `limit_reached`. -/
def limitReached (ctx : DecodeContext) : Except DecodeError Unit :=
  if ctx.recurseCount = 0 then .error .recursionLimitReached else .ok ()

@[simp] theorem enterRecursion_recurseCount (ctx : DecodeContext) :
    ctx.enterRecursion.recurseCount = ctx.recurseCount - 1 := rfl

theorem limitReached_of_pos {ctx : DecodeContext} (h : 0 < ctx.recurseCount) :
    ctx.limitReached = .ok () := if_neg (by omega)

end DecodeContext

/-- `check_wire_type`. -/
def checkWireType (expected actual : WireType) : Except DecodeError Unit :=
  if expected = actual then .ok () else .error .unexpectedWireType

/-- A length prefix, then that many bytes: the payload and what follows it. -/
def decodeLengthDelimited (buf : List UInt8) : Except DecodeError (List UInt8 × List UInt8) :=
  match decodeVarint buf with
  | .error e => .error e
  | .ok (len, r) => if r.length < len then .error .bufferUnderflow else .ok (r.take len, r.drop len)

theorem decodeLengthDelimited_encode {bs : List UInt8} (h : bs.length < 2 ^ 64)
    (rest : List UInt8) :
    decodeLengthDelimited (encodeVarint bs.length ++ (bs ++ rest)) = .ok (bs, rest) := by
  simp [decodeLengthDelimited, decodeVarint_encodeVarint h]

theorem decodeLengthDelimited_length {buf p r : List UInt8}
    (h : decodeLengthDelimited buf = .ok (p, r)) : r.length < buf.length := by
  unfold decodeLengthDelimited at h
  split at h
  · cases h
  · rename_i hv
    split at h
    · cases h
    · cases h
      have := decodeVarint_length hv
      simp only [List.length_drop]
      omega

/-- `bytes::merge`: the field's bytes replace the old value. -/
def mergeBytes (wt : WireType) (buf : List UInt8) : Except DecodeError (List UInt8 × List UInt8) :=
  match checkWireType .lengthDelimited wt with
  | .error e => .error e
  | .ok () => decodeLengthDelimited buf

/-- `string::merge`: `bytes::merge`, then the UTF-8 check. -/
def mergeString (wt : WireType) (buf : List UInt8) : Except DecodeError (RustString × List UInt8) :=
  match mergeBytes wt buf with
  | .error e => .error e
  | .ok (bs, r) =>
    match RustString.fromUtf8 bs with
    | some s => .ok (s, r)
    | none => .error .invalidString

theorem mergeBytes_length {wt : WireType} {buf v r : List UInt8}
    (h : mergeBytes wt buf = .ok (v, r)) : r.length < buf.length := by
  unfold mergeBytes at h
  split at h
  · cases h
  · exact decodeLengthDelimited_length h

theorem mergeString_length {wt : WireType} {buf r : List UInt8} {s : RustString}
    (h : mergeString wt buf = .ok (s, r)) : r.length < buf.length := by
  unfold mergeString at h
  split at h
  · cases h
  · rename_i hb
    split at h
    · cases h; exact mergeBytes_length hb
    · cases h

theorem mergeBytes_encode {bs : List UInt8} (h : bs.length < 2 ^ 64) (rest : List UInt8) :
    mergeBytes .lengthDelimited (encodeVarint bs.length ++ (bs ++ rest)) = .ok (bs, rest) := by
  simp [mergeBytes, checkWireType, decodeLengthDelimited_encode h]

theorem mergeString_encode {s : RustString} (h : s.bytes.length < 2 ^ 64) (rest : List UInt8) :
    mergeString .lengthDelimited (encodeVarint s.bytes.length ++ (s.bytes ++ rest)) =
      .ok (s, rest) := by
  simp [mergeString, mergeBytes_encode h]

mutual
/-- `skip_field`, once the key is read: the bytes after the field's value. The fields of a
group are skipped one level down. -/
def skipField (ctx : DecodeContext) (wt : WireType) (tag : Nat) (buf : List UInt8) :
    Except DecodeError {r : List UInt8 // r.length < buf.length} :=
  match ctx.limitReached with
  | .error e => .error e
  | .ok () =>
    match wt with
    | .varint =>
      match h : decodeVarint buf with
      | .ok (_, r) => .ok ⟨r, decodeVarint_length h⟩
      | .error e => .error e
    | .sixtyFourBit =>
      if h : buf.length < 8 then .error .bufferUnderflow
      else .ok ⟨buf.drop 8, by simp only [List.length_drop]; omega⟩
    | .lengthDelimited =>
      match h : decodeLengthDelimited buf with
      | .ok (_, r) => .ok ⟨r, decodeLengthDelimited_length h⟩
      | .error e => .error e
    | .startGroup => skipGroup ctx.enterRecursion tag buf
    | .endGroup => .error .unexpectedEndGroup
    | .thirtyTwoBit =>
      if h : buf.length < 4 then .error .bufferUnderflow
      else .ok ⟨buf.drop 4, by simp only [List.length_drop]; omega⟩
termination_by (buf.length, 1)

/-- The loop of `skip_field` over a group's fields, up to its end-group key; `ctx` is the
context its fields are skipped with. -/
def skipGroup (ctx : DecodeContext) (tag : Nat) (buf : List UInt8) :
    Except DecodeError {r : List UInt8 // r.length < buf.length} :=
  match h : decodeKey buf with
  | .error e => .error e
  | .ok (t, w, r) =>
    if w = .endGroup then
      if t = tag then .ok ⟨r, decodeKey_length h⟩ else .error .unexpectedEndGroup
    else
      match skipField ctx w t r with
      | .error e => .error e
      | .ok ⟨r', h'⟩ =>
        match skipGroup ctx tag r' with
        | .error e => .error e
        | .ok ⟨r'', h''⟩ => .ok ⟨r'', by have := decodeKey_length h; omega⟩
termination_by (buf.length, 0)
decreasing_by
  · exact Prod.Lex.left _ _ (decodeKey_length h)
  · exact Prod.Lex.left _ _ (by have := decodeKey_length h; omega)
end

-- `h` and `h'` are read only by `decreasing_by`, which the linter does not see.
set_option linter.unusedVariables false in
/-- The loop of prost's `merge` and `merge_loop`: read keys and merge fields while more
than `limit` bytes remain, then require that exactly `limit` are left. -/
def mergeLoop {α : Type}
    (f : α → Nat → WireType → List UInt8 → DecodeContext → Except DecodeError (α × List UInt8))
    (hf : ∀ {m t w buf ctx m' r}, f m t w buf ctx = .ok (m', r) → r.length ≤ buf.length)
    (ctx : DecodeContext) (limit : Nat) (m : α) (buf : List UInt8) :
    Except DecodeError (α × List UInt8) :=
  if limit < buf.length then
    match h : decodeKey buf with
    | .error e => .error e
    | .ok (tag, wt, r) =>
      match h' : f m tag wt r ctx with
      | .error e => .error e
      | .ok (m', r') => mergeLoop f hf ctx limit m' r'
  else if buf.length = limit then .ok (m, buf) else .error .delimitedLengthExceeded
termination_by buf.length
decreasing_by have := decodeKey_length h; have := hf h'; omega

section MergeLoop

variable {α : Type}
  {f : α → Nat → WireType → List UInt8 → DecodeContext → Except DecodeError (α × List UInt8)}
  {hf : ∀ {m t w buf ctx m' r}, f m t w buf ctx = .ok (m', r) → r.length ≤ buf.length}
  {ctx : DecodeContext}

theorem mergeLoop_done {limit : Nat} (m : α) {buf : List UInt8} (h : buf.length = limit) :
    mergeLoop f hf ctx limit m buf = .ok (m, buf) := by
  rw [mergeLoop, if_neg (by omega), if_pos h]

/-- One turn of the loop: a key, then the field it names. -/
theorem mergeLoop_field {limit tag : Nat} {wt : WireType} {m m' : α} {buf r r' : List UInt8}
    (hl : limit < buf.length) (hk : decodeKey buf = .ok (tag, wt, r))
    (hm : f m tag wt r ctx = .ok (m', r')) :
    mergeLoop f hf ctx limit m buf = mergeLoop f hf ctx limit m' r' := by
  rw [mergeLoop, if_pos hl]
  split
  · simp_all
  · rename_i hk'
    rw [hk] at hk'
    cases hk'
    split <;> simp_all

theorem mergeLoop_length {limit : Nat} {m m' : α} {buf r : List UInt8}
    (h : mergeLoop f hf ctx limit m buf = .ok (m', r)) : r.length = limit := by
  obtain ⟨n, hn⟩ : ∃ n, buf.length = n := ⟨_, rfl⟩
  induction n using Nat.strong_induction_on generalizing buf m with
  | _ n ih =>
    rw [mergeLoop] at h
    split at h
    · split at h
      · cases h
      · rename_i hk
        split at h
        · cases h
        · rename_i hm
          have := decodeKey_length hk
          have := hf hm
          exact ih _ (by omega) h rfl
    · split at h
      · cases h; assumption
      · cases h

end MergeLoop

/-- `bytes::encode` and `string::encode`: the key, the length, the bytes. -/
def encodeBytesField (tag : Nat) (bs : List UInt8) : List UInt8 :=
  encodeKey tag .lengthDelimited ++ encodeVarint bs.length ++ bs

/-- A length-delimited field takes at most twenty bytes more than its value. -/
theorem length_encodeBytesField_le {tag : Nat} {p : List UInt8} (ht : tag < 2 ^ 29)
    (hp : p.length < 2 ^ 64) : (encodeBytesField tag p).length ≤ p.length + 20 := by
  have hk := encodeVarint_length_le 9 (tag * 8 + WireType.lengthDelimited.toNat)
    (by simp only [WireType.toNat]; omega)
  have hv := encodeVarint_length_le 9 p.length (by omega)
  simp only [encodeBytesField, encodeKey, List.length_append]
  omega

/-- An optional field is written only when it is set. -/
def encodeOptional {β : Type} (enc : Nat → β → List UInt8) (tag : Nat) : Option β → List UInt8
  | some v => enc tag v
  | none => []

theorem length_encodeOptional_le {β : Type} {f : β → List UInt8} {tag bound : Nat}
    {o : Option β} (ht : tag < 2 ^ 29) (hb : bound < 2 ^ 64) (h : ∀ v ∈ o, (f v).length ≤ bound) :
    (encodeOptional (fun t v => encodeBytesField t (f v)) tag o).length ≤ bound + 20 := by
  cases o with
  | none => simp [encodeOptional]
  | some v =>
    have := h v rfl
    exact (length_encodeBytesField_le ht (by omega)).trans (by omega)

/-- The loop reads a length-delimited field that prost wrote with a valid tag. -/
theorem mergeLoop_encodeBytesField {α : Type}
    {f : α → Nat → WireType → List UInt8 → DecodeContext → Except DecodeError (α × List UInt8)}
    {hf : ∀ {m t w buf ctx m' r}, f m t w buf ctx = .ok (m', r) → r.length ≤ buf.length}
    {ctx : DecodeContext} {limit tag : Nat} {m m' : α} {payload rest : List UInt8}
    (hl : limit ≤ rest.length) (h₀ : 0 < tag) (h₁ : tag < 2 ^ 29)
    (hm : f m tag .lengthDelimited (encodeVarint payload.length ++ (payload ++ rest)) ctx =
      .ok (m', rest)) :
    mergeLoop f hf ctx limit m (encodeBytesField tag payload ++ rest) =
      mergeLoop f hf ctx limit m' rest := by
  have hk := decodeKey_encodeKey .lengthDelimited (encodeVarint payload.length ++ (payload ++ rest))
    h₀ h₁
  have := encodeVarint_length_pos (tag * 8 + 2)
  refine mergeLoop_field ?_ (by simpa [encodeBytesField] using hk) hm
  simp [encodeBytesField, encodeKey, WireType.toNat]
  omega

/-- The merge loop takes `m` to `m'` over the bytes `b`, whatever follows them and wherever
its limit lies in what follows: `b` holds whole fields. -/
def Steps {α : Type}
    (f : α → Nat → WireType → List UInt8 → DecodeContext → Except DecodeError (α × List UInt8))
    (hf : ∀ {m t w buf ctx m' r}, f m t w buf ctx = .ok (m', r) → r.length ≤ buf.length)
    (ctx : DecodeContext) (m : α) (b : List UInt8) (m' : α) : Prop :=
  ∀ limit rest, limit ≤ rest.length →
    mergeLoop f hf ctx limit m (b ++ rest) = mergeLoop f hf ctx limit m' rest

section Steps

variable {α : Type}
  {f : α → Nat → WireType → List UInt8 → DecodeContext → Except DecodeError (α × List UInt8)}
  {hf : ∀ {m t w buf ctx m' r}, f m t w buf ctx = .ok (m', r) → r.length ≤ buf.length}
  {ctx : DecodeContext}

theorem steps_nil (m : α) : Steps f hf ctx m [] m := fun _ _ _ => rfl

theorem Steps.append {m₁ m₂ m₃ : α} {b c : List UInt8} (h₁ : Steps f hf ctx m₁ b m₂)
    (h₂ : Steps f hf ctx m₂ c m₃) : Steps f hf ctx m₁ (b ++ c) m₃ := fun limit rest hl => by
  rw [List.append_assoc, h₁ limit (c ++ rest) (by simp only [List.length_append]; omega),
    h₂ limit rest hl]

/-- A length-delimited field that `merge_field` reads whole is a segment. -/
theorem steps_bytesField {m m' : α} {tag : Nat} {p : List UInt8} (h₀ : 0 < tag)
    (h₁ : tag < 2 ^ 29)
    (hm : ∀ rest,
      f m tag .lengthDelimited (encodeVarint p.length ++ (p ++ rest)) ctx = .ok (m', rest)) :
    Steps f hf ctx m (encodeBytesField tag p) m' :=
  fun _ rest hl => mergeLoop_encodeBytesField hl h₀ h₁ (hm rest)

/-- Bytes the loop reads from `m` to `m'` are read whole when the limit is what follows
them. -/
theorem Steps.mergeLoop_eq {m m' : α} {b : List UInt8} (h : Steps f hf ctx m b m')
    (rest : List UInt8) : mergeLoop f hf ctx rest.length m (b ++ rest) = .ok (m', rest) :=
  (h rest.length rest le_rfl).trans (mergeLoop_done m' rfl)

end Steps

/-- prost's `Message`: the default value, `merge_field`, and `encode_raw` (the fields of
the message, without a length prefix), with the round trip that prost's derive
guarantees: decoding what `encode` writes, up to any bytes that follow, gives the message
back and stops exactly where it ends. It holds when the encoding is shorter than `2 ^ 64`
bytes, so that every length inside it fits a `u64`, and when the context allows the
`depth` levels of messages nested in it. -/
class Message (α : Type) where
  default : α
  depth : Nat
  mergeField : α → Nat → WireType → List UInt8 → DecodeContext →
    Except DecodeError (α × List UInt8)
  mergeField_length : ∀ {m t w buf ctx m' r},
    mergeField m t w buf ctx = .ok (m', r) → r.length ≤ buf.length
  encode : α → List UInt8
  decode_encode : ∀ (m : α) (rest : List UInt8) (ctx : DecodeContext),
    depth ≤ ctx.recurseCount → (encode m).length < 2 ^ 64 →
    mergeLoop mergeField mergeField_length ctx rest.length default (encode m ++ rest) =
      .ok (m, rest)

namespace Message

variable {α : Type} [Message α]

/-- `Message::merge` into `m` over the whole buffer, from the default context. -/
def merge (m : α) (buf : List UInt8) : Except DecodeError (α × List UInt8) :=
  mergeLoop mergeField mergeField_length DecodeContext.default 0 m buf

/-- `Message::decode`. -/
def decode (buf : List UInt8) : Except DecodeError α :=
  match merge default buf with
  | .ok (m, _) => .ok m
  | .error e => .error e

theorem decode_encode' (m : α) (hd : depth α ≤ recursionLimit)
    (hl : (encode m).length < 2 ^ 64) : decode (encode m) = .ok m := by
  have := decode_encode m [] DecodeContext.default hd (by simpa using hl)
  simp only [List.append_nil, List.length_nil] at this
  simp [decode, merge, this]

/-- `message::merge` for a nested message field: the length prefix, then the merge loop
one level down, against the limit the prefix sets. -/
def mergeNested (wt : WireType) (m : α) (buf : List UInt8) (ctx : DecodeContext) :
    Except DecodeError (α × List UInt8) :=
  match checkWireType .lengthDelimited wt with
  | .error e => .error e
  | .ok () =>
    match ctx.limitReached with
    | .error e => .error e
    | .ok () =>
      match decodeVarint buf with
      | .error e => .error e
      | .ok (len, r) =>
        if r.length < len then .error .bufferUnderflow
        else mergeLoop mergeField mergeField_length ctx.enterRecursion (r.length - len) m r

theorem mergeNested_length {wt : WireType} {m m' : α} {buf r : List UInt8} {ctx : DecodeContext}
    (h : mergeNested wt m buf ctx = .ok (m', r)) : r.length < buf.length := by
  unfold mergeNested at h
  split at h
  · cases h
  · split at h
    · cases h
    · split at h
      · cases h
      · rename_i hv
        split at h
        · cases h
        · have := mergeLoop_length h
          have := decodeVarint_length hv
          omega

/-- `message::encode`: the key, the length of the encoding, the encoding. -/
def encodeNested (tag : Nat) (m : α) : List UInt8 :=
  encodeBytesField tag (encode m)

theorem mergeNested_encode (m : α) (rest : List UInt8) {ctx : DecodeContext}
    (hd : depth α < ctx.recurseCount) (hl : (encode m).length < 2 ^ 64) :
    mergeNested .lengthDelimited default (encodeVarint (encode m).length ++ (encode m ++ rest))
      ctx = .ok (m, rest) := by
  have h := decode_encode m rest ctx.enterRecursion (by simp; omega) hl
  simp only [List.length_append, Nat.add_sub_cancel] at h
  simp [mergeNested, checkWireType, DecodeContext.limitReached_of_pos (Nat.zero_lt_of_lt hd),
    decodeVarint_encodeVarint hl, h]

end Message

/-- prost's `Message` for `()`: no fields, every key skipped. -/
instance : Message Unit where
  default := ()
  depth := 0
  mergeField m tag wt buf ctx :=
    match skipField ctx wt tag buf with
    | .ok ⟨r, _⟩ => .ok (m, r)
    | .error e => .error e
  mergeField_length h := by
    simp only at h
    split at h <;> cases h
    exact Nat.le_of_lt ‹_›
  encode _ := []
  decode_encode _ _ _ _ _ := mergeLoop_done _ rfl

end RingRtc.Proto
