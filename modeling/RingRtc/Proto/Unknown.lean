import RingRtc.Core.Signaling

/-! # Fields a decoder does not know

A newer peer may send fields that this version does not know. The `merge_field` that prost
generates hands every tag it does not know to `skip_field`, which reads past the field by
its wire type, groups of fields included, and drops it. A field written as protobuf writes
it is skipped exactly, as long as the decoder may still enter the levels of groups it holds,
and the merge loop that meets it goes on as if it were not there. Bytes that hold whole
fields are a segment of the loop (`Steps`), and segments compose; so the signaling payloads
decode to the same message whatever unknown fields stand before, between and after the
fields they know, at either level of nesting, within prost's limits: fewer than `2 ^ 64`
bytes and fewer than 100 levels of nesting.
-/
namespace RingRtc.Proto

/-- A field number a key can carry: from 1 to `2 ^ 29 - 1`. -/
structure FieldTag where
  val : Nat
  pos : 0 < val
  lt : val < 2 ^ 29

/-- The `n` little-endian bytes of a fixed-width value. -/
def fixedBytes (n v : Nat) : List UInt8 := (List.range n).map fun i => UInt8.ofNat (v / 256 ^ i)

@[simp] theorem fixedBytes_length (n v : Nat) : (fixedBytes n v).length = n := by
  simp [fixedBytes]

/-- A field as a protobuf writer puts it on the wire, of any wire type; a group holds
fields. -/
inductive UnknownField where
  | varint (tag : FieldTag) (value : UInt64)
  | fixed64 (tag : FieldTag) (value : UInt64)
  | lengthDelimited (tag : FieldTag) (payload : List UInt8)
  | group (tag : FieldTag) (fields : List UnknownField)
  | fixed32 (tag : FieldTag) (value : UInt32)

namespace UnknownField

def tag : UnknownField → FieldTag
  | varint t _ | fixed64 t _ | lengthDelimited t _ | group t _ | fixed32 t _ => t

def wireType : UnknownField → WireType
  | varint .. => .varint
  | fixed64 .. => .sixtyFourBit
  | lengthDelimited .. => .lengthDelimited
  | group .. => .startGroup
  | fixed32 .. => .thirtyTwoBit

theorem wireType_ne_endGroup (u : UnknownField) : u.wireType ≠ .endGroup := by
  cases u <;> nofun

mutual
/-- The levels of `skip_field` a field takes: one, and one more for each group around it. -/
def depth : UnknownField → Nat
  | varint .. | fixed64 .. | lengthDelimited .. | fixed32 .. => 1
  | group _ fs => depthAll fs + 1

def depthAll : List UnknownField → Nat
  | [] => 0
  | u :: us => max u.depth (depthAll us)
end

mutual
/-- The bytes of a field after its key; a group ends with its end-group key. -/
def body : UnknownField → List UInt8
  | varint _ v => encodeVarint v.toNat
  | fixed64 _ v => fixedBytes 8 v.toNat
  | lengthDelimited _ p => encodeVarint p.length ++ p
  | group t fs => encodeAll fs ++ encodeKey t.val .endGroup
  | fixed32 _ v => fixedBytes 4 v.toNat

/-- Fields one after another, each its key and then its bytes. -/
def encodeAll : List UnknownField → List UInt8
  | [] => []
  | u :: us => encodeKey u.tag.val u.wireType ++ u.body ++ encodeAll us
end

/-! ## `skip_field` reads exactly one field -/

section Skip

variable {ctx : DecodeContext} (hc : 0 < ctx.recurseCount)
include hc

theorem skipField_varint {t : Nat} {buf r : List UInt8} {v : Nat}
    (h : decodeVarint buf = .ok (v, r)) : ∃ hr, skipField ctx .varint t buf = .ok ⟨r, hr⟩ := by
  rw [skipField, DecodeContext.limitReached_of_pos hc]
  dsimp only
  split <;> rename_i hv <;> rw [h] at hv <;> cases hv
  exact ⟨decodeVarint_length h, rfl⟩

theorem skipField_lengthDelimited {t : Nat} {p : List UInt8} (hp : p.length < 2 ^ 64)
    (rest : List UInt8) :
    ∃ hr, skipField ctx .lengthDelimited t (encodeVarint p.length ++ p ++ rest) =
      .ok ⟨rest, hr⟩ := by
  have h := decodeLengthDelimited_encode hp rest
  rw [← List.append_assoc] at h
  rw [skipField, DecodeContext.limitReached_of_pos hc]
  dsimp only
  split <;> rename_i hv <;> rw [h] at hv <;> cases hv
  exact ⟨decodeLengthDelimited_length h, rfl⟩

theorem skipField_fixed {t n : Nat} {w : WireType}
    (hw : w = .sixtyFourBit ∧ n = 8 ∨ w = .thirtyTwoBit ∧ n = 4) (b rest : List UInt8)
    (hb : b.length = n) : ∃ hr, skipField ctx w t (b ++ rest) = .ok ⟨rest, hr⟩ := by
  rcases hw with ⟨rfl, rfl⟩ | ⟨rfl, rfl⟩ <;>
  · rw [skipField, DecodeContext.limitReached_of_pos hc]
    dsimp only
    rw [dif_neg (by simp [hb])]
    exact ⟨by simp [hb], by simp [List.drop_left' hb]⟩

end Skip

theorem skipGroup_end {ctx : DecodeContext} {t : Nat} {buf r : List UInt8}
    (h : decodeKey buf = .ok (t, .endGroup, r)) : ∃ hr, skipGroup ctx t buf = .ok ⟨r, hr⟩ := by
  rw [skipGroup]
  split <;> rename_i hk <;> rw [h] at hk <;> cases hk
  exact ⟨decodeKey_length h, by simp⟩

/-- One turn of the group loop: a field that is not an end-group key is skipped, and the
loop goes on after it. -/
theorem skipGroup_field {ctx : DecodeContext} {tag t : Nat} {w : WireType}
    {buf r r' rest : List UInt8} (hk : decodeKey buf = .ok (t, w, r)) (hw : w ≠ .endGroup)
    (hs : ∃ h, skipField ctx w t r = .ok ⟨r', h⟩)
    (hg : ∃ h, skipGroup ctx tag r' = .ok ⟨rest, h⟩) :
    ∃ h, skipGroup ctx tag buf = .ok ⟨rest, h⟩ := by
  obtain ⟨h₁, hs⟩ := hs
  obtain ⟨h₂, hg⟩ := hg
  rw [skipGroup]
  split <;> rename_i hk' <;> rw [hk] at hk' <;> cases hk'
  refine ⟨by have := decodeKey_length hk; omega, ?_⟩
  simp only [if_neg hw, hs, hg]

mutual
/-- `skip_field` reads exactly the bytes of a field written by protobuf's rules, whatever
follows them, when the context allows the field's levels and its bytes fit the lengths
prost reads; the group loop reads exactly a group's fields and its end-group key. -/
theorem skipField_body : ∀ (u : UnknownField) (rest : List UInt8) (ctx : DecodeContext),
    u.depth ≤ ctx.recurseCount → u.body.length < 2 ^ 64 →
    ∃ h, skipField ctx u.wireType u.tag.val (u.body ++ rest) = .ok ⟨rest, h⟩
  | varint _ v, rest, _, hd, _ =>
    skipField_varint hd (decodeVarint_encodeVarint (show v.toNat < 2 ^ 64 from v.val.isLt) rest)
  | fixed64 _ _, rest, _, hd, _ =>
    skipField_fixed hd (.inl ⟨rfl, rfl⟩) _ rest (fixedBytes_length 8 _)
  | lengthDelimited _ p, rest, _, hd, hl =>
    skipField_lengthDelimited hd (by simp only [body, List.length_append] at hl; omega) rest
  | group t us, rest, ctx, hd, hl => by
    simp only [depth] at hd
    simp only [body, List.length_append] at hl
    rw [wireType, skipField, DecodeContext.limitReached_of_pos (by omega)]
    exact skipGroup_encodeAll t us rest ctx.enterRecursion (by simp; omega) (by omega)
  | fixed32 _ _, rest, _, hd, _ =>
    skipField_fixed hd (.inr ⟨rfl, rfl⟩) _ rest (fixedBytes_length 4 _)

theorem skipGroup_encodeAll : ∀ (t : FieldTag) (us : List UnknownField) (rest : List UInt8)
    (ctx : DecodeContext), depthAll us ≤ ctx.recurseCount → (encodeAll us).length < 2 ^ 64 →
    ∃ h, skipGroup ctx t.val (encodeAll us ++ encodeKey t.val .endGroup ++ rest) = .ok ⟨rest, h⟩
  | t, [], rest, _, _, _ => skipGroup_end (decodeKey_encodeKey .endGroup rest t.pos t.lt)
  | t, u :: us, rest, ctx, hd, hl => by
    have hk : decodeKey (encodeAll (u :: us) ++ encodeKey t.val .endGroup ++ rest) =
        .ok (u.tag.val, u.wireType,
          u.body ++ (encodeAll us ++ encodeKey t.val .endGroup ++ rest)) := by
      simpa only [encodeAll, List.append_assoc] using
        decodeKey_encodeKey u.wireType _ u.tag.pos u.tag.lt
    simp only [depthAll] at hd
    simp only [encodeAll, List.length_append] at hl
    exact skipGroup_field hk (wireType_ne_endGroup u)
      (skipField_body u _ ctx ((Nat.max_le.1 hd).1) (by omega))
      (skipGroup_encodeAll t us rest ctx ((Nat.max_le.1 hd).2) (by omega))
end

end UnknownField

open UnknownField

/-! ## Unknown fields as segments of the merge loop -/

/-- `merge_field` hands the tag `t` to `skip_field` and keeps the message, as prost's
generated code does for every tag it does not know. -/
def Skips {α : Type}
    (f : α → Nat → WireType → List UInt8 → DecodeContext → Except DecodeError (α × List UInt8))
    (t : Nat) : Prop :=
  ∀ m wt buf ctx, f m t wt buf ctx =
    match skipField ctx wt t buf with
    | .ok ⟨r, _⟩ => .ok (m, r)
    | .error e => .error e

section Steps

variable {α : Type}
  {f : α → Nat → WireType → List UInt8 → DecodeContext → Except DecodeError (α × List UInt8)}
  {hf : ∀ {m t w buf ctx m' r}, f m t w buf ctx = .ok (m', r) → r.length ≤ buf.length}
  {ctx : DecodeContext}

/-- A field whose tag `merge_field` skips is a segment that keeps the message, when the
context allows its levels and its bytes fit. -/
theorem steps_unknown (m : α) (u : UnknownField) (hs : Skips f u.tag.val)
    (hd : u.depth ≤ ctx.recurseCount) (hl : u.body.length < 2 ^ 64) :
    Steps f hf ctx m (encodeKey u.tag.val u.wireType ++ u.body) m := fun limit rest hlim => by
  obtain ⟨h, hb⟩ := skipField_body u rest ctx hd hl
  have hk := decodeKey_encodeKey u.wireType (u.body ++ rest) u.tag.pos u.tag.lt
  have := encodeVarint_length_pos (u.tag.val * 8 + u.wireType.toNat)
  rw [List.append_assoc]
  refine mergeLoop_field ?_ hk (by rw [hs, hb])
  simp only [encodeKey, List.length_append] at this ⊢
  omega

theorem steps_encodeAll (m : α) :
    ∀ us : List UnknownField, (∀ u ∈ us, Skips f u.tag.val) → depthAll us ≤ ctx.recurseCount →
      (encodeAll us).length < 2 ^ 64 → Steps f hf ctx m (encodeAll us) m
  | [], _, _, _ => steps_nil m
  | u :: us, hs, hd, hl => by
    simp only [depthAll] at hd
    simp only [encodeAll, List.length_append] at hl
    rw [encodeAll]
    exact (steps_unknown m u (hs u (List.mem_cons_self u us)) ((Nat.max_le.1 hd).1)
      (by omega)).append (steps_encodeAll m us (fun v hv => hs v (List.mem_cons_of_mem u hv))
        ((Nat.max_le.1 hd).2) (by omega))

end Steps

/-! ## Unknown fields around the known ones -/

/-- Unknown fields that a newer writer puts before, between and after the known fields of a
message. -/
structure Padding where
  front : List UnknownField
  middle : List UnknownField
  back : List UnknownField

namespace Padding

/-- The bytes of two known fields with the padding around and between them. -/
def wrap (pd : Padding) (f₁ f₂ : List UInt8) : List UInt8 :=
  encodeAll pd.front ++ f₁ ++ encodeAll pd.middle ++ f₂ ++ encodeAll pd.back

/-- No field of the padding carries one of the `known` tags. -/
def Avoids (pd : Padding) (known : List Nat) : Prop :=
  ∀ u ∈ pd.front ++ pd.middle ++ pd.back, u.tag.val ∉ known

instance (pd : Padding) (known : List Nat) : Decidable (pd.Avoids known) :=
  inferInstanceAs (Decidable (∀ u ∈ pd.front ++ pd.middle ++ pd.back, u.tag.val ∉ known))

/-- The levels of `skip_field` the deepest field of the padding takes. -/
def depth (pd : Padding) : Nat :=
  max (depthAll pd.front) (max (depthAll pd.middle) (depthAll pd.back))

variable {α : Type}
  {f : α → Nat → WireType → List UInt8 → DecodeContext → Except DecodeError (α × List UInt8)}
  {hf : ∀ {m t w buf ctx m' r}, f m t w buf ctx = .ok (m', r) → r.length ≤ buf.length}
  {ctx : DecodeContext}

/-- Padding whose tags `merge_field` skips, whose levels the context allows and whose bytes
fit, changes nothing the two fields do. -/
theorem steps_wrap {pd : Padding} {known : List Nat} (ha : pd.Avoids known)
    (hs : ∀ t, t ∉ known → Skips f t) (hd : pd.depth ≤ ctx.recurseCount) {m m₁ m₂ : α}
    {b₁ b₂ : List UInt8} (hl : (pd.wrap b₁ b₂).length < 2 ^ 64) (h₁ : Steps f hf ctx m b₁ m₁)
    (h₂ : Steps f hf ctx m₁ b₂ m₂) : Steps f hf ctx m (pd.wrap b₁ b₂) m₂ := by
  have hu : ∀ l, (∀ u ∈ l, u ∈ pd.front ++ pd.middle ++ pd.back) → depthAll l ≤ ctx.recurseCount →
      (encodeAll l).length < 2 ^ 64 → ∀ m, Steps f hf ctx m (encodeAll l) m :=
    fun l hl hdl hll m => steps_encodeAll m l (fun u hu => hs _ (ha u (hl u hu))) hdl hll
  simp only [depth, Nat.max_le] at hd
  simp only [wrap, List.length_append] at hl
  exact ((((hu _ (fun u h => by simp [h]) hd.1 (by omega) m).append h₁).append
    (hu _ (fun u h => by simp [h]) hd.2.1 (by omega) m₁)).append h₂).append
      (hu _ (fun u h => by simp [h]) hd.2.2 (by omega) m₂)

end Padding

namespace Message

variable {α : Type} [Message α]

/-- Bytes the loop reads from the default message to `m`, from the default context, decode
to `m`. -/
theorem decode_of_steps {b : List UInt8} {m : α}
    (h : Steps mergeField mergeField_length DecodeContext.default default b m) :
    decode b = .ok m := by
  have := h.mergeLoop_eq []
  rw [List.append_nil, List.length_nil] at this
  simp [decode, merge, this]

/-- A nested message field whose bytes the loop reads from `m₀` to `m`, one level down,
merges to `m`. -/
theorem mergeNested_of_steps {ctx : DecodeContext} {b : List UInt8} {m₀ m : α}
    (h : Steps mergeField mergeField_length ctx.enterRecursion m₀ b m)
    (hc : 0 < ctx.recurseCount) (hl : b.length < 2 ^ 64) (rest : List UInt8) :
    mergeNested .lengthDelimited m₀ (encodeVarint b.length ++ (b ++ rest)) ctx =
      .ok (m, rest) := by
  simp [mergeNested, checkWireType, DecodeContext.limitReached_of_pos hc,
    decodeVarint_encodeVarint hl, h.mergeLoop_eq rest]

end Message

/-! ## The signaling messages -/

namespace Signaling

open Message

namespace ConnectionParametersV3OrV2

theorem skips {t : Nat} (h : t ∉ [1, 2]) : Skips mergeField t := fun m wt buf ctx =>
  mergeField.eq_3 m t wt buf ctx (fun h₁ => h (by simp [h₁])) (fun h₂ => h (by simp [h₂]))

/-- `encode`, as a newer writer may write it: unknown fields around and between the known
ones. -/
def encodePadded (pd : Padding) (m : ConnectionParametersV3OrV2) : List UInt8 :=
  pd.wrap (encodeOptional encodeBytesField 1 m.publicKey)
    (encodeOptional (fun t s => encodeBytesField t s.bytes) 2 m.sdp)

theorem steps_encodePadded {pd : Padding} {ctx : DecodeContext} (ha : pd.Avoids [1, 2])
    (hd : pd.depth ≤ ctx.recurseCount) (m : ConnectionParametersV3OrV2)
    (hl : (encodePadded pd m).length < 2 ^ 64) :
    Steps mergeField mergeField_length ctx ⟨none, none⟩ (encodePadded pd m) m := by
  have hl' := hl
  simp only [encodePadded, Padding.wrap, List.length_append] at hl'
  exact Padding.steps_wrap ha (fun _ => skips) hd hl (steps_publicKey (by omega))
    (steps_sdp (by omega))

end ConnectionParametersV3OrV2

namespace Offer

variable {V4 : Type} [Message V4]

theorem skips {t : Nat} (h : t ∉ [1, 2]) : Skips (@mergeField V4 _) t := fun m wt buf ctx =>
  mergeField.eq_3 m t wt buf ctx (fun h₁ => h (by simp [h₁])) (fun h₂ => h (by simp [h₂]))

/-- `encode`, as a newer writer may write it: unknown fields around and between the known
ones, and inside the legacy parameters. -/
def encodePadded (po pc : Padding) (m : Offer V4) : List UInt8 :=
  po.wrap (encodeOptional (fun t c => encodeBytesField t (c.encodePadded pc)) 1 m.v3OrV2)
    (encodeOptional encodeNested 2 m.v4)

theorem steps_encodePadded {po pc : Padding} {ctx : DecodeContext} (ho : po.Avoids [1, 2])
    (hc : pc.Avoids [1, 2]) (hdo : po.depth ≤ ctx.recurseCount)
    (hdc : pc.depth < ctx.recurseCount) (hd : Message.depth V4 < ctx.recurseCount)
    (m : Offer V4) (hl : (encodePadded po pc m).length < 2 ^ 64) :
    Steps mergeField mergeField_length ctx ⟨none, none⟩ (encodePadded po pc m) m := by
  obtain ⟨v3, v4⟩ := m
  have hl' := hl
  simp only [encodePadded, Padding.wrap, List.length_append] at hl'
  have h₁ : Steps (@mergeField V4 _) mergeField_length ctx ⟨none, none⟩
      (encodeOptional (fun t c => encodeBytesField t (c.encodePadded pc)) 1 v3) ⟨v3, none⟩ := by
    cases v3 with
    | none => exact steps_nil _
    | some c =>
      simp only [encodeOptional, encodeBytesField, List.length_append] at hl'
      refine steps_bytesField (by decide) (by decide) fun rest => ?_
      have := mergeNested_of_steps
        (ConnectionParametersV3OrV2.steps_encodePadded hc (by simp; omega) c (by omega))
        (Nat.zero_lt_of_lt hdc) (by omega) rest
      simp only [mergeField, Option.getD_none]
      exact this ▸ rfl
  have hl₂ : (encodeOptional encodeNested 2 v4).length < 2 ^ 64 := by omega
  exact Padding.steps_wrap ho (fun _ => skips) hdo hl h₁ (steps_v4 hd hl₂)

end Offer

namespace IceCandidateV3OrV2

theorem skips {t : Nat} (h : t ∉ [1]) : Skips mergeField t := fun m wt buf ctx =>
  mergeField.eq_2 m t wt buf ctx fun h₁ => h (by simp [h₁])

/-- `encode`, as a newer writer may write it: unknown fields around the known one. -/
def encodePadded (pd : Padding) (m : IceCandidateV3OrV2) : List UInt8 :=
  pd.wrap (encodeOptional (fun t s => encodeBytesField t s.bytes) 1 m.sdp) []

theorem steps_encodePadded {pd : Padding} {ctx : DecodeContext} (ha : pd.Avoids [1])
    (hd : pd.depth ≤ ctx.recurseCount) (m : IceCandidateV3OrV2)
    (hl : (encodePadded pd m).length < 2 ^ 64) :
    Steps mergeField mergeField_length ctx ⟨none⟩ (encodePadded pd m) m := by
  have hl' := hl
  simp only [encodePadded, Padding.wrap, List.length_append] at hl'
  exact Padding.steps_wrap ha (fun _ => skips) hd hl (steps_sdp (by omega)) (steps_nil _)

end IceCandidateV3OrV2

namespace IceCandidate

theorem skips {t : Nat} (h : t ∉ [1]) : Skips mergeField t := fun m wt buf ctx =>
  mergeField.eq_2 m t wt buf ctx fun h₁ => h (by simp [h₁])

/-- `encode`, as a newer writer may write it: unknown fields around the known one, and
inside the legacy candidate. -/
def encodePadded (pi pv : Padding) (m : IceCandidate) : List UInt8 :=
  pi.wrap (encodeOptional (fun t v => encodeBytesField t (v.encodePadded pv)) 1 m.v3OrV2) []

theorem steps_encodePadded {pi pv : Padding} {ctx : DecodeContext} (hi : pi.Avoids [1])
    (hv : pv.Avoids [1]) (hdi : pi.depth ≤ ctx.recurseCount) (hdv : pv.depth < ctx.recurseCount)
    (m : IceCandidate) (hl : (encodePadded pi pv m).length < 2 ^ 64) :
    Steps mergeField mergeField_length ctx ⟨none⟩ (encodePadded pi pv m) m := by
  obtain ⟨v3⟩ := m
  have hl' := hl
  simp only [encodePadded, Padding.wrap, List.length_append] at hl'
  have h₁ : Steps mergeField mergeField_length ctx ⟨none⟩
      (encodeOptional (fun t v => encodeBytesField t (v.encodePadded pv)) 1 v3) ⟨v3⟩ := by
    cases v3 with
    | none => exact steps_nil _
    | some v =>
      simp only [encodeOptional, encodeBytesField, List.length_append] at hl'
      refine steps_bytesField (by decide) (by decide) fun rest => ?_
      have := mergeNested_of_steps
        (IceCandidateV3OrV2.steps_encodePadded hv (by simp; omega) v (by omega))
        (Nat.zero_lt_of_lt hdv) (by omega) rest
      simp only [mergeField, Option.getD_none]
      exact this ▸ rfl
  exact Padding.steps_wrap hi (fun _ => skips) hdi hl h₁ (steps_nil _)

end IceCandidate

end Signaling

end RingRtc.Proto

namespace RingRtc.Core.Signaling

open RingRtc.Proto

variable {V4 : Type} [Proto.Message V4]

/-- A newer peer may put fields that this version does not know, of any wire type and
groups included, before, between and after the fields it knows, in a payload and in the
legacy parameters or candidate inside it. Within prost's limits (fewer than `2 ^ 64` bytes,
fewer than 100 levels of nesting in all), `Offer::new` and `Answer::new` accept the bytes
and read the message they hold, and an ICE candidate reads the SDP it holds. -/
theorem payloads_skip_unknown_fields (mt : CallMediaType) (p : Proto.Signaling.Offer V4)
    (c : Proto.Signaling.IceCandidate) {po pc pi pv : Padding} (ho : po.Avoids [1, 2])
    (hc : pc.Avoids [1, 2]) (hi : pi.Avoids [1]) (hv : pv.Avoids [1])
    (hd : Message.depth V4 < recursionLimit) (hdo : po.depth ≤ recursionLimit)
    (hdc : pc.depth < recursionLimit) (hdi : pi.depth ≤ recursionLimit)
    (hdv : pv.depth < recursionLimit) (hlp : (p.encodePadded po pc).length < 2 ^ 64)
    (hlc : (c.encodePadded pi pv).length < 2 ^ 64) :
    Offer.new mt (p.encodePadded po pc) = .ok ⟨mt, p.encodePadded po pc, p⟩ ∧
      Answer.new (p.encodePadded po pc) = .ok ⟨p.encodePadded po pc, p⟩ ∧
      (IceCandidate.new (c.encodePadded pi pv)).toV3AndV2Sdp =
        match c.v3OrV2 with
        | some ⟨some sdp⟩ => .ok sdp
        | _ => .error .unknownSignaledProtocolVersion := by
  have hp := Proto.Message.decode_of_steps
    (Proto.Signaling.Offer.steps_encodePadded ho hc hdo hdc hd p hlp)
  have hi := Proto.Message.decode_of_steps
    (Proto.Signaling.IceCandidate.steps_encodePadded hi hv hdi hdv c hlc)
  refine ⟨by simp [Offer.new, deserializeOpaque, hp], by simp [Answer.new, deserializeOpaque, hp],
    ?_⟩
  rw [IceCandidate.toV3AndV2Sdp, IceCandidate.new]
  simp only [hi]
  rcases c with ⟨_ | ⟨_ | _⟩⟩ <;> rfl

theorem payloads_skip_unknown_fields_sample :
    ∃ pd : Padding, pd.Avoids [1, 2] ∧ pd.Avoids [1] ∧ pd.depth < recursionLimit ∧
      Message.depth Unit < recursionLimit ∧
      ((⟨some ⟨some [1], none⟩, some ()⟩ : Proto.Signaling.Offer Unit).encodePadded pd pd).length <
        2 ^ 64 ∧
      ((⟨some ⟨none⟩⟩ : Proto.Signaling.IceCandidate).encodePadded pd pd).length < 2 ^ 64 ∧
      (Offer.new .audio
          ((⟨some ⟨some [1], none⟩, some ()⟩ : Proto.Signaling.Offer Unit).encodePadded pd pd) =
          .ok ⟨.audio,
            (⟨some ⟨some [1], none⟩, some ()⟩ : Proto.Signaling.Offer Unit).encodePadded pd pd,
            ⟨some ⟨some [1], none⟩, some ()⟩⟩ ∧
        Answer.new
          ((⟨some ⟨some [1], none⟩, some ()⟩ : Proto.Signaling.Offer Unit).encodePadded pd pd) =
          .ok ⟨(⟨some ⟨some [1], none⟩, some ()⟩ : Proto.Signaling.Offer Unit).encodePadded pd pd,
            ⟨some ⟨some [1], none⟩, some ()⟩⟩ ∧
        (IceCandidate.new
            ((⟨some ⟨none⟩⟩ : Proto.Signaling.IceCandidate).encodePadded pd pd)).toV3AndV2Sdp =
          .error .unknownSignaledProtocolVersion) :=
  let pd : Padding := ⟨[.varint ⟨3, by decide, by decide⟩ 7],
    [.group ⟨9, by decide, by decide⟩ [.fixed32 ⟨3, by decide, by decide⟩ 5,
      .lengthDelimited ⟨4, by decide, by decide⟩ [1, 2]]],
    [.fixed64 ⟨5, by decide, by decide⟩ 1]⟩
  have ha : pd.Avoids [1, 2] := by decide
  have ha' : pd.Avoids [1] := by decide
  have hd : pd.depth < recursionLimit := by decide
  have hu : Message.depth Unit < recursionLimit := by decide
  have hlp : ((⟨some ⟨some [1], none⟩, some ()⟩ : Proto.Signaling.Offer Unit).encodePadded pd
      pd).length < 2 ^ 64 := by
    simp [pd, Proto.Signaling.Offer.encodePadded, Padding.wrap, UnknownField.encodeAll,
      UnknownField.body, UnknownField.tag, UnknownField.wireType, WireType.toNat, encodeKey,
      encodeOptional, encodeBytesField, Proto.Signaling.ConnectionParametersV3OrV2.encodePadded,
      Message.encodeNested, fixedBytes, UInt64.size, show Message.encode () = [] from rfl]
  have hlc : ((⟨some ⟨none⟩⟩ : Proto.Signaling.IceCandidate).encodePadded pd pd).length <
      2 ^ 64 := by
    simp [pd, Proto.Signaling.IceCandidate.encodePadded, Padding.wrap, UnknownField.encodeAll,
      UnknownField.body, UnknownField.tag, UnknownField.wireType, WireType.toNat, encodeKey,
      encodeOptional, encodeBytesField,
      Proto.Signaling.IceCandidateV3OrV2.encodePadded, fixedBytes, UInt64.size]
  ⟨pd, ha, ha', hd, hu, hlp, hlc,
    payloads_skip_unknown_fields .audio _ _ ha ha ha' ha' hu hd.le hd hd.le hd hlp hlc⟩

end RingRtc.Core.Signaling
