import RingRtc.Proto.Field

/-! # The messages of `signaling.proto`

The prost types `signaling.rs` encodes its payloads with, with the field numbers of the
repository's `signaling.proto`: in `Offer` and `Answer`, `v3_or_v2 = 1` and `v4 = 2`; in
`ConnectionParametersV3OrV2`, `public_key = 1` and `sdp = 2`; in `IceCandidateV3OrV2`,
`sdp = 1`; in `IceCandidate`, `v3_or_v2 = 1`. Every field is optional and written only
when set, in the order of its number.

`ConnectionParametersV4` is not among the sources. It is the parameter `V4`, of which
only its prost `Message` instance is used.
-/
namespace RingRtc.Proto.Signaling

open Message

/-- `protobuf::signaling::ConnectionParametersV3OrV2`. -/
structure ConnectionParametersV3OrV2 where
  publicKey : Option (List UInt8)
  sdp : Option RustString
  deriving DecidableEq

namespace ConnectionParametersV3OrV2

def mergeField (m : ConnectionParametersV3OrV2) (tag : Nat) (wt : WireType) (buf : List UInt8)
    (ctx : DecodeContext) : Except DecodeError (ConnectionParametersV3OrV2 × List UInt8) :=
  match tag with
  | 1 =>
    match mergeBytes wt buf with
    | .ok (v, r) => .ok ({ m with publicKey := some v }, r)
    | .error e => .error e
  | 2 =>
    match mergeString wt buf with
    | .ok (v, r) => .ok ({ m with sdp := some v }, r)
    | .error e => .error e
  | _ =>
    match skipField ctx wt tag buf with
    | .ok ⟨r, _⟩ => .ok (m, r)
    | .error e => .error e

theorem mergeField_length {m : ConnectionParametersV3OrV2} {t : Nat} {w : WireType}
    {buf : List UInt8} {m' : ConnectionParametersV3OrV2} {r : List UInt8} {ctx : DecodeContext}
    (h : mergeField m t w buf ctx = .ok (m', r)) : r.length ≤ buf.length := by
  unfold mergeField at h
  split at h <;> split at h <;> cases h
  · exact Nat.le_of_lt (mergeBytes_length ‹_›)
  · exact Nat.le_of_lt (mergeString_length ‹_›)
  · exact Nat.le_of_lt ‹_›

def encode (m : ConnectionParametersV3OrV2) : List UInt8 :=
  encodeOptional encodeBytesField 1 m.publicKey ++
    encodeOptional (fun t s => encodeBytesField t s.bytes) 2 m.sdp

/-- The public key field takes the loop from the empty message to one with the key. -/
theorem steps_publicKey {ctx : DecodeContext} {pk : Option (List UInt8)}
    (hl : (encodeOptional encodeBytesField 1 pk).length < 2 ^ 64) :
    Steps mergeField mergeField_length ctx ⟨none, none⟩ (encodeOptional encodeBytesField 1 pk)
      ⟨pk, none⟩ := by
  cases pk with
  | none => exact steps_nil _
  | some v =>
    simp only [encodeOptional, encodeBytesField, List.length_append] at hl
    exact steps_bytesField (by decide) (by decide) fun rest => by
      simp [mergeField, mergeBytes_encode (by omega : v.length < 2 ^ 64)]

/-- The SDP field sets the SDP and keeps the key. -/
theorem steps_sdp {ctx : DecodeContext} {pk : Option (List UInt8)} {sdp : Option RustString}
    (hl : (encodeOptional (fun t s => encodeBytesField t s.bytes) 2 sdp).length < 2 ^ 64) :
    Steps mergeField mergeField_length ctx ⟨pk, none⟩
      (encodeOptional (fun t s => encodeBytesField t s.bytes) 2 sdp) ⟨pk, sdp⟩ := by
  cases sdp with
  | none => exact steps_nil _
  | some v =>
    simp only [encodeOptional, encodeBytesField, List.length_append] at hl
    exact steps_bytesField (by decide) (by decide) fun rest => by
      simp [mergeField, mergeString_encode (by omega : v.bytes.length < 2 ^ 64)]

theorem decode_encode (m : ConnectionParametersV3OrV2) (rest : List UInt8) (ctx : DecodeContext)
    (hl : (encode m).length < 2 ^ 64) :
    mergeLoop mergeField mergeField_length ctx rest.length ⟨none, none⟩ (encode m ++ rest) =
      .ok (m, rest) := by
  simp only [encode, List.length_append] at hl
  exact ((steps_publicKey (by omega)).append (steps_sdp (by omega))).mergeLoop_eq rest

instance : Message ConnectionParametersV3OrV2 :=
  ⟨⟨none, none⟩, 0, mergeField, mergeField_length, encode,
    fun m rest ctx _ hl => decode_encode m rest ctx hl⟩

end ConnectionParametersV3OrV2

/-- `protobuf::signaling::Offer`; `Answer` has the same two fields. -/
structure Offer (V4 : Type) where
  v3OrV2 : Option ConnectionParametersV3OrV2
  v4 : Option V4

/-- `protobuf::signaling::Answer`. -/
abbrev Answer (V4 : Type) := Offer V4

namespace Offer

variable {V4 : Type} [Message V4]

def mergeField (m : Offer V4) (tag : Nat) (wt : WireType) (buf : List UInt8)
    (ctx : DecodeContext) : Except DecodeError (Offer V4 × List UInt8) :=
  match tag with
  | 1 =>
    match mergeNested wt (m.v3OrV2.getD default) buf ctx with
    | .ok (v, r) => .ok ({ m with v3OrV2 := some v }, r)
    | .error e => .error e
  | 2 =>
    match mergeNested wt (m.v4.getD default) buf ctx with
    | .ok (v, r) => .ok ({ m with v4 := some v }, r)
    | .error e => .error e
  | _ =>
    match skipField ctx wt tag buf with
    | .ok ⟨r, _⟩ => .ok (m, r)
    | .error e => .error e

theorem mergeField_length {m : Offer V4} {t : Nat} {w : WireType} {buf : List UInt8}
    {m' : Offer V4} {r : List UInt8} {ctx : DecodeContext}
    (h : mergeField m t w buf ctx = .ok (m', r)) :
    r.length ≤ buf.length := by
  unfold mergeField at h
  split at h <;> split at h <;> cases h
  · exact Nat.le_of_lt (mergeNested_length ‹_›)
  · exact Nat.le_of_lt (mergeNested_length ‹_›)
  · exact Nat.le_of_lt ‹_›

def encode (m : Offer V4) : List UInt8 :=
  encodeOptional encodeNested 1 m.v3OrV2 ++ encodeOptional encodeNested 2 m.v4

/-- The legacy parameters field takes the loop from the empty message to one with them. -/
theorem steps_v3OrV2 {ctx : DecodeContext} {v3 : Option ConnectionParametersV3OrV2}
    (hc : 0 < ctx.recurseCount)
    (hl : (encodeOptional encodeNested 1 v3).length < 2 ^ 64) :
    Steps (@mergeField V4 _) mergeField_length ctx ⟨none, none⟩
      (encodeOptional encodeNested 1 v3) ⟨v3, none⟩ := by
  cases v3 with
  | none => exact steps_nil _
  | some c =>
    simp only [encodeOptional, encodeNested, encodeBytesField, List.length_append] at hl
    refine steps_bytesField (by decide) (by decide) fun rest => ?_
    simp only [mergeField, Option.getD_none]
    rw [mergeNested_encode c rest hc (by omega)]

/-- The V4 field sets the V4 parameters and keeps the legacy ones. -/
theorem steps_v4 {ctx : DecodeContext} {v3 : Option ConnectionParametersV3OrV2} {v4 : Option V4}
    (hd : Message.depth V4 < ctx.recurseCount)
    (hl : (encodeOptional encodeNested 2 v4).length < 2 ^ 64) :
    Steps mergeField mergeField_length ctx ⟨v3, none⟩ (encodeOptional encodeNested 2 v4)
      ⟨v3, v4⟩ := by
  cases v4 with
  | none => exact steps_nil _
  | some v =>
    simp only [encodeOptional, encodeNested, encodeBytesField, List.length_append] at hl
    exact steps_bytesField (by decide) (by decide) fun rest => by
      simp [mergeField, mergeNested_encode v rest hd (by omega)]

theorem decode_encode (m : Offer V4) (rest : List UInt8) (ctx : DecodeContext)
    (hd : Message.depth V4 + 1 ≤ ctx.recurseCount) (hl : (encode m).length < 2 ^ 64) :
    mergeLoop mergeField mergeField_length ctx rest.length ⟨none, none⟩ (encode m ++ rest) =
      .ok (m, rest) := by
  simp only [encode, List.length_append] at hl
  exact ((steps_v3OrV2 (by omega) (by omega)).append
    (steps_v4 (by omega) (by omega))).mergeLoop_eq rest

instance : Message (Offer V4) :=
  ⟨⟨none, none⟩, Message.depth V4 + 1, mergeField, mergeField_length, encode, decode_encode⟩

end Offer

/-- `protobuf::signaling::IceCandidateV3OrV2`. -/
structure IceCandidateV3OrV2 where
  sdp : Option RustString
  deriving DecidableEq

namespace IceCandidateV3OrV2

def mergeField (m : IceCandidateV3OrV2) (tag : Nat) (wt : WireType) (buf : List UInt8)
    (ctx : DecodeContext) : Except DecodeError (IceCandidateV3OrV2 × List UInt8) :=
  match tag with
  | 1 =>
    match mergeString wt buf with
    | .ok (v, r) => .ok ({ m with sdp := some v }, r)
    | .error e => .error e
  | _ =>
    match skipField ctx wt tag buf with
    | .ok ⟨r, _⟩ => .ok (m, r)
    | .error e => .error e

theorem mergeField_length {m : IceCandidateV3OrV2} {t : Nat} {w : WireType} {buf : List UInt8}
    {m' : IceCandidateV3OrV2} {r : List UInt8} {ctx : DecodeContext}
    (h : mergeField m t w buf ctx = .ok (m', r)) :
    r.length ≤ buf.length := by
  unfold mergeField at h
  split at h <;> split at h <;> cases h
  · exact Nat.le_of_lt (mergeString_length ‹_›)
  · exact Nat.le_of_lt ‹_›

def encode (m : IceCandidateV3OrV2) : List UInt8 :=
  encodeOptional (fun t s => encodeBytesField t s.bytes) 1 m.sdp

/-- The SDP field takes the loop from the empty candidate to one with the SDP. -/
theorem steps_sdp {ctx : DecodeContext} {sdp : Option RustString}
    (hl : (encodeOptional (fun t s => encodeBytesField t s.bytes) 1 sdp).length < 2 ^ 64) :
    Steps mergeField mergeField_length ctx ⟨none⟩
      (encodeOptional (fun t s => encodeBytesField t s.bytes) 1 sdp) ⟨sdp⟩ := by
  cases sdp with
  | none => exact steps_nil _
  | some v =>
    simp only [encodeOptional, encodeBytesField, List.length_append] at hl
    exact steps_bytesField (by decide) (by decide) fun rest => by
      simp [mergeField, mergeString_encode (by omega : v.bytes.length < 2 ^ 64)]

theorem decode_encode (m : IceCandidateV3OrV2) (rest : List UInt8) (ctx : DecodeContext)
    (hl : (encode m).length < 2 ^ 64) :
    mergeLoop mergeField mergeField_length ctx rest.length ⟨none⟩ (encode m ++ rest) =
      .ok (m, rest) :=
  (steps_sdp hl).mergeLoop_eq rest

instance : Message IceCandidateV3OrV2 :=
  ⟨⟨none⟩, 0, mergeField, mergeField_length, encode,
    fun m rest ctx _ hl => decode_encode m rest ctx hl⟩

end IceCandidateV3OrV2

/-- `protobuf::signaling::IceCandidate`. -/
structure IceCandidate where
  v3OrV2 : Option IceCandidateV3OrV2
  deriving DecidableEq

namespace IceCandidate

def mergeField (m : IceCandidate) (tag : Nat) (wt : WireType) (buf : List UInt8)
    (ctx : DecodeContext) : Except DecodeError (IceCandidate × List UInt8) :=
  match tag with
  | 1 =>
    match mergeNested wt (m.v3OrV2.getD default) buf ctx with
    | .ok (v, r) => .ok ({ m with v3OrV2 := some v }, r)
    | .error e => .error e
  | _ =>
    match skipField ctx wt tag buf with
    | .ok ⟨r, _⟩ => .ok (m, r)
    | .error e => .error e

theorem mergeField_length {m : IceCandidate} {t : Nat} {w : WireType} {buf : List UInt8}
    {m' : IceCandidate} {r : List UInt8} {ctx : DecodeContext}
    (h : mergeField m t w buf ctx = .ok (m', r)) :
    r.length ≤ buf.length := by
  unfold mergeField at h
  split at h <;> split at h <;> cases h
  · exact Nat.le_of_lt (mergeNested_length ‹_›)
  · exact Nat.le_of_lt ‹_›

def encode (m : IceCandidate) : List UInt8 :=
  encodeOptional encodeNested 1 m.v3OrV2

/-- The legacy candidate field takes the loop from the empty candidate to one with it. -/
theorem steps_v3OrV2 {ctx : DecodeContext} {v3 : Option IceCandidateV3OrV2}
    (hc : 0 < ctx.recurseCount) (hl : (encodeOptional encodeNested 1 v3).length < 2 ^ 64) :
    Steps mergeField mergeField_length ctx ⟨none⟩ (encodeOptional encodeNested 1 v3) ⟨v3⟩ := by
  cases v3 with
  | none => exact steps_nil _
  | some v =>
    simp only [encodeOptional, encodeNested, encodeBytesField, List.length_append] at hl
    refine steps_bytesField (by decide) (by decide) fun rest => ?_
    simp only [mergeField, Option.getD_none]
    rw [mergeNested_encode v rest hc (by omega)]

theorem decode_encode (m : IceCandidate) (rest : List UInt8) (ctx : DecodeContext)
    (hd : 1 ≤ ctx.recurseCount) (hl : (encode m).length < 2 ^ 64) :
    mergeLoop mergeField mergeField_length ctx rest.length ⟨none⟩ (encode m ++ rest) =
      .ok (m, rest) :=
  (steps_v3OrV2 hd hl).mergeLoop_eq rest

instance : Message IceCandidate :=
  ⟨⟨none⟩, 1, mergeField, mergeField_length, encode, decode_encode⟩

end IceCandidate

end RingRtc.Proto.Signaling
