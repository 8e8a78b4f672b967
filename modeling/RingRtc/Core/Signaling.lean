import RingRtc.Proto.Signaling

/-! # The signaling payloads of `signaling.rs`

`Offer` and `Answer` keep the opaque bytes they were built from next to the prost message
decoded from them, and construction fails exactly when the bytes do not decode. Every
builder encodes a message and passes its bytes through `new`. The version a payload
reports is read off which fields the decoded message has; each accessor reads the field
it needs and fails with `UnknownSignaledProtocolVersion` when it is absent.

`Offer` and `Answer` share their decoded message type and the bodies of
`latest_version`, `to_v3_or_v2_params` and the SDP match; these are `versionOf`,
`paramsOf` and `sdpOf`, applied by each type's own method.
-/
namespace RingRtc.Core.Signaling

open RingRtc.Proto

/-- Modelled from the spec: `CallMediaType`, audio only or audio and video. -/
inductive CallMediaType where
  | audio
  | video
  deriving DecidableEq, Repr

/-- The `RingRtcError`s the modelled functions raise: prost's decode error passed on by
`?`, `UnknownSignaledProtocolVersion`, and `OptionValueNotSet` with the function and the
argument it names. -/
inductive Error where
  | protobufDecode (e : DecodeError)
  | unknownSignaledProtocolVersion
  | optionValueNotSet (function field : String)
  deriving DecidableEq, Repr

inductive Version where
  | v2
  | v3
  | v4
  deriving DecidableEq, Repr

def Version.enableDtls : Version → Bool
  | v2 => true
  | v3 => false
  | v4 => false

section Shared

variable {V4 : Type}

/-- The match of `Offer::latest_version` and `Answer::latest_version`. -/
def versionOf : Proto.Signaling.Offer V4 → Version
  | ⟨_, some _⟩ => .v4
  | ⟨some ⟨some _, _⟩, _⟩ => .v3
  | _ => .v2

/-- The match of `Offer::to_v3_or_v2_sdp`. -/
def sdpOf (p : Proto.Signaling.Offer V4) : Except Error RustString :=
  match p.v3OrV2 with
  | some ⟨_, some sdp⟩ => .ok sdp
  | _ => .error .unknownSignaledProtocolVersion

/-- The match of `Offer::to_v3_or_v2_params` and `Answer::to_v3_or_v2_params`. -/
def paramsOf (p : Proto.Signaling.Offer V4) : Except Error (RustString × Option (List UInt8)) :=
  match p.v3OrV2 with
  | some ⟨publicKey, some sdp⟩ => .ok (sdp, publicKey)
  | _ => .error .unknownSignaledProtocolVersion

/-- `deserialize_opaque` of `Offer` and `Answer`: prost's `decode`, its error passed on. -/
def deserializeOpaque [Message V4] (opaqueBytes : List UInt8) :
    Except Error (Proto.Signaling.Offer V4) :=
  match Message.decode opaqueBytes with
  | .ok p => .ok p
  | .error e => .error (.protobufDecode e)

theorem deserializeOpaque_encode [Message V4] (p : Proto.Signaling.Offer V4)
    (hd : Message.depth V4 < recursionLimit) (hl : (Message.encode p).length < 2 ^ 64) :
    deserializeOpaque (Message.encode p) = .ok p := by
  simp [deserializeOpaque, Message.decode_encode' p hd hl]

theorem deserializeOpaque_eq_ok [Message V4] {b : List UInt8} {p : Proto.Signaling.Offer V4} :
    deserializeOpaque b = .ok p ↔ Message.decode b = .ok p := by
  unfold deserializeOpaque
  split <;> simp_all

theorem versionOf_eq_v4_iff (p : Proto.Signaling.Offer V4) : versionOf p = .v4 ↔ p.v4.isSome := by
  obtain ⟨v3, _ | _⟩ := p
  · rcases v3 with _ | ⟨_ | _, _⟩ <;> simp [versionOf]
  · simp [versionOf]

/-- At V3 the parameters are the SDP with the key, or the same error when there is no SDP. -/
theorem paramsOf_of_v3 {p : Proto.Signaling.Offer V4} (h : versionOf p = .v3) :
    ∃ key, paramsOf p = (sdpOf p).map (·, some key) := by
  obtain ⟨v3, _ | _⟩ := p
  · rcases v3 with _ | ⟨_ | key, _ | _⟩ <;> simp_all [versionOf, paramsOf, sdpOf, Except.map]
  · simp [versionOf] at h

/-- At V2 the parameters are the SDP without a key, or the same error. -/
theorem paramsOf_of_v2 {p : Proto.Signaling.Offer V4} (h : versionOf p = .v2) :
    paramsOf p = (sdpOf p).map (·, none) := by
  obtain ⟨v3, _ | _⟩ := p
  · rcases v3 with _ | ⟨_ | key, _ | _⟩ <;> simp_all [versionOf, paramsOf, sdpOf, Except.map]
  · simp [versionOf] at h

end Shared

/-- `Offer`: the media type, the `opaque` bytes, and the cached decoded message. -/
structure Offer (V4 : Type) where
  callMediaType : CallMediaType
  opaqueBytes : List UInt8
  proto : Proto.Signaling.Offer V4

/-- `Answer`: the `opaque` bytes and the cached decoded message. -/
structure Answer (V4 : Type) where
  opaqueBytes : List UInt8
  proto : Proto.Signaling.Answer V4

namespace Offer

variable {V4 : Type} [Message V4]

def new (callMediaType : CallMediaType) (opaqueBytes : List UInt8) : Except Error (Offer V4) :=
  match deserializeOpaque opaqueBytes with
  | .ok proto => .ok ⟨callMediaType, opaqueBytes, proto⟩
  | .error e => .error e

def latestVersion (o : Offer V4) : Version := versionOf o.proto

def fromV4 (callMediaType : CallMediaType) (v4 : V4) : Except Error (Offer V4) :=
  new callMediaType (Message.encode (⟨none, some v4⟩ : Proto.Signaling.Offer V4))

def fromV4AndV3AndV2 (callMediaType : CallMediaType) (publicKey : List UInt8) (v4 : Option V4)
    (v3OrV2Sdp : RustString) : Except Error (Offer V4) :=
  new callMediaType
    (Message.encode (⟨some ⟨some publicKey, some v3OrV2Sdp⟩, v4⟩ : Proto.Signaling.Offer V4))

def toV4 (o : Offer V4) : Option V4 := o.proto.v4

def toV3OrV2Sdp (o : Offer V4) : Except Error RustString := sdpOf o.proto

def toV3OrV2Params (o : Offer V4) : Except Error (RustString × Option (List UInt8)) :=
  paramsOf o.proto

/-- The cached message is what the opaque bytes decode to. -/
def Consistent (o : Offer V4) : Prop := Message.decode o.opaqueBytes = .ok o.proto

theorem new_consistent {mt : CallMediaType} {b : List UInt8} {o : Offer V4}
    (h : new mt b = .ok o) : o.Consistent ∧ o.opaqueBytes = b ∧ o.callMediaType = mt := by
  unfold new at h
  split at h <;> cases h
  exact ⟨deserializeOpaque_eq_ok.1 ‹_›, rfl, rfl⟩

theorem new_encode (mt : CallMediaType) (p : Proto.Signaling.Offer V4)
    (hd : Message.depth V4 < recursionLimit) (hl : (Message.encode p).length < 2 ^ 64) :
    new mt (Message.encode p) = .ok ⟨mt, Message.encode p, p⟩ := by
  simp [new, deserializeOpaque_encode p hd hl]

/-- A consistent offer is what `new` builds from its own media type and bytes. -/
theorem new_of_consistent {o : Offer V4} (h : o.Consistent) :
    new o.callMediaType o.opaqueBytes = .ok o := by
  rw [new, deserializeOpaque_eq_ok.2 h]

theorem new_eq_error {mt : CallMediaType} {b : List UInt8} {e : Error} :
    (new mt b : Except Error (Offer V4)) = .error e ↔
      ∃ de, (Message.decode b : Except DecodeError (Proto.Signaling.Offer V4)) = .error de ∧
        e = .protobufDecode de := by
  cases h : (Message.decode b : Except DecodeError (Proto.Signaling.Offer V4)) <;>
    simp [new, deserializeOpaque, h, eq_comm]

end Offer

namespace Answer

variable {V4 : Type} [Message V4]

def new (opaqueBytes : List UInt8) : Except Error (Answer V4) :=
  match deserializeOpaque opaqueBytes with
  | .ok proto => .ok ⟨opaqueBytes, proto⟩
  | .error e => .error e

def latestVersion (a : Answer V4) : Version := versionOf a.proto

def fromV4 (v4 : V4) : Except Error (Answer V4) :=
  new (Message.encode (⟨none, some v4⟩ : Proto.Signaling.Answer V4))

def fromV3AndV2Sdp (publicKey : List UInt8) (v3AndV2Sdp : RustString) : Except Error (Answer V4) :=
  new (Message.encode (⟨some ⟨some publicKey, some v3AndV2Sdp⟩, none⟩ : Proto.Signaling.Answer V4))

def toV4 (a : Answer V4) : Option V4 := a.proto.v4

def toV3OrV2Params (a : Answer V4) : Except Error (RustString × Option (List UInt8)) :=
  paramsOf a.proto

def Consistent (a : Answer V4) : Prop := Message.decode a.opaqueBytes = .ok a.proto

theorem new_consistent {b : List UInt8} {a : Answer V4} (h : new b = .ok a) :
    a.Consistent ∧ a.opaqueBytes = b := by
  unfold new at h
  split at h <;> cases h
  exact ⟨deserializeOpaque_eq_ok.1 ‹_›, rfl⟩

theorem new_encode (p : Proto.Signaling.Answer V4) (hd : Message.depth V4 < recursionLimit)
    (hl : (Message.encode p).length < 2 ^ 64) :
    new (Message.encode p) = .ok ⟨Message.encode p, p⟩ := by
  simp [new, deserializeOpaque_encode p hd hl]

theorem new_of_consistent {a : Answer V4} (h : a.Consistent) : new a.opaqueBytes = .ok a := by
  rw [new, deserializeOpaque_eq_ok.2 h]

theorem new_eq_error {b : List UInt8} {e : Error} :
    (new b : Except Error (Answer V4)) = .error e ↔
      ∃ de, (Message.decode b : Except DecodeError (Proto.Signaling.Answer V4)) = .error de ∧
        e = .protobufDecode de := by
  cases h : (Message.decode b : Except DecodeError (Proto.Signaling.Answer V4)) <;>
    simp [new, deserializeOpaque, h, eq_comm]

end Answer

/-- `IceCandidate`: only the opaque bytes; they are decoded on each access. -/
structure IceCandidate where
  opaqueBytes : List UInt8
  deriving DecidableEq

/-- `Ice`: the candidates added since the last batch. -/
structure Ice where
  candidatesAdded : List IceCandidate

namespace IceCandidate

def new (opaqueBytes : List UInt8) : IceCandidate := ⟨opaqueBytes⟩

def fromV3AndV2Sdp (sdp : RustString) : Except Error IceCandidate :=
  .ok (new (Message.encode (⟨some ⟨some sdp⟩⟩ : Proto.Signaling.IceCandidate)))

def toV3AndV2Sdp (c : IceCandidate) : Except Error RustString :=
  match (Message.decode c.opaqueBytes : Except DecodeError Proto.Signaling.IceCandidate) with
  | .error e => .error (.protobufDecode e)
  | .ok ⟨some ⟨some sdp⟩⟩ => .ok sdp
  | .ok _ => .error .unknownSignaledProtocolVersion

end IceCandidate

section Builders

variable {V4 : Type} [Message V4]

/-- A payload message whose values each take fewer than `2 ^ 62` bytes encodes to fewer
than `2 ^ 64`: each field adds at most twenty bytes of key and length. -/
theorem length_encode_lt {p : Proto.Signaling.Offer V4}
    (h3 : ∀ c ∈ p.v3OrV2, (∀ k ∈ c.publicKey, k.length < 2 ^ 62) ∧
      ∀ s ∈ c.sdp, s.bytes.length < 2 ^ 62)
    (h4 : ∀ v ∈ p.v4, (Message.encode v).length < 2 ^ 62) :
    (Message.encode p).length < 2 ^ 64 := by
  obtain ⟨v3, v4⟩ := p
  have hc : ∀ c ∈ v3, (Message.encode c).length ≤ 2 ^ 63 + 40 := by
    rintro ⟨pk, sdp⟩ hc
    obtain ⟨hpk, hsdp⟩ := h3 _ hc
    have h₁ := @length_encodeOptional_le _ id 1 (2 ^ 62) pk (by decide) (by decide)
      fun k hk => (hpk k hk).le
    have h₂ := @length_encodeOptional_le _ RustString.bytes 2 (2 ^ 62) sdp (by decide)
      (by decide) fun s hs => (hsdp s hs).le
    show (encodeOptional encodeBytesField 1 pk ++
      encodeOptional (fun t s => encodeBytesField t s.bytes) 2 sdp).length ≤ _
    rw [List.length_append]
    exact (Nat.add_le_add h₁ h₂).trans (by omega)
  have h₁ := @length_encodeOptional_le _ Message.encode 1 (2 ^ 63 + 40) v3 (by decide)
    (by decide) hc
  have h₂ := @length_encodeOptional_le _ Message.encode 2 (2 ^ 62) v4 (by decide) (by decide)
    fun v hv => (h4 v hv).le
  show (encodeOptional Message.encodeNested 1 v3 ++ encodeOptional Message.encodeNested 2 v4).length
    < _
  rw [List.length_append]
  exact lt_of_le_of_lt (Nat.add_le_add h₁ h₂) (by omega)

/-- Every builder succeeds on values of fewer than `2 ^ 62` bytes each and V4 parameters
nested fewer than 100 levels deep, and builds a consistent payload: its opaque bytes decode
to the message it caches, and the accessors give back what it was built from. -/
theorem payload_builders_round_trip (mt : CallMediaType) (v4 : V4) (publicKey : List UInt8)
    (ov4 : Option V4) (sdp : RustString) (hd : Message.depth V4 < recursionLimit)
    (hv4 : (Message.encode v4).length < 2 ^ 62)
    (hov4 : ∀ v ∈ ov4, (Message.encode v).length < 2 ^ 62)
    (hpk : publicKey.length < 2 ^ 62) (hsdp : sdp.bytes.length < 2 ^ 62) :
    (∃ o : Offer V4, Offer.fromV4 mt v4 = .ok o ∧ o.Consistent ∧ o.callMediaType = mt ∧
      o.toV4 = some v4 ∧ o.latestVersion = .v4 ∧
      o.toV3OrV2Sdp = .error .unknownSignaledProtocolVersion) ∧
    (∃ o : Offer V4, Offer.fromV4AndV3AndV2 mt publicKey ov4 sdp = .ok o ∧ o.Consistent ∧
      o.callMediaType = mt ∧ o.toV3OrV2Params = .ok (sdp, some publicKey) ∧
      o.toV3OrV2Sdp = .ok sdp ∧ o.toV4 = ov4 ∧
      o.latestVersion = (if ov4.isSome then .v4 else .v3)) ∧
    (∃ a : Answer V4, Answer.fromV4 v4 = .ok a ∧ a.Consistent ∧ a.toV4 = some v4 ∧
      a.latestVersion = .v4 ∧ a.toV3OrV2Params = .error .unknownSignaledProtocolVersion) ∧
    (∃ a : Answer V4, Answer.fromV3AndV2Sdp publicKey sdp = .ok a ∧ a.Consistent ∧
      a.toV3OrV2Params = .ok (sdp, some publicKey) ∧ a.toV4 = none ∧ a.latestVersion = .v3) ∧
    (∃ c, IceCandidate.fromV3AndV2Sdp sdp = .ok c ∧ c.toV3AndV2Sdp = .ok sdp) := by
  have hp4 : (Message.encode (⟨none, some v4⟩ : Proto.Signaling.Offer V4)).length < 2 ^ 64 :=
    length_encode_lt (by simp) (by simpa using hv4)
  have hp3 : ∀ ov4 : Option V4, (∀ v ∈ ov4, (Message.encode v).length < 2 ^ 62) →
      (Message.encode (⟨some ⟨some publicKey, some sdp⟩, ov4⟩ :
        Proto.Signaling.Offer V4)).length < 2 ^ 64 := fun _ h =>
    length_encode_lt (by simpa using ⟨hpk, hsdp⟩) h
  have hd' : Message.depth (Proto.Signaling.Offer V4) ≤ recursionLimit := hd
  have hc : (Message.encode (⟨some ⟨some sdp⟩⟩ : Proto.Signaling.IceCandidate)).length <
      2 ^ 64 := by
    simp only [Message.encode, Proto.Signaling.IceCandidate.encode, encodeOptional,
      Message.encodeNested, Proto.Signaling.IceCandidateV3OrV2.encode]
    have hinner := @length_encodeBytesField_le 1 sdp.bytes (by decide) (by omega)
    exact lt_of_le_of_lt (length_encodeBytesField_le (by decide) (by omega)) (by omega)
  refine ⟨⟨_, Offer.new_encode _ _ hd hp4, Message.decode_encode' _ hd' hp4, ?_⟩,
    ⟨_, Offer.new_encode _ _ hd (hp3 ov4 hov4), Message.decode_encode' _ hd' (hp3 ov4 hov4), ?_⟩,
    ⟨_, Answer.new_encode _ hd hp4, Message.decode_encode' _ hd' hp4, ?_⟩,
    ⟨_, Answer.new_encode _ hd (hp3 none (by simp)), Message.decode_encode' _ hd'
      (hp3 none (by simp)), ?_⟩, ⟨_, rfl, ?_⟩⟩
  · simp [Offer.toV4, Offer.latestVersion, Offer.toV3OrV2Sdp, versionOf, sdpOf]
  · cases ov4 <;>
      simp [Offer.toV4, Offer.latestVersion, Offer.toV3OrV2Sdp, Offer.toV3OrV2Params, versionOf,
        sdpOf, paramsOf]
  · simp [Answer.toV4, Answer.latestVersion, Answer.toV3OrV2Params, versionOf, paramsOf]
  · simp [Answer.toV4, Answer.latestVersion, Answer.toV3OrV2Params, versionOf, paramsOf]
  · simp [IceCandidate.toV3AndV2Sdp, IceCandidate.new, Message.decode_encode' _ (by decide) hc]

/-- The builders at V4 parameters with no fields, the key `[1, 2, 3]` and the SDP `v=0`. -/
theorem payload_builders_round_trip_unit :
    Message.depth Unit < recursionLimit ∧ (Message.encode ()).length < 2 ^ 62 ∧
    (∃ o : Offer Unit, Offer.fromV4 .audio () = .ok o ∧ o.Consistent ∧ o.callMediaType = .audio ∧
      o.toV4 = some () ∧ o.latestVersion = .v4 ∧
      o.toV3OrV2Sdp = .error .unknownSignaledProtocolVersion) ∧
    (∃ o : Offer Unit, Offer.fromV4AndV3AndV2 .audio [1, 2, 3] (some ()) ⟨[118, 61, 48], rfl⟩ =
        .ok o ∧ o.Consistent ∧ o.callMediaType = .audio ∧
      o.toV3OrV2Params = .ok (⟨[118, 61, 48], rfl⟩, some [1, 2, 3]) ∧
      o.toV3OrV2Sdp = .ok ⟨[118, 61, 48], rfl⟩ ∧ o.toV4 = some () ∧
      o.latestVersion = (if (some ()).isSome then .v4 else .v3)) ∧
    (∃ a : Answer Unit, Answer.fromV4 () = .ok a ∧ a.Consistent ∧ a.toV4 = some () ∧
      a.latestVersion = .v4 ∧ a.toV3OrV2Params = .error .unknownSignaledProtocolVersion) ∧
    (∃ a : Answer Unit, Answer.fromV3AndV2Sdp [1, 2, 3] ⟨[118, 61, 48], rfl⟩ = .ok a ∧
      a.Consistent ∧ a.toV3OrV2Params = .ok (⟨[118, 61, 48], rfl⟩, some [1, 2, 3]) ∧
      a.toV4 = none ∧ a.latestVersion = .v3) ∧
    (∃ c, IceCandidate.fromV3AndV2Sdp ⟨[118, 61, 48], rfl⟩ = .ok c ∧
      c.toV3AndV2Sdp = .ok ⟨[118, 61, 48], rfl⟩) :=
  ⟨by decide, by decide, payload_builders_round_trip .audio () [1, 2, 3] (some ())
    ⟨[118, 61, 48], rfl⟩ (by decide) (by decide) (fun ⟨⟩ _ => by decide) (by decide)
    (by decide)⟩

/-- For every accepted payload: V4 is reported exactly when the V4 parameters are there;
at V3 and at V2 the parameters accessor returns the payload's SDP with the key (V3) or
without (V2), and its `UnknownSignaledProtocolVersion` error exactly when there is no SDP. -/
theorem latest_version_accessors (mt : CallMediaType) (b : List UInt8) :
    (∀ o : Offer V4, Offer.new mt b = .ok o →
      (o.latestVersion = .v4 ↔ o.toV4.isSome) ∧
      (o.latestVersion = .v3 → ∃ key, o.toV3OrV2Params = o.toV3OrV2Sdp.map (·, some key)) ∧
      (o.latestVersion = .v2 → o.toV3OrV2Params = o.toV3OrV2Sdp.map (·, none))) ∧
    (∀ a : Answer V4, Answer.new b = .ok a →
      (a.latestVersion = .v4 ↔ a.toV4.isSome) ∧
      (a.latestVersion = .v3 → ∃ key, a.toV3OrV2Params = (sdpOf a.proto).map (·, some key)) ∧
      (a.latestVersion = .v2 → a.toV3OrV2Params = (sdpOf a.proto).map (·, none))) :=
  ⟨fun o _ => ⟨versionOf_eq_v4_iff o.proto, paramsOf_of_v3, paramsOf_of_v2⟩,
    fun a _ => ⟨versionOf_eq_v4_iff a.proto, paramsOf_of_v3, paramsOf_of_v2⟩⟩

end Builders

/-- A payload whose legacy parameters carry a public key but no SDP is accepted, reports
V3, and its parameters accessor fails. -/
theorem offer_key_without_sdp :
    ∃ o : Offer Unit, Offer.new .audio [0x0a, 0x02, 0x0a, 0x00] = .ok o ∧
      o.latestVersion = .v3 ∧ o.toV3OrV2Params = .error .unknownSignaledProtocolVersion := by
  have hb : [0x0a, 0x02, 0x0a, 0x00] =
      Message.encode (⟨some ⟨some [], none⟩, none⟩ : Proto.Signaling.Offer Unit) := by
    simp [Message.encode, Proto.Signaling.Offer.encode,
      Proto.Signaling.ConnectionParametersV3OrV2.encode, encodeOptional, Message.encodeNested,
      encodeBytesField, encodeKey, WireType.toNat]
  rw [hb]
  exact ⟨_, Offer.new_encode _ _ (by decide) (by rw [← hb]; decide), rfl, rfl⟩

end RingRtc.Core.Signaling
