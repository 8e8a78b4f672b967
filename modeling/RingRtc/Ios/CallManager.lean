import RingRtc.Ios.Platform

/-! # The received-message entry points of the iOS `call_manager.rs`

`received_offer` and `received_answer` take the opaque payload and both identity keys as
optional arguments. They are checked in the order of the code, and the first one missing
fails with `OptionValueNotSet`, naming the function and the argument; the payload then
goes through `Offer::new` or `Answer::new`, whose decode error is passed on. What each
entry point hands to the call manager is its result: the call manager itself is not among
the sources, and neither is `FeatureLevel`, which is passed through untouched.
-/
namespace RingRtc.Ios.CallManager

open RingRtc.Proto RingRtc.Core.Signaling RingRtc.Ios.Platform

/-- `signaling::ReceivedOffer`; `age` is `Duration::from_secs(age_sec)`, in seconds. -/
structure ReceivedOffer (V4 FeatureLevel : Type) where
  offer : Offer V4
  age : UInt64
  senderDeviceId : DeviceId
  senderDeviceFeatureLevel : FeatureLevel
  receiverDeviceId : DeviceId
  receiverDeviceIsPrimary : Bool
  senderIdentityKey : List UInt8
  receiverIdentityKey : List UInt8

/-- `signaling::ReceivedAnswer`. -/
structure ReceivedAnswer (V4 FeatureLevel : Type) where
  answer : Answer V4
  senderDeviceId : DeviceId
  senderDeviceFeatureLevel : FeatureLevel
  senderIdentityKey : List UInt8
  receiverIdentityKey : List UInt8

/-- The check of one optional argument: its value, or `OptionValueNotSet` naming the
function and the argument. -/
def requireSet {α : Type} (function field : String) : Option α → Except Error α
  | some v => .ok v
  | none => .error (.optionValueNotSet function field)

/-- The three checks `received_offer` and `received_answer` both open with, in order. -/
def requireArgs (function : String) (opaqueBytes senderIdentityKey receiverIdentityKey :
    Option (List UInt8)) : Except Error (List UInt8 × List UInt8 × List UInt8) := do
  let opaqueBytes ← requireSet function "opaque" opaqueBytes
  let senderIdentityKey ← requireSet function "sender_identity_key" senderIdentityKey
  let receiverIdentityKey ← requireSet function "receiver_identity_key" receiverIdentityKey
  pure (opaqueBytes, senderIdentityKey, receiverIdentityKey)

section Args

variable {function : String} {o s k : Option (List UInt8)}

theorem requireArgs_eq_ok {r : List UInt8 × List UInt8 × List UInt8} :
    requireArgs function o s k = .ok r ↔ o = some r.1 ∧ s = some r.2.1 ∧ k = some r.2.2 := by
  obtain ⟨_, _, _⟩ := r
  cases o <;> cases s <;> cases k <;>
    simp [requireArgs, requireSet, bind, Except.bind, pure, Except.pure, eq_comm]

/-- Every failure names the function and the first of the three arguments, in the order
of the checks, that is not set. -/
theorem requireArgs_eq_error {e : Error} :
    requireArgs function o s k = .error e ↔
      (o = none ∧ e = .optionValueNotSet function "opaque") ∨
      (o.isSome ∧ s = none ∧ e = .optionValueNotSet function "sender_identity_key") ∨
      (o.isSome ∧ s.isSome ∧ k = none ∧
        e = .optionValueNotSet function "receiver_identity_key") := by
  cases o <;> cases s <;> cases k <;>
    simp [requireArgs, requireSet, bind, Except.bind, pure, Except.pure, eq_comm]

end Args

section Received

variable {V4 FeatureLevel : Type} [Proto.Message V4]

def receivedOffer (callId : CallId) (remotePeer : AppObject) (senderDeviceId : DeviceId)
    (opaqueBytes : Option (List UInt8)) (ageSec : UInt64) (callMediaType : CallMediaType)
    (receiverDeviceId : DeviceId) (senderDeviceFeatureLevel : FeatureLevel)
    (receiverDeviceIsPrimary : Bool) (senderIdentityKey receiverIdentityKey : Option (List UInt8)) :
    Except Error (AppObject × CallId × ReceivedOffer V4 FeatureLevel) := do
  let (opaqueBytes, senderIdentityKey, receiverIdentityKey) ←
    requireArgs "received_offer()" opaqueBytes senderIdentityKey receiverIdentityKey
  let offer ← Offer.new callMediaType opaqueBytes
  pure (remotePeer, callId, ⟨offer, ageSec, senderDeviceId, senderDeviceFeatureLevel,
    receiverDeviceId, receiverDeviceIsPrimary, senderIdentityKey, receiverIdentityKey⟩)

def receivedAnswer (callId : CallId) (senderDeviceId : DeviceId)
    (opaqueBytes : Option (List UInt8)) (senderDeviceFeatureLevel : FeatureLevel)
    (senderIdentityKey receiverIdentityKey : Option (List UInt8)) :
    Except Error (CallId × ReceivedAnswer V4 FeatureLevel) := do
  let (opaqueBytes, senderIdentityKey, receiverIdentityKey) ←
    requireArgs "received_answer()" opaqueBytes senderIdentityKey receiverIdentityKey
  let answer ← Answer.new opaqueBytes
  pure (callId, ⟨answer, senderDeviceId, senderDeviceFeatureLevel, senderIdentityKey,
    receiverIdentityKey⟩)

/-- `received_offer` fails exactly when an argument is unset, with the error of the first
check that fails, or when the opaque bytes do not decode, with prost's error. -/
theorem receivedOffer_eq_error {callId : CallId} {remotePeer : AppObject}
    {senderDeviceId receiverDeviceId : DeviceId} {o s k : Option (List UInt8)} {ageSec : UInt64}
    {mt : CallMediaType} {fl : FeatureLevel} {primary : Bool} {e : Error} :
    (receivedOffer callId remotePeer senderDeviceId o ageSec mt receiverDeviceId fl primary s k :
        Except Error (AppObject × CallId × ReceivedOffer V4 FeatureLevel)) = .error e ↔
      requireArgs "received_offer()" o s k = .error e ∨
      ∃ b de, o = some b ∧ s.isSome ∧ k.isSome ∧
        (Proto.Message.decode b : Except DecodeError (Proto.Signaling.Offer V4)) = .error de ∧
        e = .protobufDecode de := by
  cases o <;> cases s <;> cases k <;>
    simp [receivedOffer, requireArgs, requireSet, bind, Except.bind, pure, Except.pure]
  rw [← Offer.new_eq_error]
  cases (Offer.new mt _ : Except Error (Offer V4)) <;> simp

/-- An accepted offer carries the opaque bytes and the keys it was given, and its cached
message is what those bytes decode to. -/
theorem receivedOffer_eq_ok {callId : CallId} {remotePeer : AppObject}
    {senderDeviceId receiverDeviceId : DeviceId} {o s k : Option (List UInt8)} {ageSec : UInt64}
    {mt : CallMediaType} {fl : FeatureLevel} {primary : Bool} {rp : AppObject} {cid : CallId}
    {r : ReceivedOffer V4 FeatureLevel}
    (h : receivedOffer callId remotePeer senderDeviceId o ageSec mt receiverDeviceId fl primary s k
      = .ok (rp, cid, r)) :
    rp = remotePeer ∧ cid = callId ∧ r.offer.Consistent ∧ o = some r.offer.opaqueBytes ∧
      r.offer.callMediaType = mt ∧ s = some r.senderIdentityKey ∧
      k = some r.receiverIdentityKey := by
  cases o <;> cases s <;> cases k <;>
    simp [receivedOffer, requireArgs, requireSet, bind, Except.bind, pure, Except.pure] at h
  split at h <;> cases h
  obtain ⟨hc, rfl, rfl⟩ := Offer.new_consistent ‹_›
  exact ⟨rfl, rfl, hc, rfl, rfl, rfl, rfl⟩

/-- `received_answer` fails as `received_offer` does, naming itself in its errors. -/
theorem receivedAnswer_eq_error {callId : CallId} {senderDeviceId : DeviceId}
    {o s k : Option (List UInt8)} {fl : FeatureLevel} {e : Error} :
    (receivedAnswer callId senderDeviceId o fl s k :
        Except Error (CallId × ReceivedAnswer V4 FeatureLevel)) = .error e ↔
      requireArgs "received_answer()" o s k = .error e ∨
      ∃ b de, o = some b ∧ s.isSome ∧ k.isSome ∧
        (Proto.Message.decode b : Except DecodeError (Proto.Signaling.Answer V4)) = .error de ∧
        e = .protobufDecode de := by
  cases o <;> cases s <;> cases k <;>
    simp [receivedAnswer, requireArgs, requireSet, bind, Except.bind, pure, Except.pure]
  rw [← Answer.new_eq_error]
  cases (Answer.new _ : Except Error (Answer V4)) <;> simp

theorem receivedAnswer_eq_ok {callId : CallId} {senderDeviceId : DeviceId}
    {o s k : Option (List UInt8)} {fl : FeatureLevel} {cid : CallId}
    {r : ReceivedAnswer V4 FeatureLevel}
    (h : receivedAnswer callId senderDeviceId o fl s k = .ok (cid, r)) :
    cid = callId ∧ r.answer.Consistent ∧ o = some r.answer.opaqueBytes ∧
      s = some r.senderIdentityKey ∧ k = some r.receiverIdentityKey := by
  cases o <;> cases s <;> cases k <;>
    simp [receivedAnswer, requireArgs, requireSet, bind, Except.bind, pure, Except.pure] at h
  split at h <;> cases h
  obtain ⟨hc, rfl⟩ := Answer.new_consistent ‹_›
  exact ⟨rfl, hc, rfl, rfl, rfl⟩

/-- An offer or an answer that one device's `IOSPlatform` hands to its host, given by the
host of the receiving device to `received_offer` or `received_answer` with both identity
keys, arrives as the offer or answer sent, when its cached message is what its bytes decode
to, as for every one `new` builds. -/
theorem offer_answer_delivered (remotePeer peer : AppObject) (callId : CallId)
    (offer : Offer V4) (send : SendAnswer V4) (ho : offer.Consistent)
    (ha : send.answer.Consistent) (senderDeviceId receiverDeviceId : DeviceId) (ageSec : UInt64)
    (fl : FeatureLevel) (primary : Bool) (sk rk : List UInt8) :
    (∀ c ∈ onSendOffer remotePeer callId offer, ∃ cid rp rd b bytes mt,
      c = .onSendOffer cid rp rd b bytes mt ∧
      receivedOffer cid peer senderDeviceId (some bytes) ageSec mt receiverDeviceId fl primary
        (some sk) (some rk) =
        .ok (peer, callId, ⟨offer, ageSec, senderDeviceId, fl, receiverDeviceId, primary, sk, rk⟩)) ∧
    (∀ c ∈ onSendAnswer remotePeer callId send, ∃ cid rp rd b bytes,
      c = .onSendAnswer cid rp rd b bytes ∧
      receivedAnswer cid senderDeviceId (some bytes) fl (some sk) (some rk) =
        .ok (callId, ⟨send.answer, senderDeviceId, fl, sk, rk⟩)) := by
  refine ⟨fun c hc => ?_, fun c hc => ?_⟩ <;>
    simp only [onSendOffer, onSendAnswer, List.mem_singleton] at hc <;> subst hc
  · exact ⟨_, _, _, _, _, _, rfl, by simp [receivedOffer, requireArgs, requireSet,
      Offer.new_of_consistent ho, bind, Except.bind, pure, Except.pure]⟩
  · exact ⟨_, _, _, _, _, rfl, by simp [receivedAnswer, requireArgs, requireSet,
      Answer.new_of_consistent ha, bind, Except.bind, pure, Except.pure]⟩

end Received

theorem offer_answer_delivered_sample :
    ∃ (offer : Offer Unit) (send : SendAnswer Unit), offer.Consistent ∧ send.answer.Consistent ∧
      (∀ c ∈ onSendOffer ⟨1⟩ 7 offer, ∃ cid rp rd b bytes mt,
        c = .onSendOffer cid rp rd b bytes mt ∧
        receivedOffer cid ⟨2⟩ 3 (some bytes) 60 mt 4 () true (some [5]) (some [6]) =
          .ok (⟨2⟩, 7, ⟨offer, 60, 3, (), 4, true, [5], [6]⟩)) ∧
      (∀ c ∈ onSendAnswer ⟨1⟩ 7 send, ∃ cid rp rd b bytes,
        c = .onSendAnswer cid rp rd b bytes ∧
        receivedAnswer cid 3 (some bytes) () (some [5]) (some [6]) =
          .ok (7, ⟨send.answer, 3, (), [5], [6]⟩)) :=
  let p : Proto.Signaling.Offer Unit := ⟨none, some ()⟩
  have hp : Message.decode (Message.encode p) = .ok p :=
    Message.decode_encode' p (by decide) (by simp [p, Message.encode,
      Proto.Signaling.Offer.encode, encodeOptional, Message.encodeNested, encodeBytesField,
      encodeKey, WireType.toNat])
  have ho : (⟨.audio, Message.encode p, p⟩ : Offer Unit).Consistent := hp
  have ha : (⟨Message.encode p, p⟩ : Answer Unit).Consistent := hp
  ⟨_, ⟨_, 4⟩, ho, ha,
    offer_answer_delivered ⟨1⟩ ⟨2⟩ 7 _ ⟨_, 4⟩ ho ha 3 4 60 () true [5] [6]⟩

def receivedHangup (callId : CallId) (senderDeviceId : DeviceId) (hangupType : HangupType)
    (hangupDeviceId : DeviceId) : CallId × ReceivedHangup :=
  (callId, ⟨Hangup.fromTypeAndDeviceId hangupType hangupDeviceId, senderDeviceId⟩)

/-- A hangup that one device's `on_send_hangup` puts on the wire arrives through another's
`received_hangup` as the hangup sent, `NeedPermission(None)` apart, which arrives as
`NeedPermission(Some(0))`. -/
theorem receivedHangup_onSendHangup (remotePeer : AppObject) (callId : CallId)
    (send : SendHangup) (senderDeviceId : DeviceId) {c : AppCall}
    (hc : c ∈ onSendHangup remotePeer callId send) :
    ∃ cid rp rd b typ t d legacy, c = .onSendHangup cid rp rd b typ d legacy ∧
      HangupType.fromI32 typ = some t ∧
      (receivedHangup cid senderDeviceId t d).2.hangup =
        if send.hangup = .needPermission none then .needPermission (some 0) else send.hangup := by
  simp only [onSendHangup, List.mem_singleton] at hc
  exact ⟨_, _, _, _, _, _, _, _, hc, HangupType.fromI32_toI32 _,
    Hangup.fromTypeAndDeviceId_toTypeAndDeviceId send.hangup⟩

theorem needPermission_hangup_delivered :
    ∃ c ∈ onSendHangup ⟨7⟩ 1 ⟨.needPermission none, false⟩,
      ∃ cid rp rd b typ t d legacy, c = .onSendHangup cid rp rd b typ d legacy ∧
        HangupType.fromI32 typ = some t ∧
        (receivedHangup cid 2 t d).2.hangup = .needPermission (some 0) :=
  ⟨_, List.mem_singleton_self _,
    receivedHangup_onSendHangup ⟨7⟩ 1 ⟨.needPermission none, false⟩ 2 (List.mem_singleton_self _)⟩

end RingRtc.Ios.CallManager
