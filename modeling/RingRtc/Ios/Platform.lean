import RingRtc.Core.Platform

/-! # The outbound signaling of `IOSPlatform`

Each `on_send_*` of `ios_platform.rs` hands one message to the host through a function
of its `AppInterface`, with the receiving device and a broadcast flag. Offers, hangups
and busy messages are broadcast with device 0; answers go to one device; ICE goes to one
device or to all, and an empty batch is not passed on at all. A call to the host is
recorded as an `AppCall` carrying the arguments it is given, and each function returns
the calls it makes, in order. Read as deliveries, with the broadcast flag standing for every
device, these calls meet the contract of the core's send requests, except for the dropped
empty batch.
-/
namespace RingRtc.Ios.Platform

open RingRtc.Core.Signaling RingRtc.Core.Platform

/-- Modelled from the spec: `CallId`, the 64-bit identifier of a call attempt. -/
abbrev CallId := UInt64

/-- `AppObject`: the host's pointer for a remote peer, never looked into by the core. -/
structure AppObject where
  ptr : Nat
  deriving DecidableEq

/-- A call into the host's `AppInterface`, with the arguments passed to it. -/
inductive AppCall where
  | onSendOffer (callId : CallId) (remotePeer : Nat) (receiverDeviceId : DeviceId)
      (broadcast : Bool) (opaqueBytes : List UInt8) (callMediaType : CallMediaType)
  | onSendAnswer (callId : CallId) (remotePeer : Nat) (receiverDeviceId : DeviceId)
      (broadcast : Bool) (opaqueBytes : List UInt8)
  | onSendIceCandidates (callId : CallId) (remotePeer : Nat) (receiverDeviceId : DeviceId)
      (broadcast : Bool) (candidates : List (List UInt8))
  | onSendHangup (callId : CallId) (remotePeer : Nat) (receiverDeviceId : DeviceId)
      (broadcast : Bool) (hangupType : Int) (hangupDeviceId : DeviceId) (useLegacy : Bool)
  | onSendBusy (callId : CallId) (remotePeer : Nat) (receiverDeviceId : DeviceId)
      (broadcast : Bool)
  deriving DecidableEq

namespace AppCall

/-- The broadcast flag the call carries. -/
def broadcast : AppCall → Bool
  | onSendOffer _ _ _ b _ _ => b
  | onSendAnswer _ _ _ b _ => b
  | onSendIceCandidates _ _ _ b _ => b
  | onSendHangup _ _ _ b _ _ _ => b
  | onSendBusy _ _ _ b => b

/-- The receiving device the call carries. -/
def receiverDeviceId : AppCall → DeviceId
  | onSendOffer _ _ d _ _ _ => d
  | onSendAnswer _ _ d _ _ => d
  | onSendIceCandidates _ _ d _ _ => d
  | onSendHangup _ _ d _ _ _ _ => d
  | onSendBusy _ _ d _ => d

def callId : AppCall → CallId
  | onSendOffer c _ _ _ _ _ => c
  | onSendAnswer c _ _ _ _ => c
  | onSendIceCandidates c _ _ _ _ => c
  | onSendHangup c _ _ _ _ _ _ => c
  | onSendBusy c _ _ _ => c

def typ : AppCall → MessageType
  | onSendOffer .. => .offer
  | onSendAnswer .. => .answer
  | onSendIceCandidates .. => .ice
  | onSendHangup .. => .hangup
  | onSendBusy .. => .busy

/-- The delivery a call stands for: every device when the broadcast flag is set, and
otherwise the device it names. -/
def delivery (c : AppCall) : Delivery :=
  ⟨c.callId, c.typ, if c.broadcast then none else some c.receiverDeviceId⟩

end AppCall

section Send

variable {V4 : Type}

def onSendOffer (remotePeer : AppObject) (callId : CallId) (offer : Offer V4) : List AppCall :=
  let broadcast := true
  let receiverDeviceId : DeviceId := 0
  [.onSendOffer callId remotePeer.ptr receiverDeviceId broadcast offer.opaqueBytes
    offer.callMediaType]

def onSendAnswer (remotePeer : AppObject) (callId : CallId) (send : SendAnswer V4) : List AppCall :=
  let broadcast := false
  [.onSendAnswer callId remotePeer.ptr send.receiverDeviceId broadcast send.answer.opaqueBytes]

def onSendIce (remotePeer : AppObject) (callId : CallId) (send : SendIce) : List AppCall :=
  let (broadcast, receiverDeviceId) : Bool × DeviceId :=
    match send.receiverDeviceId with
    | none => (true, 0)
    | some receiverDeviceId => (false, receiverDeviceId)
  if send.ice.candidatesAdded.isEmpty then []
  else [.onSendIceCandidates callId remotePeer.ptr receiverDeviceId broadcast
    (send.ice.candidatesAdded.map (·.opaqueBytes))]

def onSendHangup (remotePeer : AppObject) (callId : CallId) (send : SendHangup) : List AppCall :=
  let broadcast := true
  let receiverDeviceId : DeviceId := 0
  let (hangupType, hangupDeviceId) := send.hangup.toTypeAndDeviceId
  [.onSendHangup callId remotePeer.ptr receiverDeviceId broadcast hangupType.toI32
    (hangupDeviceId.getD 0) send.useLegacy]

def onSendBusy (remotePeer : AppObject) (callId : CallId) : List AppCall :=
  let broadcast := true
  let receiverDeviceId : DeviceId := 0
  [.onSendBusy callId remotePeer.ptr receiverDeviceId broadcast]

/-- The `on_send_*` of `IOSPlatform`, by request. -/
def send (remotePeer : AppObject) (callId : CallId) : SendRequest V4 → List AppCall
  | .offer offer => onSendOffer remotePeer callId offer
  | .answer send => onSendAnswer remotePeer callId send
  | .ice send => onSendIce remotePeer callId send
  | .hangup send => onSendHangup remotePeer callId send
  | .busy => onSendBusy remotePeer callId

/-- `IOSPlatform` delivers every request once, where the request says, except a batch of no
ICE candidates, which it drops. -/
theorem send_delivery (remotePeer : AppObject) (callId : CallId) (req : SendRequest V4) :
    (send remotePeer callId req).map AppCall.delivery =
      if req.isEmptyIce then [] else [req.delivery callId] := by
  cases req with
  | ice s =>
    obtain ⟨⟨_ | _⟩, _ | _⟩ := s <;> rfl
  | _ => rfl

end Send

/-- The hangup wire encoding round-trips: what `on_send_hangup` passes to the host reads
back, through `from_i32` and `from_type_and_device_id`, as the hangup that was sent, except
`NeedPermission(None)`, which reads back as `NeedPermission(Some(0))`; and a received pair
converts back to itself, with no device id for `Normal`. -/
theorem hangup_wire_round_trip :
    (∀ (remotePeer : AppObject) (callId : CallId) (send : SendHangup),
      ∃ typ d, onSendHangup remotePeer callId send =
          [.onSendHangup callId remotePeer.ptr 0 true typ.toI32 d send.useLegacy] ∧
        typ = send.hangup.toTypeAndDeviceId.1 ∧
        HangupType.fromI32 typ.toI32 = some typ ∧
        Hangup.fromTypeAndDeviceId typ d =
          if send.hangup = .needPermission none then .needPermission (some 0) else send.hangup) ∧
    (∀ (t : HangupType) (d : DeviceId), (Hangup.fromTypeAndDeviceId t d).toTypeAndDeviceId =
      if t = .normal then (.normal, none) else (t, some d)) :=
  ⟨fun _ _ send => ⟨_, _, rfl, rfl, HangupType.fromI32_toI32 _,
      Hangup.fromTypeAndDeviceId_toTypeAndDeviceId send.hangup⟩,
    Hangup.toTypeAndDeviceId_fromTypeAndDeviceId⟩

end RingRtc.Ios.Platform
