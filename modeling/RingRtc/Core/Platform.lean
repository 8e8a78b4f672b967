import RingRtc.Core.Hangup

/-! # Where the core's signaling must go

The core sends signaling through five methods of its `Platform` trait: `on_send_offer`,
`on_send_answer`, `on_send_ice`, `on_send_hangup` and `on_send_busy` (the trait itself is
not among the sources). `signaling.rs` says where each message goes. Answers go to one
device, never broadcast. ICE goes to the device named, or to every device when none is.
Hangups go to every device, and so, by both platforms' comments, do offers and busy
messages. A delivery is the call, the kind of message and its device, `none` meaning every
device; each platform is proved against the delivery of every request.
-/
namespace RingRtc.Core.Platform

open RingRtc.Core.Signaling

/-- The outbound requests of the `Platform` trait, one per `on_send_*` method. -/
inductive SendRequest (V4 : Type) where
  | offer (offer : Offer V4)
  | answer (send : SendAnswer V4)
  | ice (send : SendIce)
  | hangup (send : SendHangup)
  | busy

/-- Where a message goes: its call, as a `u64`, the kind of message, and the receiving
device, `none` for every device. -/
structure Delivery where
  callId : UInt64
  typ : MessageType
  receiver : Option DeviceId
  deriving DecidableEq, Repr

namespace SendRequest

variable {V4 : Type}

def typ : SendRequest V4 → MessageType
  | offer _ => .offer
  | answer _ => .answer
  | ice _ => .ice
  | hangup _ => .hangup
  | busy => .busy

/-- The device a request is for, as `signaling.rs` documents `SendAnswer`, `SendIce` and
`SendHangup`. -/
def receiver : SendRequest V4 → Option DeviceId
  | offer _ => none
  | answer send => some send.receiverDeviceId
  | ice send => send.receiverDeviceId
  | hangup _ => none
  | busy => none

def delivery (callId : UInt64) (req : SendRequest V4) : Delivery := ⟨callId, req.typ, req.receiver⟩

/-- A batch of ICE candidates with no candidate in it. -/
def isEmptyIce : SendRequest V4 → Bool
  | ice send => send.ice.candidatesAdded.isEmpty
  | _ => false

end SendRequest

end RingRtc.Core.Platform
