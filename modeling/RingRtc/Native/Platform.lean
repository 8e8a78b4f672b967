import RingRtc.Ios.Platform

/-! # `NativePlatform`, `native.rs`

The native platform hands everything to host callbacks: signaling to the `send_signaling`
of its `SignalingSender`, with the receiving device as an `Option`, and the call's state to
the `handle_call_state` and `handle_remote_video_state` of its `CallStateHandler`. Each
function of its `Platform` implementation makes exactly one callback and returns its result
(`?` and then `Ok(())`), so each is modelled by the callback it makes, with its arguments.
It meets the delivery contract of every send request, and so does `IOSPlatform`, except for
the empty ICE batch that `IOSPlatform` drops. `on_event` reports each way a call can end
with its own `EndReason`.
-/
namespace RingRtc.Native

open RingRtc.Core.Signaling RingRtc.Core.Platform RingRtc.Ios.Platform

/-- `PeerId`, the native platform's `AppRemotePeer`. -/
abbrev PeerId := String

/-- `CallDirection`, as `on_start_call` matches it. -/
inductive CallDirection where
  | outGoing
  | inComing
  deriving DecidableEq, Repr

/-- `ApplicationEvent`, with the variants that the exhaustive match of `on_event` names (the
declaration is not among the sources). -/
inductive ApplicationEvent where
  | localRinging
  | remoteRinging
  | localAccepted
  | remoteAccepted
  | reconnected
  | reconnecting
  | endedLocalHangup
  | endedRemoteHangup
  | endedRemoteHangupNeedPermission
  | endedRemoteBusy
  | endedRemoteGlare
  | endedTimeout
  | endedInternalFailure
  | endedSignalingFailure
  | endedConnectionFailure
  | endedAppDroppedCall
  | receivedOfferExpired
  | receivedOfferWhileActive
  | receivedOfferWithGlare
  | endedRemoteHangupAccepted
  | endedRemoteHangupDeclined
  | endedRemoteHangupBusy
  | ignoreCallsFromNonMultiringCallers
  | remoteVideoEnable
  | remoteVideoDisable
  deriving DecidableEq, Repr

inductive EndReason where
  | localHangup
  | remoteHangup
  | remoteHangupNeedPermission
  | declined
  | busy
  | glare
  | receivedOfferExpired
  | receivedOfferWhileActive
  | receivedOfferWithGlare
  | signalingFailure
  | connectionFailure
  | internalFailure
  | timeout
  | acceptedOnAnotherDevice
  | declinedOnAnotherDevice
  | busyOnAnotherDevice
  | callerIsNotMultiring
  deriving DecidableEq, Repr

inductive CallState where
  | incoming (callId : CallId) (callMediaType : CallMediaType)
  | outgoing (callId : CallId) (callMediaType : CallMediaType)
  | ringing
  | connected
  | connecting
  | ended (reason : EndReason)
  | concluded
  deriving DecidableEq, Repr

/-- A host callback of `NativePlatform`, with the arguments passed to it. -/
inductive NativeCall (V4 : Type) where
  | sendSignaling (recipientId : PeerId) (callId : CallId) (receiverDeviceId : Option DeviceId)
      (msg : Message V4)
  | handleCallState (remotePeerId : PeerId) (state : CallState)
  | handleRemoteVideoState (remotePeerId : PeerId) (enabled : Bool)

section Callbacks

variable {V4 : Type}

def onStartCall (remotePeer : PeerId) (callId : CallId) (direction : CallDirection)
    (callMediaType : CallMediaType) : NativeCall V4 :=
  .handleCallState remotePeer
    (match direction with
      | .outGoing => .outgoing callId callMediaType
      | .inComing => .incoming callId callMediaType)

def onEvent (remotePeer : PeerId) (event : ApplicationEvent) : NativeCall V4 :=
  match event with
  | .localRinging | .remoteRinging => .handleCallState remotePeer .ringing
  | .localAccepted | .remoteAccepted | .reconnected => .handleCallState remotePeer .connected
  | .reconnecting => .handleCallState remotePeer .connecting
  | .endedLocalHangup => .handleCallState remotePeer (.ended .localHangup)
  | .endedRemoteHangup => .handleCallState remotePeer (.ended .remoteHangup)
  | .endedRemoteHangupNeedPermission =>
    .handleCallState remotePeer (.ended .remoteHangupNeedPermission)
  | .endedRemoteBusy => .handleCallState remotePeer (.ended .busy)
  | .endedRemoteGlare => .handleCallState remotePeer (.ended .glare)
  | .endedTimeout => .handleCallState remotePeer (.ended .timeout)
  | .endedInternalFailure => .handleCallState remotePeer (.ended .internalFailure)
  | .endedSignalingFailure => .handleCallState remotePeer (.ended .signalingFailure)
  | .endedConnectionFailure => .handleCallState remotePeer (.ended .connectionFailure)
  | .endedAppDroppedCall => .handleCallState remotePeer (.ended .declined)
  | .receivedOfferExpired => .handleCallState remotePeer (.ended .receivedOfferExpired)
  | .receivedOfferWhileActive => .handleCallState remotePeer (.ended .receivedOfferWhileActive)
  | .receivedOfferWithGlare => .handleCallState remotePeer (.ended .receivedOfferWithGlare)
  | .endedRemoteHangupAccepted => .handleCallState remotePeer (.ended .acceptedOnAnotherDevice)
  | .endedRemoteHangupDeclined => .handleCallState remotePeer (.ended .declinedOnAnotherDevice)
  | .endedRemoteHangupBusy => .handleCallState remotePeer (.ended .busyOnAnotherDevice)
  | .ignoreCallsFromNonMultiringCallers =>
    .handleCallState remotePeer (.ended .callerIsNotMultiring)
  | .remoteVideoEnable => .handleRemoteVideoState remotePeer true
  | .remoteVideoDisable => .handleRemoteVideoState remotePeer false

def onCallConcluded (remotePeer : PeerId) : NativeCall V4 :=
  .handleCallState remotePeer .concluded

def onSendOffer (remotePeer : PeerId) (callId : CallId) (offer : Offer V4) : NativeCall V4 :=
  let receiverDeviceId := none
  .sendSignaling remotePeer callId receiverDeviceId (.offer offer)

def onSendAnswer (remotePeer : PeerId) (callId : CallId) (send : SendAnswer V4) : NativeCall V4 :=
  .sendSignaling remotePeer callId (some send.receiverDeviceId) (.answer send.answer)

def onSendIce (remotePeer : PeerId) (callId : CallId) (send : SendIce) : NativeCall V4 :=
  .sendSignaling remotePeer callId send.receiverDeviceId (.ice send.ice)

def onSendHangup (remotePeer : PeerId) (callId : CallId) (send : SendHangup) : NativeCall V4 :=
  let message := if send.useLegacy then Message.legacyHangup send.hangup else .hangup send.hangup
  let receiverDeviceId := none
  .sendSignaling remotePeer callId receiverDeviceId message

def onSendBusy (remotePeer : PeerId) (callId : CallId) : NativeCall V4 :=
  let receiverDeviceId := none
  .sendSignaling remotePeer callId receiverDeviceId .busy

end Callbacks

/-! ## Call states -/

/-- The event that `on_event` reports with each reason. -/
def EndReason.event : EndReason → ApplicationEvent
  | .localHangup => .endedLocalHangup
  | .remoteHangup => .endedRemoteHangup
  | .remoteHangupNeedPermission => .endedRemoteHangupNeedPermission
  | .declined => .endedAppDroppedCall
  | .busy => .endedRemoteBusy
  | .glare => .endedRemoteGlare
  | .receivedOfferExpired => .receivedOfferExpired
  | .receivedOfferWhileActive => .receivedOfferWhileActive
  | .receivedOfferWithGlare => .receivedOfferWithGlare
  | .signalingFailure => .endedSignalingFailure
  | .connectionFailure => .endedConnectionFailure
  | .internalFailure => .endedInternalFailure
  | .timeout => .endedTimeout
  | .acceptedOnAnotherDevice => .endedRemoteHangupAccepted
  | .declinedOnAnotherDevice => .endedRemoteHangupDeclined
  | .busyOnAnotherDevice => .endedRemoteHangupBusy
  | .callerIsNotMultiring => .ignoreCallsFromNonMultiringCallers

/-- `on_event` tells every ending apart: each `EndReason` is reported for exactly one
event. -/
theorem onEvent_ended_iff {V4 : Type} (remotePeer : PeerId) (e : ApplicationEvent)
    (r : EndReason) :
    (onEvent remotePeer e : NativeCall V4) = .handleCallState remotePeer (.ended r) ↔
      e = r.event := by
  constructor
  · intro h
    cases e <;> cases h <;> rfl
  · rintro rfl
    cases r <;> rfl

/-! ## Signaling -/

/-- The delivery a callback stands for, when it sends signaling. -/
def NativeCall.delivery {V4 : Type} : NativeCall V4 → Option Delivery
  | sendSignaling _ callId receiverDeviceId msg => some ⟨callId, msg.typ, receiverDeviceId⟩
  | _ => none

section Send

variable {V4 : Type}

/-- The `on_send_*` of `NativePlatform`, by request. -/
def send (remotePeer : PeerId) (callId : CallId) : SendRequest V4 → NativeCall V4
  | .offer offer => onSendOffer remotePeer callId offer
  | .answer send => onSendAnswer remotePeer callId send
  | .ice send => onSendIce remotePeer callId send
  | .hangup send => onSendHangup remotePeer callId send
  | .busy => onSendBusy remotePeer callId

/-- `NativePlatform` delivers every request where the request says, a legacy hangup as a
hangup. -/
theorem send_delivery (remotePeer : PeerId) (callId : CallId) (req : SendRequest V4) :
    (send remotePeer callId req).delivery = some (req.delivery callId) := by
  cases req with
  | hangup s => obtain ⟨_, _ | _⟩ := s <;> rfl
  | _ => rfl

/-- Both platforms deliver every send request of the core where `signaling.rs` says it
goes, once: `NativePlatform` always, and `IOSPlatform` except for a batch of no ICE
candidates, which it drops where `NativePlatform` sends it. -/
theorem platforms_meet_contract (remotePeer : PeerId) (appPeer : AppObject) (callId : CallId)
    (req : SendRequest V4) :
    (send remotePeer callId req).delivery = some (req.delivery callId) ∧
      (Ios.Platform.send appPeer callId req).map AppCall.delivery =
        if req.isEmptyIce then [] else [req.delivery callId] :=
  ⟨send_delivery remotePeer callId req, Ios.Platform.send_delivery appPeer callId req⟩

end Send

end RingRtc.Native
