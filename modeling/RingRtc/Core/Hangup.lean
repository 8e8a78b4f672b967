import RingRtc.Core.Signaling

/-! # Hangups and the other signaling messages of `signaling.rs`

A `Hangup` travels as a `HangupType`, whose `i32` values are the protobuf's, and a
device id. `to_type_and_device_id` and `from_type_and_device_id` convert between the two
forms; the only information the pair cannot carry is an unset device id of
`NeedPermission`, which comes back as device 0.
-/
namespace RingRtc.Core.Signaling

/-- Modelled from the spec: `DeviceId`, a small integer naming one of a user's devices;
the iOS bridge passes it as a `u32`. -/
abbrev DeviceId := UInt32

inductive Hangup where
  | normal
  | acceptedOnAnotherDevice (otherDeviceId : DeviceId)
  | declinedOnAnotherDevice (otherDeviceId : DeviceId)
  | busyOnAnotherDevice (otherDeviceId : DeviceId)
  | needPermission (otherDeviceId : Option DeviceId)
  deriving DecidableEq, Repr

/-- `HangupType`, `#[repr(i32)]` with the values of the protobuf. -/
inductive HangupType where
  | normal
  | acceptedOnAnotherDevice
  | declinedOnAnotherDevice
  | busyOnAnotherDevice
  | needPermission
  deriving DecidableEq, Repr

namespace HangupType

/-- `typ as i32`. -/
def toI32 : HangupType → Int
  | normal => 0
  | acceptedOnAnotherDevice => 1
  | declinedOnAnotherDevice => 2
  | busyOnAnotherDevice => 3
  | needPermission => 4

def fromI32 : Int → Option HangupType
  | 0 => some normal
  | 1 => some acceptedOnAnotherDevice
  | 2 => some declinedOnAnotherDevice
  | 3 => some busyOnAnotherDevice
  | 4 => some needPermission
  | _ => none

@[simp] theorem fromI32_toI32 (t : HangupType) : fromI32 t.toI32 = some t := by
  cases t <;> rfl

theorem fromI32_eq_some {v : Int} {t : HangupType} (h : fromI32 v = some t) : t.toI32 = v := by
  unfold fromI32 at h
  split at h <;> cases h <;> rfl

end HangupType

namespace Hangup

def toTypeAndDeviceId : Hangup → HangupType × Option DeviceId
  | normal => (.normal, none)
  | acceptedOnAnotherDevice d => (.acceptedOnAnotherDevice, some d)
  | declinedOnAnotherDevice d => (.declinedOnAnotherDevice, some d)
  | busyOnAnotherDevice d => (.busyOnAnotherDevice, some d)
  | needPermission d => (.needPermission, d)

/-- For `Normal` the device id is ignored; for `NeedPermission` it is taken as set. -/
def fromTypeAndDeviceId (typ : HangupType) (deviceId : DeviceId) : Hangup :=
  match typ with
  | .normal => normal
  | .acceptedOnAnotherDevice => acceptedOnAnotherDevice deviceId
  | .declinedOnAnotherDevice => declinedOnAnotherDevice deviceId
  | .busyOnAnotherDevice => busyOnAnotherDevice deviceId
  | .needPermission => needPermission (some deviceId)

/-- Back from the pair with the unset device id sent as 0: every hangup but
`NeedPermission(None)` is recovered, and that one comes back as `NeedPermission(Some(0))`. -/
theorem fromTypeAndDeviceId_toTypeAndDeviceId (h : Hangup) :
    fromTypeAndDeviceId h.toTypeAndDeviceId.1 (h.toTypeAndDeviceId.2.getD 0) =
      if h = needPermission none then needPermission (some 0) else h := by
  cases h with
  | needPermission d => cases d <;> rfl
  | _ => rfl

/-- Into the pair and back: the type is kept, and the device id is kept unless the type
is `Normal`. -/
theorem toTypeAndDeviceId_fromTypeAndDeviceId (t : HangupType) (d : DeviceId) :
    (fromTypeAndDeviceId t d).toTypeAndDeviceId =
      if t = .normal then (.normal, none) else (t, some d) := by
  cases t <;> rfl

end Hangup

/-- The signaling messages; `LegacyHangup` differs from `Hangup` only in its encoding. -/
inductive Message (V4 : Type) where
  | offer (o : Offer V4)
  | answer (a : Answer V4)
  | ice (i : Ice)
  | hangup (h : Hangup)
  | legacyHangup (h : Hangup)
  | busy

inductive MessageType where
  | offer
  | answer
  | ice
  | hangup
  | busy
  | mediaKey
  deriving DecidableEq, Repr

def Message.typ {V4 : Type} : Message V4 → MessageType
  | offer _ => .offer
  | answer _ => .answer
  | ice _ => .ice
  | hangup _ => .hangup
  | legacyHangup _ => .hangup
  | busy => .busy

/-- `SendAnswer`: answers go to one device. -/
structure SendAnswer (V4 : Type) where
  answer : Answer V4
  receiverDeviceId : DeviceId

/-- `SendIce`: to one device, or to all of them when no device is named. -/
structure SendIce where
  ice : Ice
  receiverDeviceId : Option DeviceId

/-- `SendHangup`: always to all devices. -/
structure SendHangup where
  hangup : Hangup
  useLegacy : Bool

/-- `ReceivedHangup`. -/
structure ReceivedHangup where
  hangup : Hangup
  senderDeviceId : DeviceId
  deriving DecidableEq

end RingRtc.Core.Signaling
