import Mathlib.Data.List.Basic

/-! # Rust strings as UTF-8 checked bytes

A Rust `String` is a byte vector that `str::from_utf8` accepts, and prost checks exactly
that when it decodes a `string` field. In the check `str::from_utf8` makes, a lead byte
fixes how many continuation bytes follow and the range the first of them lies in, which
rules out overlong forms, surrogates and code points above `U+10FFFF`.
-/
namespace RingRtc.Proto

/-- For a lead byte, the number of continuation bytes and the range of the first one. -/
def utf8Lead (a : Nat) : Option (Nat × Nat × Nat) :=
  if 0xC2 ≤ a ∧ a ≤ 0xDF then some (1, 0x80, 0xBF)
  else if a = 0xE0 then some (2, 0xA0, 0xBF)
  else if 0xE1 ≤ a ∧ a ≤ 0xEC then some (2, 0x80, 0xBF)
  else if a = 0xED then some (2, 0x80, 0x9F)
  else if 0xEE ≤ a ∧ a ≤ 0xEF then some (2, 0x80, 0xBF)
  else if a = 0xF0 then some (3, 0x90, 0xBF)
  else if 0xF1 ≤ a ∧ a ≤ 0xF3 then some (3, 0x80, 0xBF)
  else if a = 0xF4 then some (3, 0x80, 0x8F)
  else none

def inByteRange (lo hi : Nat) (b : UInt8) : Bool := lo ≤ b.toNat && b.toNat ≤ hi

/-- `str::from_utf8` succeeds. -/
def utf8Valid : List UInt8 → Bool
  | [] => true
  | a :: l =>
    if a.toNat ≤ 0x7F then utf8Valid l
    else match utf8Lead a.toNat, l with
      | some (1, lo, hi), b :: l => inByteRange lo hi b && utf8Valid l
      | some (2, lo, hi), b :: c :: l =>
        inByteRange lo hi b && inByteRange 0x80 0xBF c && utf8Valid l
      | some (3, lo, hi), b :: c :: d :: l =>
        inByteRange lo hi b && inByteRange 0x80 0xBF c && inByteRange 0x80 0xBF d &&
          utf8Valid l
      | _, _ => false

/-- A Rust `String`: its bytes, which are valid UTF-8. -/
structure RustString where
  bytes : List UInt8
  valid : utf8Valid bytes = true
  deriving DecidableEq

/-- `str::from_utf8` on owned bytes. -/
def RustString.fromUtf8 (bytes : List UInt8) : Option RustString :=
  if h : utf8Valid bytes = true then some ⟨bytes, h⟩ else none

@[simp] theorem RustString.fromUtf8_bytes (s : RustString) : fromUtf8 s.bytes = some s := by
  simp [fromUtf8, s.valid]

theorem RustString.fromUtf8_eq_some {bytes : List UInt8} {s : RustString}
    (h : fromUtf8 bytes = some s) : s.bytes = bytes := by
  unfold fromUtf8 at h
  split at h
  · cases h; rfl
  · cases h

example : utf8Valid [0x61, 0xC3, 0xA9, 0xE2, 0x82, 0xAC] = true := by decide
example : utf8Valid [0xC0, 0x80] = false := by decide
example : utf8Valid [0xED, 0xA0, 0x80] = false := by decide

end RingRtc.Proto
