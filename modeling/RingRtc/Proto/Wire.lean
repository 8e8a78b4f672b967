import Mathlib.Data.List.Basic
import Mathlib.Algebra.Group.Nat.Basic

/-! # Varints and field keys of the protobuf wire format

Every signaling payload in `signaling.rs` is the prost encoding of a protobuf message.
This module models the two primitives that encoding is built from: base-128 varints
and field keys. A key is the varint `tag * 8 + wire_type`; prost refuses a key above
`u32::MAX`, a wire type outside the six it knows and the tag 0.

prost reads a varint into a `u64`: it reads at most ten bytes, and the tenth may carry
only the top bit. Every value it reads is below `2 ^ 64`, every value below `2 ^ 64` that
prost writes reads back, and longer varints are refused.
-/
namespace RingRtc.Proto

/-- The causes of prost's `DecodeError`, one for each message it raises. -/
inductive DecodeError where
  | invalidVarint
  | invalidKey
  | invalidWireType
  | invalidTag
  | bufferUnderflow
  | delimitedLengthExceeded
  | unexpectedWireType
  | unexpectedEndGroup
  | invalidString
  | recursionLimitReached
  deriving DecidableEq, Repr

/-- prost's `WireType`. -/
inductive WireType where
  | varint
  | sixtyFourBit
  | lengthDelimited
  | startGroup
  | endGroup
  | thirtyTwoBit
  deriving DecidableEq, Repr

namespace WireType

def toNat : WireType → Nat
  | varint => 0
  | sixtyFourBit => 1
  | lengthDelimited => 2
  | startGroup => 3
  | endGroup => 4
  | thirtyTwoBit => 5

/-- `WireType::try_from(key & 0x07)`. -/
def ofNat? : Nat → Option WireType
  | 0 => some varint
  | 1 => some sixtyFourBit
  | 2 => some lengthDelimited
  | 3 => some startGroup
  | 4 => some endGroup
  | 5 => some thirtyTwoBit
  | _ => none

@[simp] theorem ofNat?_toNat (w : WireType) : ofNat? w.toNat = some w := by
  cases w <;> rfl

theorem toNat_lt (w : WireType) : w.toNat < 8 := by
  cases w <;> decide

end WireType

/-- `encode_varint`: seven payload bits a byte, low group first, the continuation
bit `0x80` on every byte but the last. -/
def encodeVarint (n : Nat) : List UInt8 :=
  if n < 0x80 then [UInt8.ofNat n]
  else UInt8.ofNat (n % 0x80 + 0x80) :: encodeVarint (n / 0x80)
termination_by n
decreasing_by omega

/-- The loop of `decode_varint`: the byte at index `count` brings the seven bits at
`7 * count`, and a byte below `0x80` ends the varint. The byte at index 9 is the last one
prost reads, and it may carry only the top bit of a `u64`. -/
def decodeVarintFrom (count : Nat) : List UInt8 → Except DecodeError (Nat × List UInt8)
  | [] => .error .invalidVarint
  | b :: bs =>
    if b.toNat < 0x80 then
      if 9 ≤ count ∧ 0x02 ≤ b.toNat then .error .invalidVarint else .ok (b.toNat, bs)
    else if 9 ≤ count then .error .invalidVarint
    else match decodeVarintFrom (count + 1) bs with
      | .ok (n, rest) => .ok (b.toNat - 0x80 + 0x80 * n, rest)
      | .error e => .error e

/-- `decode_varint`. -/
def decodeVarint (buf : List UInt8) : Except DecodeError (Nat × List UInt8) :=
  decodeVarintFrom 0 buf

theorem two_pow_eq_mul {count : Nat} (h : count ≤ 8) :
    2 ^ (64 - 7 * count) = 2 ^ (64 - 7 * (count + 1)) * 128 := by
  rw [show 64 - 7 * count = 64 - 7 * (count + 1) + 7 by omega, pow_add]
  rfl

/-- From index `count`, the reader undoes the writer for every value that fits in the bits
left, whatever bytes follow. -/
theorem decodeVarintFrom_encodeVarint (rest : List UInt8) :
    ∀ n count, count ≤ 9 → n < 2 ^ (64 - 7 * count) →
      decodeVarintFrom count (encodeVarint n ++ rest) = .ok (n, rest) := by
  intro n
  induction n using Nat.strong_induction_on with
  | _ n ih =>
    intro count hc hn
    have h9 : count = 9 → n < 2 := fun h => by subst h; simpa using hn
    rw [encodeVarint]
    split
    · have hb : (UInt8.ofNat n).toNat = n := UInt8.toNat_ofNat_of_lt (by unfold UInt8.size; omega)
      rw [List.singleton_append, decodeVarintFrom, hb, if_pos ‹_›, if_neg (by omega)]
    · have h8 : count ≤ 8 := by
        by_contra h
        have := h9 (by omega)
        omega
      have hb : (UInt8.ofNat (n % 128 + 128)).toNat = n % 128 + 128 :=
        UInt8.toNat_ofNat_of_lt (by unfold UInt8.size; omega)
      rw [two_pow_eq_mul h8] at hn
      rw [List.cons_append, decodeVarintFrom, hb, if_neg (by omega), if_neg (by omega),
        ih (n / 128) (by omega) (count + 1) (by omega) ((Nat.div_lt_iff_lt_mul (by omega)).2 hn)]
      simp only [Except.ok.injEq, Prod.mk.injEq, and_true]
      omega

/-- The reader undoes the writer for every value of a `u64`, whatever bytes follow. -/
theorem decodeVarint_encodeVarint {n : Nat} (h : n < 2 ^ 64) (rest : List UInt8) :
    decodeVarint (encodeVarint n ++ rest) = .ok (n, rest) :=
  decodeVarintFrom_encodeVarint rest n 0 (Nat.zero_le _) h

/-- Every value the reader returns from index `count` fits in the bits left: a varint
never reads past a `u64`. -/
theorem decodeVarintFrom_lt {buf rest : List UInt8} :
    ∀ {count n : Nat}, count ≤ 9 → decodeVarintFrom count buf = .ok (n, rest) →
      n < 2 ^ (64 - 7 * count) := by
  induction buf with
  | nil => intro _ _ _ h; cases h
  | cons b bs ih =>
    intro count n hc h
    have hb : b.toNat < 256 := b.val.isLt
    rw [decodeVarintFrom] at h
    split at h
    · split at h
      · cases h
      · cases h
        rcases Nat.lt_or_ge count 9 with h8 | h9
        · rw [two_pow_eq_mul (by omega)]
          have := Nat.one_le_two_pow (n := 64 - 7 * (count + 1))
          omega
        · obtain rfl : count = 9 := by omega
          simp only [true_and, not_le] at *
          omega
    · split at h
      · cases h
      · split at h
        · cases h
          have := @ih (count + 1) _ (by omega) ‹_›
          rw [two_pow_eq_mul (by omega)]
          omega
        · cases h

theorem decodeVarint_lt {buf rest : List UInt8} {n : Nat}
    (h : decodeVarint buf = .ok (n, rest)) : n < 2 ^ 64 :=
  decodeVarintFrom_lt (Nat.zero_le 9) h

example : decodeVarint (List.replicate 10 0x80 ++ [0x01]) = .error .invalidVarint := rfl
example : decodeVarint (List.replicate 9 0xFF ++ [0x02]) = .error .invalidVarint := rfl
example : decodeVarint (List.replicate 9 0xFF ++ [0x01]) = .ok (2 ^ 64 - 1, []) := rfl

@[simp] theorem encodeVarint_of_lt {n : Nat} (h : n < 0x80) : encodeVarint n = [UInt8.ofNat n] := by
  rw [encodeVarint, if_pos h]

theorem encodeVarint_length_pos (n : Nat) : 0 < (encodeVarint n).length := by
  rw [encodeVarint]
  split <;> simp

/-- A value below `2 ^ (7 * (k + 1))` takes at most `k + 1` bytes; a `u64` at most ten. -/
theorem encodeVarint_length_le :
    ∀ (k n : Nat), n < 2 ^ (7 * (k + 1)) → (encodeVarint n).length ≤ k + 1
  | 0, n, h => by
    rw [encodeVarint, if_pos (by simpa using h)]
    rfl
  | k + 1, n, h => by
    rw [show 7 * (k + 1 + 1) = 7 * (k + 1) + 7 by omega, pow_add] at h
    have := encodeVarint_length_le k (n / 128) ((Nat.div_lt_iff_lt_mul (by omega)).2 h)
    rw [encodeVarint]
    split <;> simp only [List.length_cons, List.length_nil] <;> omega

/-- Reading a varint consumes at least one byte. -/
theorem decodeVarintFrom_length {rest : List UInt8} {n : Nat} :
    ∀ {buf : List UInt8} {count : Nat}, decodeVarintFrom count buf = .ok (n, rest) →
      rest.length < buf.length
  | [], _, h => by cases h
  | b :: bs, count, h => by
    rw [decodeVarintFrom] at h
    split at h
    · split at h <;> cases h
      exact Nat.lt_succ_self _
    · split at h
      · cases h
      · split at h
        · cases h
          exact Nat.lt_succ_of_lt (decodeVarintFrom_length ‹_›)
        · cases h

theorem decodeVarint_length {buf rest : List UInt8} {n : Nat}
    (h : decodeVarint buf = .ok (n, rest)) : rest.length < buf.length :=
  decodeVarintFrom_length h

/-- `encode_key`: the varint `tag << 3 | wire_type`. -/
def encodeKey (tag : Nat) (wt : WireType) : List UInt8 :=
  encodeVarint (tag * 8 + wt.toNat)

/-- `decode_key`. -/
def decodeKey (buf : List UInt8) : Except DecodeError (Nat × WireType × List UInt8) :=
  match decodeVarint buf with
  | .error e => .error e
  | .ok (key, rest) =>
    if 0xFFFFFFFF < key then .error .invalidKey
    else match WireType.ofNat? (key % 8) with
      | none => .error .invalidWireType
      | some wt => if key / 8 < 1 then .error .invalidTag else .ok (key / 8, wt, rest)

/-- A key prost writes for a valid tag (`1 ≤ tag ≤ 2^29 - 1`) reads back. -/
theorem decodeKey_encodeKey {tag : Nat} (wt : WireType) (rest : List UInt8)
    (h₀ : 0 < tag) (h₁ : tag < 2 ^ 29) :
    decodeKey (encodeKey tag wt ++ rest) = .ok (tag, wt, rest) := by
  have hw := wt.toNat_lt
  have hmod : (tag * 8 + wt.toNat) % 8 = wt.toNat := by omega
  have hdiv : (tag * 8 + wt.toNat) / 8 = tag := by omega
  have hkey : tag * 8 + wt.toNat < 2 ^ 64 := by omega
  simp only [decodeKey, encodeKey, decodeVarint_encodeVarint hkey, hmod, hdiv,
    WireType.ofNat?_toNat]
  rw [if_neg (by omega), if_neg (by omega)]

/-- Reading a key consumes at least one byte. -/
theorem decodeKey_length {buf rest : List UInt8} {tag : Nat} {wt : WireType}
    (h : decodeKey buf = .ok (tag, wt, rest)) : rest.length < buf.length := by
  unfold decodeKey at h
  split at h
  · cases h
  · rename_i key r hv
    split at h
    · cases h
    · split at h
      · cases h
      · split at h
        · cases h
        · cases h; exact decodeVarint_length hv

end RingRtc.Proto
