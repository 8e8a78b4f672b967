import Mathlib.Data.List.Basic

/-! # Bytes as hex text, `util.rs`

`bytes_to_hexstring` appends each byte as `format!("{:02x}", byte)`, two lowercase hex
digits, and `uuid_to_string` does the same for sixteen bytes, with a `'-'` after the bytes
at indices 3, 5, 7 and 9, and returns the empty string for any other number of bytes. Read
two digits at a time, the hex text gives the bytes back, and the text of a UUID is the hex
text of its five fields of four, two, two, two and six bytes, joined by `'-'`.
-/
namespace RingRtc.Core.Util

/-- A lowercase hex digit of a value below 16. -/
def hexDigit (n : Nat) : Char := if n < 10 then Char.ofNat (48 + n) else Char.ofNat (87 + n)

/-- `format!("{:02x}", byte)`. -/
def hexByte (byte : UInt8) : String :=
  ⟨[hexDigit (byte.toNat / 16), hexDigit (byte.toNat % 16)]⟩

def bytesToHexstring (bytes : List UInt8) : String :=
  bytes.foldl (fun result byte => result ++ hexByte byte) ""

def uuidToString (bytes : List UInt8) : String :=
  if bytes.length = 16 then
    bytes.enum.foldl (fun result (i, byte) =>
      let result := result ++ hexByte byte
      if i = 3 ∨ i = 5 ∨ i = 7 ∨ i = 9 then result.push '-' else result) ""
  else ""

/-- The value of a lowercase hex digit. -/
def hexValue (c : Char) : Option Nat :=
  if 48 ≤ c.toNat ∧ c.toNat ≤ 57 then some (c.toNat - 48)
  else if 97 ≤ c.toNat ∧ c.toNat ≤ 102 then some (c.toNat - 87) else none

/-- Hex text read back, two digits to a byte. -/
def hexstringToBytes : List Char → Option (List UInt8)
  | [] => some []
  | [_] => none
  | hi :: lo :: t => do
    let hi ← hexValue hi
    let lo ← hexValue lo
    let rest ← hexstringToBytes t
    pure ((16 * hi + lo).toUInt8 :: rest)

theorem hexValue_hexDigit : ∀ n < 16, hexValue (hexDigit n) = some n := by decide

theorem foldl_hexByte (acc : String) : ∀ bytes : List UInt8,
    (bytes.foldl (fun result byte => result ++ hexByte byte) acc).data =
      acc.data ++ bytes.flatMap fun b => (hexByte b).data
  | [] => by simp
  | b :: bytes => by simp [foldl_hexByte _ bytes]

theorem bytesToHexstring_data (bytes : List UInt8) :
    (bytesToHexstring bytes).data = bytes.flatMap fun b => (hexByte b).data := by
  simp [bytesToHexstring, foldl_hexByte]

theorem bytesToHexstring_length (bytes : List UInt8) :
    (bytesToHexstring bytes).length = 2 * bytes.length := by
  rw [String.length, bytesToHexstring_data]
  induction bytes with
  | nil => rfl
  | cons b bytes ih =>
    have h2 : (hexByte b).data.length = 2 := rfl
    rw [List.flatMap_cons, List.length_append, ih, h2, List.length_cons]
    omega

theorem toUInt8_toNat (b : UInt8) : b.toNat.toUInt8 = b := by
  apply UInt8.toNat.inj
  simp [Nat.toUInt8, UInt8.toNat_ofNat_of_lt (UInt8.toNat_lt_size b)]

/-- Read two digits at a time, the text of `bytes_to_hexstring` gives the bytes back. -/
theorem bytesToHexstring_round_trip (bytes : List UInt8) :
    hexstringToBytes (bytesToHexstring bytes).data = some bytes := by
  rw [bytesToHexstring_data]
  induction bytes with
  | nil => rfl
  | cons b bytes ih =>
    have hb : b.toNat < 16 * 16 := UInt8.toNat_lt_size b
    rw [List.flatMap_cons]
    show hexstringToBytes (hexDigit (b.toNat / 16) :: hexDigit (b.toNat % 16) ::
      bytes.flatMap fun b => (hexByte b).data) = _
    rw [hexstringToBytes, hexValue_hexDigit _ (Nat.div_lt_of_lt_mul hb),
      hexValue_hexDigit _ (Nat.mod_lt _ (by omega)), ih]
    simp [Nat.div_add_mod, toUInt8_toNat]

example : bytesToHexstring [0x01, 0xAB, 0xCD] = "01abcd" := by decide

/-- What the loop of `uuid_to_string` appends after each byte. -/
def uuidDash (i : Nat) : List Char := if i = 3 ∨ i = 5 ∨ i = 7 ∨ i = 9 then ['-'] else []

theorem foldl_uuid (acc : String) : ∀ (bytes : List UInt8) (k : Nat),
    ((bytes.enumFrom k).foldl (fun result (ib : Nat × UInt8) =>
      let result := result ++ hexByte ib.2
      if ib.1 = 3 ∨ ib.1 = 5 ∨ ib.1 = 7 ∨ ib.1 = 9 then result.push '-' else result) acc).data =
      acc.data ++ (bytes.enumFrom k).flatMap fun ib => (hexByte ib.2).data ++ uuidDash ib.1
  | [], _ => by simp
  | b :: bytes, k => by
    simp only [List.enumFrom_cons, List.foldl_cons, List.flatMap_cons]
    rw [foldl_uuid _ bytes (k + 1), uuidDash]
    split <;> simp

/-- For sixteen bytes, `uuid_to_string` is the hex text of the fields of four, two, two, two
and six bytes, joined by `'-'`. -/
theorem uuidToString_fields (bytes : List UInt8) (h : bytes.length = 16) :
    uuidToString bytes = "-".intercalate ([bytes.take 4, (bytes.drop 4).take 2,
      (bytes.drop 6).take 2, (bytes.drop 8).take 2, bytes.drop 10].map bytesToHexstring) := by
  apply String.ext
  rw [uuidToString, if_pos h, List.enum, foldl_uuid]
  iterate 16 (rcases bytes with _ | ⟨_, bytes⟩; · simp at h)
  rcases bytes with _ | ⟨_, bytes⟩
  · simp [uuidDash, bytesToHexstring_data, String.intercalate, String.intercalate.go]
  · simp at h

theorem uuidToString_fields_sample :
    let bytes : List UInt8 := [0x11, 0x22, 0x33, 0x44, 0x55, 0x66, 0x77, 0x88, 0x99, 0x00, 0xaa,
      0xbb, 0xcc, 0xdd, 0xee, 0xff]
    bytes.length = 16 ∧ uuidToString bytes = "-".intercalate ([bytes.take 4,
      (bytes.drop 4).take 2, (bytes.drop 6).take 2, (bytes.drop 8).take 2, bytes.drop 10].map
        bytesToHexstring) :=
  ⟨rfl, uuidToString_fields _ rfl⟩

example : uuidToString [0xb3, 0x9b, 0x70, 0xb0, 0x1c, 0xc8, 0x4b, 0x00, 0xb9, 0x32, 0x18, 0x31,
    0x03, 0x76, 0x03, 0x15] = "b39b70b0-1cc8-4b00-b932-183103760315" := by decide

end RingRtc.Core.Util
