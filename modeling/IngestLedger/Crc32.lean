import IngestLedger.Bytes

/-!
# CRC-32

The cyclic redundancy check of IEEE 802.3 in its reflected form: a 32-bit remainder that starts
with every bit set, takes in each byte from its lowest bit on, and is complemented at the end.
-/

namespace IngestLedger.Crc32

/-- The reflected generator polynomial. -/
def polynomial : UInt32 := 0xEDB88320

/-- One bit of division: the lowest bit leaves, and the polynomial is taken off when it was set. -/
def shift (remainder : UInt32) : UInt32 :=
  if remainder &&& 1 = 1 then (remainder >>> 1) ^^^ polynomial else remainder >>> 1

/-- As many bits of division as `count` says. -/
def shifts : (count : Nat) → UInt32 → UInt32
  | 0, remainder => remainder
  | count + 1, remainder => shifts count (shift remainder)

/-- The remainder after one more byte. -/
def absorb (remainder : UInt32) (byte : UInt8) : UInt32 := shifts 8 (remainder ^^^ byte.toUInt32)

/-- The checksum of a byte string. -/
def checksum (bytes : Bytes) : UInt32 := bytes.foldl absorb 0xFFFFFFFF ^^^ 0xFFFFFFFF

/-- Whether a byte string has the expected checksum. -/
def verify (bytes : Bytes) (expected : UInt32) : Bool := checksum bytes = expected

/-- The checksum as it is stored: four bytes, lowest first. -/
def stored (bytes : Bytes) : Bytes := Bytes.ofNatLE 4 (checksum bytes).toNat

@[simp] theorem length_stored (bytes : Bytes) : (stored bytes).length = 4 := by simp [stored]

end IngestLedger.Crc32
