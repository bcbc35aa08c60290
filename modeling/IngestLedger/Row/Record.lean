import IngestLedger.Crc32
import IngestLedger.Error
import IngestLedger.Key
import IngestLedger.Row.Format

/-!
# Records

A record is the value that a store keeps for a row: the row as it is written, and the checksum of
that in four bytes. A value is read as a row when its checksum is right and the bytes before it
begin with the row; bytes between the row and the checksum are passed over.

Main definitions:

* `Record.encode`: a row with its checksum.
* `Record.decode`: the row of a stored value, or the error of a damaged one.
-/

namespace IngestLedger.Record

/-- Bytes followed by their checksum. -/
def checksummed (payload : Bytes) : Bytes := payload ++ Crc32.stored payload

/-- The value that is stored for a row; a text longer than its length field can say is refused. -/
def encode {α : Type} [Row α] (row : α) : Except LedgerError Bytes :=
  match Row.codec.encode row with
  | some payload => .ok (checksummed payload)
  | none => .error (.serialization "the size limit has been reached")

/-- The bytes before the last four, and the number that the last four write. -/
def split (value : Bytes) : Bytes × UInt32 :=
  let payload := value.take (value.length - 4)
  (payload, (Bytes.toNatLE (value.drop (value.length - 4))).toUInt32)

/-- The row of the value stored under a key. -/
def decode {α : Type} [Row α] (key value : Bytes) : Except LedgerError α :=
  if value.length < 4 then
    .error (.serialization ("record at " ++ displayKey key ++ " is " ++ toString value.length ++
      " bytes, shorter than its checksum"))
  else
    let (payload, expected) := split value
    if Crc32.verify payload expected then
      match Row.codec.decode payload with
      | .ok (row, _) => .ok row
      | .error fault => .error (.serialization fault.message)
    else .error (.dataCorruption (displayKey key) expected (Crc32.checksum payload))

theorem length_checksummed (payload : Bytes) :
    (checksummed payload).length = payload.length + 4 := by
  simp [checksummed]

theorem split_checksummed (payload : Bytes) :
    split (checksummed payload) = (payload, Crc32.checksum payload) := by
  have front : (checksummed payload).length - 4 = payload.length := by simp [length_checksummed]
  have small : (Crc32.checksum payload).toNat < Nat.pow 256 4 := (Crc32.checksum payload).toNat_lt
  simp only [split, front]
  simp [checksummed, Crc32.stored, Bytes.toNatLE_ofNatLE small]

/-- What is written is read back. -/
theorem decode_encode {α : Type} [Row α] {row : α} {value : Bytes} (h : encode row = .ok value)
    (key : Bytes) : decode key value = .ok row := by
  unfold encode at h
  split at h
  · rename_i payload written
    simp only [Except.ok.injEq] at h
    subst h
    have long : ¬ (checksummed payload).length < 4 := by simp [length_checksummed]
    have read := Codec.Exact.decode_append Row.exact written []
    rw [List.append_nil] at read
    simp [decode, long, split_checksummed, Crc32.verify, read]
  · exact absurd h (by simp)

end IngestLedger.Record
