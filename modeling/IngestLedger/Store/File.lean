import IngestLedger.Error
import IngestLedger.Store

/-!
# Store files

A store is kept in a file as its entries in ascending order, each as two fields: the key and the
value. A field is its length in four little-endian digits and its bytes. A file is read field by
field to its end; of several entries with one key the last counts, and a file that ends inside a
field is refused with the place where that field begins.

Main definitions:

* `StoreFile.encode`: the bytes of the file of a store.
* `StoreFile.decode`: the store of the bytes of a file.
-/

namespace IngestLedger.StoreFile

/-- A field of the file. The length is cut to four digits. -/
def field (bytes : Bytes) : Bytes := Bytes.ofNatLE 4 bytes.length ++ bytes

/-- An entry of the file. -/
def entry (e : Entry) : Bytes := field e.1 ++ field e.2

/-- The bytes of the file of a store. -/
def encode (store : Store) : Bytes := store.entries.flatMap entry

/-- The field at the front and the bytes after it. -/
def readField (bytes : Bytes) : Option (Bytes × Bytes) :=
  match Bytes.takeExact 4 bytes with
  | none => none
  | some (digits, rest) => Bytes.takeExact (Bytes.toNatLE digits) rest

theorem length_of_readField {bytes value rest : Bytes} (h : readField bytes = some (value, rest)) :
    bytes.length = 4 + value.length + rest.length := by
  unfold readField at h
  split at h
  · exact absurd h (by simp)
  · rename_i digits middle split
    obtain ⟨rfl, sized⟩ := Bytes.takeExact_eq_some_iff.1 split
    obtain ⟨rfl, -⟩ := Bytes.takeExact_eq_some_iff.1 h
    simp only [List.length_append, sized]
    omega

/-- The entries of the bytes from `offset` on, or the place where the first field begins that the
bytes end in. -/
def readEntries (offset : Nat) (bytes : Bytes) : Except Nat (List Entry) :=
  if bytes.isEmpty then .ok []
  else
    match _readKey : readField bytes with
    | none => .error offset
    | some (key, afterKey) =>
      match _readValue : readField afterKey with
      | none => .error (offset + 4 + key.length)
      | some (value, rest) =>
        match readEntries (offset + 8 + key.length + value.length) rest with
        | .error place => .error place
        | .ok entries => .ok ((key, value) :: entries)
termination_by bytes.length
decreasing_by
  have first := length_of_readField _readKey
  have second := length_of_readField _readValue
  omega

/-- The store of the bytes of a file. -/
def decode (bytes : Bytes) : Except StoreError Store :=
  match readEntries 0 bytes with
  | .error place => .error (.corruption s!"storage file truncated at byte {place}")
  | .ok entries => .ok (Store.empty.insertAll entries)

/-- The name of the file in its directory. -/
def name : String := "ledger.db"

/-- The name under which a new file is written before it takes the place of the old one. -/
def temporaryName : String := "ledger.tmp"

end IngestLedger.StoreFile
