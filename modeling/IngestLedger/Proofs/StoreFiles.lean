import IngestLedger.Proofs.Store
import IngestLedger.Store.File

/-!
# Reading a store file back

The file of a store holds its entries field by field, and reading it gives the store again. Only the
four digits of a length bound what a field has room for.

Main statements:

* `StoreFile.decode_encode`: a store whose entries are short is read back from its file.
-/

namespace IngestLedger

/-! ### Inserting ascending entries -/

namespace Store

/-- A value after ascending entries were inserted is that of their entry, or it was there before. -/
theorem get?_insertAll_of_ascending {entries : List Entry}
    (ascending : entries.Pairwise fun a b => a.1 < b.1) (store : Store) (key : Bytes) :
    (store.insertAll entries).get? key = (entries.lookup key).or (store.get? key) := by
  induction entries generalizing store with
  | nil => rfl
  | cons head tail ih =>
    obtain ⟨headKey, headValue⟩ := head
    obtain ⟨first, rest⟩ := List.pairwise_cons.1 ascending
    rw [insertAll_cons, ih rest, get?_insert]
    by_cases same : key = headKey
    · subst same
      have absent : tail.lookup key = none := by
        refine Option.eq_none_iff_forall_ne_some.2 fun value found => ?_
        exact List.lt_irrefl key (first (key, value) ((lookup_eq_some_iff rest).1 found))
      rw [if_pos rfl, absent, List.lookup_cons_self]
      rfl
    · rw [if_neg same, lookup_cons_of_ne same]

/-- The entries of a store, inserted into the empty one, make the store. -/
theorem insertAll_entries (store : Store) : empty.insertAll store.entries = store := by
  refine ext_get? fun key => ?_
  rw [get?_insertAll_of_ascending store.ascending, get?_empty, Option.or_none]
  rfl

end Store

/-! ### Fields and entries -/

/-- An entry that a file has room for: its lengths fit in four digits. -/
def Entry.IsShort (e : Entry) : Prop := e.1.length < UInt32.size ∧ e.2.length < UInt32.size

instance (e : Entry) : Decidable e.IsShort := inferInstanceAs (Decidable (_ ∧ _))

namespace StoreFile

variable {bytes rest : Bytes} {entries : List Entry}

theorem readField_field (short : bytes.length < UInt32.size) (rest : Bytes) :
    readField (field bytes ++ rest) = some (bytes, rest) := by
  have digits := Bytes.takeExact_append (Bytes.ofNatLE 4 bytes.length) (bytes ++ rest)
  rw [Bytes.length_ofNatLE] at digits
  have length : Bytes.toNatLE (Bytes.ofNatLE 4 bytes.length) = bytes.length :=
    Bytes.toNatLE_ofNatLE short
  simp only [readField, field, List.append_assoc, digits, length, Bytes.takeExact_append]

theorem length_field (bytes : Bytes) : (field bytes).length = 4 + bytes.length := by
  rw [field, List.length_append, Bytes.length_ofNatLE]

@[simp] theorem readEntries_nil (offset : Nat) : readEntries offset [] = .ok [] := by
  rw [readEntries, if_pos List.isEmpty_nil]

/-- An entry that was written is read, and then what is behind it. -/
theorem readEntries_entry {e : Entry} (short : e.IsShort) (offset : Nat) (rest : Bytes) :
    readEntries offset (entry e ++ rest) =
      (readEntries (offset + (entry e).length) rest).map (e :: ·) := by
  have key := readField_field short.1 (field e.2 ++ rest)
  have value := readField_field short.2 rest
  have place : offset + (entry e).length = offset + 8 + e.1.length + e.2.length := by
    rw [entry, List.length_append, length_field, length_field]
    omega
  have some_bytes : ¬ (field e.1 ++ (field e.2 ++ rest)).isEmpty := by
    simp [field, Bytes.ofNatLE]
  rw [place, entry, List.append_assoc, readEntries, if_neg some_bytes]
  split
  · rename_i absent
    rw [key] at absent
    cases absent
  · rename_i found
    rw [key] at found
    obtain ⟨rfl, rfl⟩ := Prod.mk.inj (Option.some.inj found)
    split
    · rename_i absent
      rw [value] at absent
      cases absent
    · rename_i found
      rw [value] at found
      obtain ⟨rfl, rfl⟩ := Prod.mk.inj (Option.some.inj found)
      cases readEntries (offset + 8 + e.1.length + e.2.length) rest <;> rfl

/-- The entries that were written are read. -/
theorem readEntries_entries (short : ∀ e ∈ entries, e.IsShort) (offset : Nat) :
    readEntries offset (entries.flatMap entry) = .ok entries := by
  induction entries generalizing offset with
  | nil => exact readEntries_nil offset
  | cons e entries ih =>
    have later := ih fun e he => short e (List.mem_cons_of_mem _ he)
    rw [List.flatMap_cons, readEntries_entry (short e List.mem_cons_self), later]
    rfl

/-- A store whose entries are short is read back from its file. -/
theorem decode_encode {store : Store} (short : ∀ e ∈ store.entries, e.IsShort) :
    decode (encode store) = .ok store := by
  simp only [decode, encode, readEntries_entries short, Store.insertAll_entries]

end StoreFile

end IngestLedger
