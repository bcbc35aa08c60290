import IngestLedger.Proofs.StoreFiles

/-!
# What a store file may hold

A file is read exactly when it is whole entries, one after another. A file that is not breaks off
inside a field, and is refused with the place where the first such field begins. Where a key stands
in several entries the last one counts, so the file of the store that was read is the same file
again only if its keys ascend.

Main definitions:

* `StoreFile.Holds`: a file is whole entries.
* `StoreFile.BreaksOff`: a file ends inside a field that begins at some place.

Main statements:

* `StoreFile.readEntries_eq_ok_iff`, `StoreFile.readEntries_eq_error_iff`: what is read of a file.
* `StoreFile.decode_exactly_entries`: which files are read, as which store, and which are refused.
-/

namespace IngestLedger.StoreFile

/-! ### Files and their fields -/

/-- A file that is whole entries, one after another. -/
structure Holds (bytes : Bytes) (entries : List Entry) : Prop where
  short : ∀ e ∈ entries, e.IsShort
  eq_flatMap : bytes = entries.flatMap entry

/-- Bytes at whose front there is a whole field. -/
def BeginsField (bytes : Bytes) : Prop :=
  ∃ value, value.length < UInt32.size ∧ field value <+: bytes

/-- A file that ends inside a field, and the place where that field begins: no whole field is at the
front of the bytes from there on. Either an entry would begin there, and then there are some bytes,
or the key of an entry is before them, and then there may be none. -/
inductive BreaksOff : Bytes → Nat → Prop
  | key {bytes : Bytes} (some_bytes : bytes ≠ []) (cut : ¬ BeginsField bytes) : BreaksOff bytes 0
  | value {key rest : Bytes} (short : key.length < UInt32.size) (cut : ¬ BeginsField rest) :
    BreaksOff (field key ++ rest) (field key).length
  | entry {e : Entry} {rest : Bytes} {place : Nat} (short : e.IsShort)
      (later : BreaksOff rest place) : BreaksOff (entry e ++ rest) ((entry e).length + place)

variable {bytes value rest : Bytes} {entries : List Entry} {offset place : Nat}

/-! ### One field, and one round of reading -/

theorem readField_eq_some_iff : readField bytes = some (value, rest) ↔
    value.length < UInt32.size ∧ bytes = field value ++ rest := by
  constructor
  · intro read
    unfold readField at read
    split at read
    · cases read
    · rename_i digits middle split
      obtain ⟨rfl, four⟩ := Bytes.takeExact_eq_some_iff.1 split
      obtain ⟨rfl, length⟩ := Bytes.takeExact_eq_some_iff.1 read
      have small : Bytes.toNatLE digits < Nat.pow 256 4 := four ▸ Bytes.toNatLE_lt digits
      refine ⟨length ▸ small, ?_⟩
      rw [field, length, ← four, Bytes.ofNatLE_toNatLE, List.append_assoc]
  · rintro ⟨short, rfl⟩
    exact readField_field short rest

theorem readField_eq_none_iff : readField bytes = none ↔ ¬ BeginsField bytes := by
  rw [Option.eq_none_iff_forall_ne_some]
  constructor
  · rintro none ⟨value, short, rest, rfl⟩
    exact none (value, rest) (readField_field short rest)
  · rintro cut ⟨value, rest⟩ read
    obtain ⟨short, rfl⟩ := readField_eq_some_iff.1 read
    exact cut ⟨value, short, List.prefix_append _ _⟩

/-- Bytes are at their end, or they break off in a key or in a value, or an entry is at their
front. -/
theorem round_cases (bytes : Bytes) :
    bytes = [] ∨ (bytes ≠ [] ∧ ¬ BeginsField bytes) ∨
    (∃ key rest, key.length < UInt32.size ∧ ¬ BeginsField rest ∧ bytes = field key ++ rest) ∨
    ∃ e rest, e.IsShort ∧ bytes = entry e ++ rest := by
  by_cases ended : bytes = []
  · exact .inl ended
  by_cases whole : BeginsField bytes
  · obtain ⟨key, keyShort, afterKey, rfl⟩ := whole
    by_cases whole : BeginsField afterKey
    · obtain ⟨value, valueShort, rest, rfl⟩ := whole
      exact .inr (.inr (.inr ⟨(key, value), rest, ⟨keyShort, valueShort⟩,
        (List.append_assoc _ _ _).symm⟩))
    · exact .inr (.inr (.inl ⟨key, afterKey, keyShort, whole, rfl⟩))
  · exact .inr (.inl ⟨ended, whole⟩)

theorem readEntries_of_cut_key (some_bytes : bytes ≠ []) (cut : ¬ BeginsField bytes)
    (offset : Nat) : readEntries offset bytes = .error offset := by
  have none := readField_eq_none_iff.2 cut
  rw [readEntries, if_neg (mt List.isEmpty_iff.1 some_bytes)]
  split
  · rfl
  · rename_i found
    rw [none] at found
    cases found

theorem readEntries_of_cut_value {key : Bytes} (short : key.length < UInt32.size)
    (cut : ¬ BeginsField rest) (offset : Nat) :
    readEntries offset (field key ++ rest) = .error (offset + (field key).length) := by
  have first := readField_field short rest
  have none := readField_eq_none_iff.2 cut
  have some_bytes : ¬ (field key ++ rest).isEmpty := by simp [field, Bytes.ofNatLE]
  rw [readEntries, if_neg some_bytes]
  split
  · rename_i absent
    rw [first] at absent
    cases absent
  · rename_i found
    rw [first] at found
    obtain ⟨rfl, rfl⟩ := Prod.mk.inj (Option.some.inj found)
    split
    · rw [length_field, Nat.add_assoc]
    · rename_i found
      rw [none] at found
      cases found

/-! ### Whole files -/

theorem Holds.cons {e : Entry} (h : Holds bytes entries) (short : e.IsShort) :
    Holds (entry e ++ bytes) (e :: entries) := by
  refine ⟨fun other member => ?_, ?_⟩
  · rcases List.mem_cons.1 member with rfl | later
    · exact short
    · exact h.short other later
  · rw [h.eq_flatMap, List.flatMap_cons]

/-- A file is whole entries, or it breaks off. -/
theorem holds_or_breaksOff (bytes : Bytes) :
    (∃ entries, Holds bytes entries) ∨ ∃ place, BreaksOff bytes place := by
  induction length : bytes.length using Nat.strongRecOn generalizing bytes with
  | ind n ih =>
    rcases round_cases bytes with rfl | ⟨some_bytes, cut⟩ | ⟨key, rest, short, cut, rfl⟩ |
      ⟨e, rest, short, rfl⟩
    · exact .inl ⟨[], nofun, rfl⟩
    · exact .inr ⟨0, .key some_bytes cut⟩
    · exact .inr ⟨_, .value short cut⟩
    · have shorter : rest.length < n := by
        rw [← length, entry, List.length_append, List.length_append, length_field]
        omega
      rcases ih _ shorter rest rfl with ⟨entries, holds⟩ | ⟨place, breaksOff⟩
      · exact .inl ⟨_, holds.cons short⟩
      · exact .inr ⟨_, .entry short breaksOff⟩

theorem readEntries_of_holds (h : Holds bytes entries) (offset : Nat) :
    readEntries offset bytes = .ok entries := by
  rw [h.eq_flatMap]
  exact readEntries_entries h.short offset

/-- A file that breaks off is refused with the place where it does. -/
theorem readEntries_of_breaksOff (h : BreaksOff bytes place) (offset : Nat) :
    readEntries offset bytes = .error (offset + place) := by
  induction h generalizing offset with
  | key some_bytes cut => exact readEntries_of_cut_key some_bytes cut offset
  | value short cut => exact readEntries_of_cut_value short cut offset
  | entry short later ih =>
    rw [readEntries_entry short, ih, Nat.add_assoc]
    rfl

theorem readEntries_eq_ok_iff : readEntries offset bytes = .ok entries ↔ Holds bytes entries := by
  refine ⟨fun read => ?_, fun holds => readEntries_of_holds holds offset⟩
  rcases holds_or_breaksOff bytes with ⟨others, holds⟩ | ⟨place, breaksOff⟩
  · have same := read.symm.trans (readEntries_of_holds holds offset)
    exact Except.ok.inj same ▸ holds
  · cases read.symm.trans (readEntries_of_breaksOff breaksOff offset)

theorem readEntries_eq_error_iff :
    readEntries offset bytes = .error (offset + place) ↔ BreaksOff bytes place := by
  refine ⟨fun read => ?_, fun breaksOff => readEntries_of_breaksOff breaksOff offset⟩
  rcases holds_or_breaksOff bytes with ⟨entries, holds⟩ | ⟨found, breaksOff⟩
  · cases read.symm.trans (readEntries_of_holds holds offset)
  · have same := Except.error.inj (read.symm.trans (readEntries_of_breaksOff breaksOff offset))
    rwa [Nat.add_left_cancel same]

/-- A file is whole entries in one way only. -/
theorem Holds.eq {others : List Entry} (h : Holds bytes entries) (h' : Holds bytes others) :
    entries = others :=
  Except.ok.inj ((readEntries_of_holds h 0).symm.trans (readEntries_of_holds h' 0))

/-- A file breaks off at one place only. -/
theorem BreaksOff.eq {other : Nat} (h : BreaksOff bytes place) (h' : BreaksOff bytes other) :
    place = other := by
  have same := (readEntries_of_breaksOff h 0).symm.trans (readEntries_of_breaksOff h' 0)
  exact Nat.add_left_cancel (Except.error.inj same)

/-! ### Stores -/

/-- The store of entries, in which the last entry of each key counts. -/
theorem eq_insertAll_iff {store : Store} : store = Store.empty.insertAll entries ↔
    ∀ key, store.get? key = entries.reverse.lookup key := by
  have values key :
      (Store.empty.insertAll entries).get? key = entries.reverse.lookup key := by
    rw [Store.get?_insertAll_eq, Store.get?_empty, Option.or_none]
  constructor
  · rintro rfl
    exact values
  · exact fun same => Store.ext_get? fun key => (same key).trans (values key).symm

/-- The file of the store of entries is the file of the entries only if their keys ascend. -/
theorem encode_insertAll_eq_iff (short : ∀ e ∈ entries, e.IsShort) :
    encode (Store.empty.insertAll entries) = entries.flatMap entry ↔
      entries.Pairwise fun a b => a.1 < b.1 := by
  constructor
  · intro same
    have kept : Holds (entries.flatMap entry) (Store.empty.insertAll entries).entries := by
      refine ⟨fun e member => ?_, same.symm⟩
      rcases Store.mem_insertAll member with before | inserted
      · cases before
      · exact short e inserted
    have all : Holds (entries.flatMap entry) entries := ⟨short, rfl⟩
    rw [all.eq kept]
    exact (Store.empty.insertAll entries).ascending
  · intro ascending
    have same : Store.empty.insertAll entries = ⟨entries, ascending⟩ :=
      Store.insertAll_entries ⟨entries, ascending⟩
    rw [same, encode]

theorem decode_eq_ok_iff {store : Store} : decode bytes = .ok store ↔
    ∃ entries, Holds bytes entries ∧ ∀ key, store.get? key = entries.reverse.lookup key := by
  unfold decode
  cases read : readEntries 0 bytes with
  | error place =>
    refine iff_of_false nofun ?_
    rintro ⟨entries, holds, -⟩
    cases read.symm.trans (readEntries_of_holds holds 0)
  | ok entries =>
    have holds := readEntries_eq_ok_iff.1 read
    rw [Except.ok.injEq, eq_comm, eq_insertAll_iff]
    constructor
    · exact fun same => ⟨entries, holds, same⟩
    · rintro ⟨others, holds', same⟩
      rwa [holds.eq holds']

theorem decode_eq_error_iff {e : StoreError} : decode bytes = .error e ↔
    ∃ place, BreaksOff bytes place ∧
      e = .corruption s!"storage file truncated at byte {place}" := by
  unfold decode
  cases read : readEntries 0 bytes with
  | error place =>
    rw [← Nat.zero_add place, readEntries_eq_error_iff] at read
    rw [Except.error.injEq, eq_comm]
    constructor
    · exact fun same => ⟨place, read, same⟩
    · rintro ⟨other, breaksOff, same⟩
      rwa [read.eq breaksOff]
  | ok entries =>
    refine iff_of_false nofun ?_
    rintro ⟨place, breaksOff, -⟩
    cases read.symm.trans (readEntries_of_breaksOff breaksOff 0)

/-- A file is read exactly when it is whole entries, one after another: a key and a value, each
behind its length in four little-endian digits; the store that is read gives each key the value of
its last entry. Any other file breaks off in a key or a value, and is refused with the place where
the first such field begins. Writing the store that was read gives the same file exactly when the
keys of its entries ascend. -/
theorem decode_exactly_entries (bytes : Bytes) :
    (∀ store, decode bytes = .ok store ↔ ∃ entries, Holds bytes entries ∧
      ∀ key, store.get? key = entries.reverse.lookup key) ∧
    (∀ e, decode bytes = .error e ↔ ∃ place, BreaksOff bytes place ∧
      e = .corruption s!"storage file truncated at byte {place}") ∧
    ∀ store entries, decode bytes = .ok store → Holds bytes entries →
      (encode store = bytes ↔ entries.Pairwise fun a b => a.1 < b.1) := by
  refine ⟨fun _ => decode_eq_ok_iff, fun _ => decode_eq_error_iff, ?_⟩
  intro store entries read holds
  obtain ⟨others, holds', values⟩ := decode_eq_ok_iff.1 read
  obtain rfl := holds.eq holds'
  rw [eq_insertAll_iff.2 values, holds.eq_flatMap]
  exact encode_insertAll_eq_iff holds.short

end IngestLedger.StoreFile
