import IngestLedger.Proofs.FileGrammar
import IngestLedger.Proofs.FileStores

/-!
# Store files that lost their end

The file of a store has no trailer and does not tell how many entries there are, so a file that was
cut off shows it only if the cut is inside an entry. Then the file is refused with the place where
the field begins that was cut. A cut between two entries goes unnoticed: what is opened is a store
without the entries behind the cut.

Main definitions:

* `Store.front`: the store of the first entries of a store.
* `StoreFile.IsCutAt`: where the file of a store was cut off.

Main statements:

* `StoreFile.exists_isCutAt`: each proper front of the file of a store was cut off somewhere.
* `Backend.openFile_of_cut`: what is opened where the file of a store was cut off.
-/

namespace IngestLedger

/-- The store of the first entries of a store. -/
def Store.front (store : Store) (count : Nat) : Store where
  entries := store.entries.take count
  ascending := store.ascending.sublist (List.take_sublist count _)

namespace StoreFile

variable {part rest value cut : Bytes} {entries : List Entry} {store : Store} {e : Entry}
  {place count : Nat}

/-- Where the file of a store was cut off: some whole entries are left, and of the entry after them
a part, which may be nothing but is not all of it. -/
structure IsCutAt (store : Store) (cut : Bytes) (count : Nat) (e : Entry) (part : Bytes) :
    Prop where
  next : store.entries[count]? = some e
  eq_append : cut = encode (store.front count) ++ part
  begins : part <+: entry e
  proper : part ≠ entry e

/-- Where the field begins that a part of an entry ends in: this is the value once the key is
whole. -/
def cutField (e : Entry) (part : Bytes) : Nat :=
  if field e.1 <+: part then (field e.1).length else 0

/-- Where the field begins that a file was cut off in. -/
def cutPlace (store : Store) (count : Nat) (e : Entry) (part : Bytes) : Nat :=
  (encode (store.front count)).length + cutField e part

/-! ### Cuts inside an entry -/

/-- No field is whole in a part of it. -/
theorem not_beginsField_of_cut (short : value.length < UInt32.size) (begins : part <+: field value)
    (proper : part ≠ field value) : ¬ BeginsField part := by
  rintro ⟨other, shortOther, between, rfl⟩
  obtain ⟨behind, whole⟩ := begins
  -- both fields are read off the same bytes
  have readOther := readField_field shortOther (between ++ behind)
  have readValue := readField_field short []
  rw [List.append_nil, ← whole, List.append_assoc, readOther] at readValue
  obtain ⟨rfl, nothing⟩ := Prod.mk.inj (Option.some.inj readValue)
  rw [(List.append_eq_nil_iff.1 nothing).1] at proper
  exact proper (List.append_nil _)

/-- A part of an entry breaks off in the field that it ends in. -/
theorem breaksOff_of_cut (short : e.IsShort) (begins : part <+: entry e) (proper : part ≠ entry e)
    (some_bytes : part ≠ []) : BreaksOff part (cutField e part) := by
  unfold cutField
  split
  · rename_i whole
    obtain ⟨rest, rfl⟩ := whole
    rw [entry, List.prefix_append_right_inj] at begins
    refine .value short.1 (not_beginsField_of_cut short.2 begins fun same => proper ?_)
    rw [same, entry]
  · rename_i cut
    have inside : part <+: field e.1 :=
      (List.prefix_or_prefix_of_prefix begins (List.prefix_append _ _)).resolve_right cut
    refine .key some_bytes (not_beginsField_of_cut short.1 inside fun same => cut ?_)
    rw [same]

/-- Whole entries in front only move the place where a file breaks off. -/
theorem breaksOff_behind (later : BreaksOff rest place) (short : ∀ e ∈ entries, e.IsShort) :
    BreaksOff (entries.flatMap entry ++ rest) ((entries.flatMap entry).length + place) := by
  induction entries with
  | nil => simpa using later
  | cons e entries ih =>
    obtain ⟨shortHead, shortTail⟩ := List.forall_mem_cons.1 short
    have moved := BreaksOff.entry shortHead (ih shortTail)
    rwa [List.flatMap_cons, List.append_assoc, List.length_append, Nat.add_assoc]

/-! ### Cuts of a file -/

/-- What is left of entries was cut off behind some of them, within the next one. -/
theorem exists_cut (begins : cut <+: entries.flatMap entry)
    (proper : cut ≠ entries.flatMap entry) : ∃ count e part, entries[count]? = some e ∧
      cut = (entries.take count).flatMap entry ++ part ∧ part <+: entry e ∧ part ≠ entry e := by
  induction entries generalizing cut with
  | nil => exact absurd (List.prefix_nil.1 begins) proper
  | cons e entries ih =>
    rw [List.flatMap_cons] at begins proper
    rcases List.prefix_or_prefix_of_prefix begins (List.prefix_append _ _) with inside | whole
    · by_cases all : cut = entry e
      · subst all
        have more : ([] : Bytes) ≠ entries.flatMap entry := by
          intro none
          rw [← none, List.append_nil] at proper
          exact proper rfl
        obtain ⟨count, next, part, here, eq_append, cutNext⟩ := ih List.nil_prefix more
        refine ⟨count + 1, next, part, here, ?_, cutNext⟩
        rw [List.take_succ_cons, List.flatMap_cons, List.append_assoc, ← eq_append,
          List.append_nil]
      · exact ⟨0, e, cut, rfl, rfl, inside, all⟩
    · obtain ⟨later, rfl⟩ := whole
      rw [List.prefix_append_right_inj] at begins
      obtain ⟨count, next, part, here, eq_append, cutNext⟩ :=
        ih begins fun same => proper (same ▸ rfl)
      refine ⟨count + 1, next, part, here, ?_, cutNext⟩
      rw [List.take_succ_cons, List.flatMap_cons, List.append_assoc, ← eq_append]

/-- Each proper front of the file of a store was cut off somewhere. -/
theorem exists_isCutAt (begins : cut <+: encode store) (proper : cut ≠ encode store) :
    ∃ count e part, IsCutAt store cut count e part := by
  obtain ⟨count, e, part, next, eq_append, begins, proper⟩ := exists_cut begins proper
  exact ⟨count, e, part, next, eq_append, begins, proper⟩

/-- What is read of a file that was cut off. -/
theorem IsCutAt.decode_eq (h : IsCutAt store cut count e part)
    (short : ∀ e ∈ store.entries, e.IsShort) : decode cut =
      if part = [] then .ok (store.front count)
      else .error (.corruption
        s!"storage file truncated at byte {cutPlace store count e part}") := by
  have shortFront : ∀ e ∈ (store.front count).entries, e.IsShort :=
    fun e member => short e (List.mem_of_mem_take member)
  rw [h.eq_append]
  split
  · rename_i between
    rw [between, List.append_nil]
    exact decode_encode shortFront
  · rename_i inside
    have breaksOff := breaksOff_of_cut (short e (List.mem_of_getElem? h.next)) h.begins h.proper
      inside
    exact decode_eq_error_iff.2 ⟨_, breaksOff_behind breaksOff shortFront, rfl⟩

end StoreFile

namespace Backend

variable {disk saved left : Disk} {home : Path} {store : Store} {file cut : Bytes}

/-- A store was saved, and of its file only a proper front was left. If the cut is between two
entries, or in front of all, what is opened is the store of the entries before it, which lacks at
least one. If it is inside an entry, nothing is opened: the file is refused as corrupt, with the
place where the field begins that was cut. Assumed of the disk: a save replaces all of the file. -/
theorem openFile_of_cut (sound : disk.Saves home store) (short : ∀ e ∈ store.entries, e.IsShort)
    (done : save disk home store = (.ok (), saved)) (whole : saved.storeFile home = .ok file)
    (begins : cut <+: file) (proper : cut ≠ file) (remains : left.storeFile home = .ok cut) :
    ∃ count e part, StoreFile.IsCutAt store cut count e part ∧ openFile left home =
      if part = [] then .ok { contents := store.front count, home := some home, disk := left }
      else .error (.corruption
        s!"storage file truncated at byte {StoreFile.cutPlace store count e part}") := by
  have file_eq : file = StoreFile.encode store :=
    Except.ok.inj (whole.symm.trans (sound.replaced saved done))
  subst file_eq
  obtain ⟨count, e, part, isCut⟩ := StoreFile.exists_isCutAt begins proper
  refine ⟨count, e, part, isCut, ?_⟩
  have read : left.read (home.child StoreFile.name) = .ok cut := remains
  simp only [openFile, load, read, isCut.decode_eq short]
  by_cases between : part = []
  · simp only [between, if_true]
  · simp only [between, if_false]

/-! ### A file of two entries -/

namespace TwoRows

def rows : Store := Store.empty.insertAll [([0x61], [0x31]), ([0x62], [0x32])]

/-- The disk after the two rows were saved. -/
def savedDisk : Disk := (save .empty ["data"] rows).2

/-- That disk with no more than the first bytes of the file. -/
def cutDisk (count : Nat) : Disk :=
  savedDisk.putFile ["data", "ledger.db"] ((StoreFile.encode rows).take count)

theorem save_rows : save .empty ["data"] rows = (.ok (), savedDisk) := by
  have done : (save .empty ["data"] rows).1 = .ok () := by decide +kernel
  exact Prod.ext done rfl

theorem storeFile_savedDisk : savedDisk.storeFile ["data"] = .ok (StoreFile.encode rows) := by
  decide +kernel

/-- A file that was cut off between its two rows is opened, and the second row is lost. -/
theorem row_is_lost : save .empty ["data"] rows = (.ok (), savedDisk) ∧
    savedDisk.storeFile ["data"] = .ok (StoreFile.encode rows) ∧
    (cutDisk 10).storeFile ["data"] = .ok ((StoreFile.encode rows).take 10) ∧
    (StoreFile.encode rows).take 10 ≠ StoreFile.encode rows ∧
    ∃ opened, openFile (cutDisk 10) ["data"] = .ok opened ∧
      rows.get? [0x62] = some [0x32] ∧ opened.contents.get? [0x62] = none := by
  refine ⟨save_rows, storeFile_savedDisk, by decide +kernel, by decide +kernel, ?_⟩
  exact ⟨{ contents := rows.front 1, home := some ["data"], disk := cutDisk 10 }, by decide +kernel,
    by decide +kernel, by decide +kernel⟩

/-- A file that was cut off inside its last value is refused with the place of that value. -/
theorem refused_in_value : openFile (cutDisk 17) ["data"] =
    .error (.corruption "storage file truncated at byte 15") := by
  have sound : Disk.empty.Saves ["data"] rows := Disk.saves_iff.2 (by decide +kernel)
  have remains : (cutDisk 17).storeFile ["data"] = .ok ((StoreFile.encode rows).take 17) := by
    decide +kernel
  obtain ⟨count, e, part, isCut, opens⟩ := openFile_of_cut sound (by decide) save_rows
    storeFile_savedDisk (List.take_prefix 17 _) (by decide +kernel) remains
  obtain ⟨next, eq_append, begins, -⟩ := isCut
  -- the first entry is too short to hold the 17 bytes, and there is no third one
  rcases count with _ | _ | count
  · obtain rfl := Option.some.inj next
    obtain rfl : (StoreFile.encode rows).take 17 = part := eq_append
    exact absurd begins.length_le (by decide +kernel)
  · obtain rfl := Option.some.inj next
    have left : (StoreFile.encode rows).take 17 =
        StoreFile.encode (rows.front 1) ++ [1, 0, 0, 0, 0x62, 1, 0] := by decide +kernel
    obtain rfl := List.append_cancel_left (eq_append.symm.trans left)
    rw [opens]
    decide +kernel
  · cases next

end TwoRows

end Backend

end IngestLedger
