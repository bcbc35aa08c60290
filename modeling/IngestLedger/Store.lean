import IngestLedger.Bytes

/-!
# Stores

A store maps keys to values and lists them in ascending order of keys. Its entries are kept
sorted, so a scan for the keys with a common beginning is one run of entries.

Main statements:

* `Store.insertEntry_ascending`: an insertion keeps the order.
* `Store.get?_insert`: what an insertion changes.
-/

namespace IngestLedger

/-- One entry of a store: a key and its value. -/
abbrev Entry := Bytes × Bytes

/-- Entries in strictly ascending order of their keys. -/
structure Store where
  entries : List Entry
  ascending : entries.Pairwise fun a b => a.1 < b.1

namespace Store

@[ext] theorem ext {s t : Store} (h : s.entries = t.entries) : s = t := by
  cases s; cases t; simp_all

instance : DecidableEq Store := fun s t =>
  decidable_of_iff (s.entries = t.entries) ⟨ext, fun h => h ▸ rfl⟩

/-- The store without entries. -/
def empty : Store := ⟨[], .nil⟩

instance : Inhabited Store := ⟨empty⟩

/-- The number of entries. -/
def size (store : Store) : Nat := store.entries.length

/-- Whether there are no entries. -/
def isEmpty (store : Store) : Bool := store.entries.isEmpty

/-- The value of a key. -/
def get? (store : Store) (key : Bytes) : Option Bytes := store.entries.lookup key

/-- Put an entry among ascending entries in the place of its key. -/
def insertEntry (entry : Entry) : List Entry → List Entry
  | [] => [entry]
  | head :: tail =>
    if entry.1 < head.1 then entry :: head :: tail
    else if entry.1 = head.1 then entry :: tail
    else head :: insertEntry entry tail

theorem mem_insertEntry {entry e : Entry} {entries : List Entry}
    (h : e ∈ insertEntry entry entries) : e = entry ∨ e ∈ entries := by
  induction entries with
  | nil => simpa [insertEntry] using h
  | cons head tail ih =>
    simp only [insertEntry] at h
    split at h
    · simpa using h
    · split at h
      · rcases List.mem_cons.1 h with h | h
        · exact .inl h
        · exact .inr (List.mem_cons_of_mem _ h)
      · rcases List.mem_cons.1 h with h | h
        · exact .inr (h ▸ List.mem_cons_self)
        · rcases ih h with h | h
          · exact .inl h
          · exact .inr (List.mem_cons_of_mem _ h)

theorem insertEntry_ascending {entry : Entry} {entries : List Entry}
    (h : entries.Pairwise fun a b => a.1 < b.1) :
    (insertEntry entry entries).Pairwise fun a b => a.1 < b.1 := by
  induction entries with
  | nil => simp [insertEntry]
  | cons head tail ih =>
    obtain ⟨first, rest⟩ := List.pairwise_cons.1 h
    simp only [insertEntry]
    split
    · rename_i below
      refine List.pairwise_cons.2 ⟨fun e he => ?_, h⟩
      rcases List.mem_cons.1 he with rfl | he
      · exact below
      · exact List.lt_trans below (first e he)
    · split
      · rename_i same
        exact List.pairwise_cons.2 ⟨fun e he => same ▸ first e he, rest⟩
      · rename_i notBelow different
        refine List.pairwise_cons.2 ⟨fun e he => ?_, ih rest⟩
        rcases mem_insertEntry he with rfl | he
        · exact Std.lt_of_le_of_ne (List.not_lt.1 notBelow) (Ne.symm different)
        · exact first e he

/-- Give a key a value. -/
def insert (store : Store) (entry : Entry) : Store :=
  ⟨insertEntry entry store.entries, insertEntry_ascending store.ascending⟩

/-- Give several keys their values, one after another. -/
def insertAll (store : Store) (entries : List Entry) : Store := entries.foldl insert store

/-- The entries whose key begins with `front`: those from `front` on, as long as they do. -/
def scan (store : Store) (front : Bytes) : List Entry :=
  (store.entries.dropWhile fun e => e.1 < front).takeWhile fun e => front.isPrefixOf e.1

@[simp] theorem get?_empty (key : Bytes) : empty.get? key = none := rfl

theorem lookup_cons_of_ne {key k : Bytes} (h : key ≠ k) (v : Bytes) (entries : List Entry) :
    ((k, v) :: entries).lookup key = entries.lookup key := by
  simp only [List.lookup_cons, beq_eq_false_iff_ne.2 h]

theorem lookup_insertEntry (entry : Entry) (entries : List Entry) (key : Bytes) :
    (insertEntry entry entries).lookup key =
      if key = entry.1 then some entry.2 else entries.lookup key := by
  obtain ⟨k, v⟩ := entry
  induction entries with
  | nil =>
    by_cases h : key = k
    · simp [insertEntry, h]
    · simp only [insertEntry, lookup_cons_of_ne h, h, if_false]
  | cons head tail ih =>
    obtain ⟨headKey, headValue⟩ := head
    simp only [insertEntry]
    split
    · by_cases h : key = k
      · simp [h]
      · simp only [lookup_cons_of_ne h, h, if_false]
    · split
      · rename_i same
        by_cases h : key = k
        · simp [h]
        · have other : key ≠ headKey := same ▸ h
          simp only [lookup_cons_of_ne h, lookup_cons_of_ne other, h, if_false]
      · rename_i notBelow different
        by_cases h : key = headKey
        · have other : headKey ≠ k := Ne.symm different
          simp [h, other]
        · simp only [lookup_cons_of_ne h, ih]

/-- Inserting changes the answer for the inserted key alone. -/
theorem get?_insert (store : Store) (entry : Entry) (key : Bytes) :
    (store.insert entry).get? key = if key = entry.1 then some entry.2 else store.get? key :=
  lookup_insertEntry entry store.entries key

end Store

end IngestLedger
