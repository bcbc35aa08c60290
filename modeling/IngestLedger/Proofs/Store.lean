import IngestLedger.Store

/-!
# Laws of stores

A store is determined by the values of its keys, and a scan lists the entries whose key begins
with a given front.

Main statements:

* `Store.ext_get?`: two stores with the same value for each key are equal.
* `Store.get?_insertAll_eq`: the last insertion of a key counts.
* `Store.insertAll_perm`: the order in which different keys are inserted does not matter.
* `Store.scan_eq_filter`: a scan is the selection of the entries by the front of their key.
* `Store.eq_scan_iff`, `Store.scan_exact`: what a scan lists, and in which order.
-/

namespace IngestLedger.Store

/-! ### Values and entries -/

theorem lookup_eq_some_iff {entries : List Entry}
    (ascending : entries.Pairwise fun a b => a.1 < b.1) {key value : Bytes} :
    entries.lookup key = some value ↔ (key, value) ∈ entries := by
  induction entries with
  | nil => simp
  | cons head tail ih =>
    obtain ⟨headKey, headValue⟩ := head
    obtain ⟨first, rest⟩ := List.pairwise_cons.1 ascending
    by_cases same : key = headKey
    · subst same
      have absent : (key, value) ∉ tail := fun member =>
        List.lt_irrefl key (first (key, value) member)
      simp [absent, eq_comm]
    · rw [lookup_cons_of_ne same, ih rest]
      simp [same]

/-- A key has a value exactly when that entry is in the store. -/
theorem get?_eq_some_iff {store : Store} {key value : Bytes} :
    store.get? key = some value ↔ (key, value) ∈ store.entries :=
  lookup_eq_some_iff store.ascending

theorem nodup_of_ascending {entries : List Entry}
    (ascending : entries.Pairwise fun a b => a.1 < b.1) : entries.Nodup := by
  refine ascending.imp fun {a b} less => ?_
  rintro rfl
  exact List.lt_irrefl a.1 less

/-- Ascending entries are determined by which ones they are. -/
theorem entries_eq_of_mem_iff {entries others : List Entry}
    (h₁ : entries.Pairwise fun a b => a.1 < b.1) (h₂ : others.Pairwise fun a b => a.1 < b.1)
    (same : ∀ e, e ∈ entries ↔ e ∈ others) : entries = others := by
  refine List.Perm.eq_of_pairwise (fun a b _ _ ab ba => ?_) h₁ h₂
    ((List.perm_ext_iff_of_nodup (nodup_of_ascending h₁) (nodup_of_ascending h₂)).2 same)
  exact absurd (List.lt_trans ab ba) (List.lt_irrefl a.1)

/-- Two stores with the same value for each key are equal. -/
theorem ext_get? {s t : Store} (h : ∀ key, s.get? key = t.get? key) : s = t := by
  refine ext (entries_eq_of_mem_iff s.ascending t.ascending fun e => ?_)
  obtain ⟨key, value⟩ := e
  rw [← get?_eq_some_iff, ← get?_eq_some_iff, h key]

/-! ### Several insertions -/

@[simp] theorem insertAll_nil (store : Store) : store.insertAll [] = store := rfl

theorem insertAll_cons (store : Store) (entry : Entry) (entries : List Entry) :
    store.insertAll (entry :: entries) = (store.insert entry).insertAll entries := rfl

theorem insertAll_append (store : Store) (entries others : List Entry) :
    store.insertAll (entries ++ others) = (store.insertAll entries).insertAll others :=
  List.foldl_append

/-- After several insertions a key has the value of its last entry, or the value that it had. -/
theorem get?_insertAll_eq (store : Store) (entries : List Entry) (key : Bytes) :
    (store.insertAll entries).get? key = (entries.reverse.lookup key).or (store.get? key) := by
  induction entries generalizing store with
  | nil => rfl
  | cons entry entries ih =>
    obtain ⟨entryKey, value⟩ := entry
    rw [insertAll_cons, ih, get?_insert, List.reverse_cons, List.lookup_append, Option.or_assoc]
    by_cases same : key = entryKey
    · rw [if_pos same, same, List.lookup_cons_self]
      rfl
    · rw [if_neg same, lookup_cons_of_ne same]
      rfl

/-- What was inserted on its own stands under its key. -/
theorem get?_insertAll_single (store : Store) (key value : Bytes) :
    (store.insertAll [(key, value)]).get? key = some value := by
  rw [insertAll_cons, insertAll_nil, get?_insert, if_pos rfl]

/-- A key that is not inserted keeps its value. -/
theorem get?_insertAll_of_forall_ne {entries : List Entry} {key : Bytes}
    (other : ∀ e ∈ entries, e.1 ≠ key) (store : Store) :
    (store.insertAll entries).get? key = store.get? key := by
  have absent : entries.reverse.lookup key = none := by
    refine List.lookup_eq_none_iff.2 fun e member => bne_iff_ne.2 (Ne.symm ?_)
    exact other e (List.mem_reverse.1 member)
  rw [get?_insertAll_eq, absent, Option.none_or]

/-- A key has an inserted value afterwards, or the value that it had. -/
theorem get?_insertAll (store : Store) (entries : List Entry) (key : Bytes) :
    (store.insertAll entries).get? key = store.get? key ∨
      ∃ e ∈ entries, e.1 = key ∧ (store.insertAll entries).get? key = some e.2 := by
  rw [get?_insertAll_eq]
  cases found : entries.reverse.lookup key with
  | none => exact .inl Option.none_or
  | some value =>
    obtain ⟨later, earlier, split, -⟩ := List.lookup_eq_some_iff.1 found
    have member : (key, value) ∈ entries.reverse :=
      split ▸ List.mem_append_right later List.mem_cons_self
    exact .inr ⟨(key, value), List.mem_reverse.1 member, rfl, Option.some_or⟩

/-- What is in a store after insertions was in it before, or was inserted. -/
theorem mem_insertAll {store : Store} {entries : List Entry} {e : Entry}
    (h : e ∈ (store.insertAll entries).entries) : e ∈ store.entries ∨ e ∈ entries := by
  have found := get?_eq_some_iff.2 h
  rcases get?_insertAll store entries e.1 with before | ⟨inserted, member, same, now⟩
  · rw [before] at found
    exact .inl (get?_eq_some_iff.1 found)
  · rw [now] at found
    obtain rfl : inserted = e := Prod.ext same (Option.some.inj found)
    exact .inr member

/-- Where two stores agree, they do so after the same insertions. -/
theorem get?_insertAll_congr {s t : Store} {key : Bytes} (same : s.get? key = t.get? key)
    (entries : List Entry) : (s.insertAll entries).get? key = (t.insertAll entries).get? key := by
  rw [get?_insertAll_eq, get?_insertAll_eq, same]

/-- Insertions of different keys may be exchanged. -/
theorem insert_comm {e f : Entry} (different : e.1 ≠ f.1) (store : Store) :
    (store.insert e).insert f = (store.insert f).insert e := by
  refine ext_get? fun key => ?_
  rw [get?_insert, get?_insert, get?_insert, get?_insert]
  by_cases here : key = e.1
  · rw [if_neg (here ▸ different), if_pos here, if_pos here]
  · rw [if_neg here, if_neg here]

/-- Entries of different keys may be inserted in any order. -/
theorem insertAll_perm {entries others : List Entry} (perm : entries.Perm others)
    (distinct : (entries.map Prod.fst).Nodup) (store : Store) :
    store.insertAll entries = store.insertAll others := by
  induction perm generalizing store with
  | nil => rfl
  | cons e _ ih =>
    rw [List.map_cons, List.nodup_cons] at distinct
    rw [insertAll_cons, insertAll_cons, ih distinct.2]
  | swap e f entries =>
    simp only [List.map_cons, List.nodup_cons, List.mem_cons, not_or] at distinct
    rw [insertAll_cons, insertAll_cons, insertAll_cons, insertAll_cons, insert_comm distinct.1.1]
  | trans first _ ih ih' =>
    rw [ih distinct, ih' ((first.map Prod.fst).nodup_iff.1 distinct)]

/-! ### Scans -/

/-- Among the keys from `front` on, those that begin with it come first. -/
theorem isPrefixOf_eq_false_of_lt {front key other : Bytes} (from_front : ¬ key < front)
    (differs : front.isPrefixOf key = false) (above : key < other) :
    front.isPrefixOf other = false := by
  induction front generalizing key other with
  | nil => simp at differs
  | cons byte front ih =>
    cases key with
    | nil => exact absurd (List.nil_lt_cons byte front) from_front
    | cons head tail =>
      cases other with
      | nil => exact absurd above (List.not_lt_nil _)
      | cons otherHead otherTail =>
        rw [List.cons_lt_cons_iff] at from_front above
        simp only [List.isPrefixOf_cons_cons, Bool.and_eq_false_iff, beq_eq_false_iff_ne] at *
        by_cases same : byte = otherHead
        · subst same
          refine .inr ?_
          rcases above with less | ⟨rfl, less⟩
          · exact absurd (.inl less) from_front
          · refine ih (fun below => from_front (.inr ⟨rfl, below⟩)) ?_ less
            exact differs.resolve_left fun ne => ne rfl
        · exact .inl same

/-- Of ascending entries from `front` on, those that begin with it are the first ones. -/
theorem takeWhile_eq_filter {front : Bytes} {entries : List Entry}
    (ascending : entries.Pairwise fun a b => a.1 < b.1)
    (from_front : ∀ e ∈ entries, ¬ e.1 < front) :
    (entries.takeWhile fun e => front.isPrefixOf e.1) =
      entries.filter fun e => front.isPrefixOf e.1 := by
  induction entries with
  | nil => rfl
  | cons head tail ih =>
    obtain ⟨first, rest⟩ := List.pairwise_cons.1 ascending
    have head_from := from_front head List.mem_cons_self
    have tail_from : ∀ e ∈ tail, ¬ e.1 < front := fun e he =>
      from_front e (List.mem_cons_of_mem _ he)
    cases h : front.isPrefixOf head.1 with
    | true => simp only [List.takeWhile_cons, List.filter_cons, h, if_true, ih rest tail_from]
    | false =>
      -- the run ends here, and no later key begins with `front` either
      have none_after : ∀ e ∈ tail, ¬ front.isPrefixOf e.1 = true := fun e he =>
        by simp [isPrefixOf_eq_false_of_lt head_from h (first e he)]
      simp only [List.takeWhile_cons, List.filter_cons, h, Bool.false_eq_true, if_false,
        List.filter_eq_nil_iff.2 none_after]

/-- A scan lists the entries whose key begins with `front`, in the order of the store. -/
theorem scan_eq_filter (store : Store) (front : Bytes) :
    store.scan front = store.entries.filter fun e => front.isPrefixOf e.1 := by
  obtain ⟨entries, ascending⟩ := store
  simp only [scan]
  induction entries with
  | nil => rfl
  | cons head tail ih =>
    obtain ⟨first, rest⟩ := List.pairwise_cons.1 ascending
    by_cases below : head.1 < front
    · have skipped : front.isPrefixOf head.1 = false :=
        Bool.eq_false_iff.2 fun h => List.not_lt.2 (List.isPrefixOf_iff_prefix.1 h).le below
      rw [List.dropWhile_cons_of_pos (by simpa using below), ih rest,
        List.filter_cons_of_neg (by simp [skipped])]
    · rw [List.dropWhile_cons_of_neg (by simpa using below)]
      refine takeWhile_eq_filter ascending fun e he => ?_
      rcases List.mem_cons.1 he with rfl | he
      · exact below
      · exact fun less => below (List.lt_trans (first e he) less)

theorem mem_scan {store : Store} {front : Bytes} {e : Entry} :
    e ∈ store.scan front ↔ front.isPrefixOf e.1 = true ∧ store.get? e.1 = some e.2 := by
  rw [scan_eq_filter, List.mem_filter, get?_eq_some_iff, and_comm]

theorem ascending_scan (store : Store) (front : Bytes) :
    (store.scan front).Pairwise fun a b => a.1 < b.1 := by
  rw [scan_eq_filter]
  exact store.ascending.filter _

/-- A scan is the one list in strictly ascending order of keys that holds the entries whose key
begins with `front`, and no others. -/
theorem eq_scan_iff {store : Store} {front : Bytes} {listed : List Entry} :
    listed = store.scan front ↔ (listed.Pairwise fun a b => a.1 < b.1) ∧
      ∀ key value, (key, value) ∈ listed ↔ front <+: key ∧ store.get? key = some value := by
  have inside : ∀ e, e ∈ store.scan front ↔ front <+: e.1 ∧ store.get? e.1 = some e.2 := by
    intro e
    rw [mem_scan, List.isPrefixOf_iff_prefix]
  constructor
  · rintro rfl
    exact ⟨ascending_scan store front, fun key value => inside (key, value)⟩
  · rintro ⟨ascending, members⟩
    refine entries_eq_of_mem_iff ascending (ascending_scan store front) fun e => ?_
    rw [inside, ← members]

/-- What a scan lists, in every store and for every front, the empty one and one of greatest bytes
included: the entries whose key begins with the front, selected in the order of the store. It is the
one list in strictly ascending order of keys, and so with each key once, that holds each of these
keys with its value; and the value of a key is the one that was put last. -/
theorem scan_exact (store : Store) (front : Bytes) :
    (store.scan front = store.entries.filter fun e => front.isPrefixOf e.1) ∧
    (∀ listed, listed = store.scan front ↔ (listed.Pairwise fun a b => a.1 < b.1) ∧
      ∀ key value, (key, value) ∈ listed ↔ front <+: key ∧ store.get? key = some value) ∧
    ∀ puts key value, (key, value) ∈ (store.insertAll puts).scan front ↔
      front <+: key ∧ (puts.reverse.lookup key).or (store.get? key) = some value := by
  refine ⟨scan_eq_filter store front, fun listed => eq_scan_iff, fun puts key value => ?_⟩
  rw [← get?_insertAll_eq]
  exact (eq_scan_iff.1 rfl).2 key value

example : (empty.insertAll [([0xFF, 0xFF, 0], [1]), ([0xFF], [2]), ([0xFF, 0xFF], [3]),
    ([0xFF, 0xFE], [4]), ([0xFF, 0xFF], [5])]).scan [0xFF, 0xFF] =
      [([0xFF, 0xFF], [5]), ([0xFF, 0xFF, 0], [1])] := by decide

end IngestLedger.Store
