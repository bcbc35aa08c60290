import IngestLedger.Ledger.Links
import IngestLedger.Proofs.Facts
import IngestLedger.Proofs.Keys
import IngestLedger.Proofs.Store

/-!
# What the identity tables represent

The identity tables of a store represent facts: the fact of each row is stored under the key of the
row and has its index entry, and the tables hold nothing else.

Main statements:

* `Store.Represents.insertAll_event`: the entries of an event make it the fact of its row.
* `Store.Represents.scan_eq`: stores that represent the same facts have the same identity tables.
* `Store.Represents.eq_iff`: stores with the same other tables are equal exactly when they represent
  the same facts.
-/

namespace IngestLedger

/-! ### Rows and their index entries -/

/-- The tables of identity facts and their indexes. -/
def Table.identity : List Table := [.accountLinks, .accountIndex, .memberships, .membershipIndex]

/-- A key of one of the identity tables. -/
def IsIdentityKey (bytes : Bytes) : Prop :=
  ∃ table ∈ Table.identity, table.tag.isPrefixOf bytes = true

theorem Key.isIdentityKey_iff {key : Key} {bytes : Bytes} (h : key.bytes = .ok bytes) :
    IsIdentityKey bytes ↔ key.table ∈ Table.identity := by
  constructor
  · rintro ⟨table, member, front⟩
    rw [(Key.tag_isPrefixOf_iff h).1 front]
    exact member
  · exact fun member => ⟨key.table, member, (Key.tag_isPrefixOf_iff h).2 rfl⟩

/-- A row and its index entry lead to each other. -/
def Key.reversed : Key → Key
  | accountLink account authKey => accountIndex authKey account
  | accountIndex authKey account => accountLink account authKey
  | membership authKey keyType publicKey => membershipIndex publicKey keyType authKey
  | membershipIndex publicKey keyType authKey => membership authKey keyType publicKey
  | key => key

@[simp] theorem Key.reversed_reversed (key : Key) : key.reversed.reversed = key := by
  cases key <;> rfl

theorem Key.components_reversed (key : Key) : key.reversed.components = key.components.reverse := by
  cases key <;> rfl

/-- A row has a key exactly when its index entry has one. -/
theorem Key.exists_bytes_reversed_iff {key : Key} :
    (∃ bytes, key.reversed.bytes = .ok bytes) ↔ ∃ bytes, key.bytes = .ok bytes := by
  simp only [Key.exists_bytes_iff, Key.components_reversed, List.mem_reverse]

namespace IdentityEvent

/-- The value that is stored for the event. -/
def record : IdentityEvent → Except LedgerError Bytes
  | link row => Record.encode row
  | member row => Record.encode row

/-- The key and the value of the row of an event, and the key of its index entry. -/
structure IsStoredAs (event : IdentityEvent) (row index value : Bytes) : Prop where
  row_eq : event.key.bytes = .ok row
  index_eq : event.key.reversed.bytes = .ok index
  value_eq : event.record = .ok value

variable {a b event : IdentityEvent} {row index value : Bytes}

theorem table_key_mem (event : IdentityEvent) : event.key.table ∈ Table.identity := by
  cases event <;> simp [key, Key.table, Table.identity]

theorem table_reversed_mem (event : IdentityEvent) :
    event.key.reversed.table ∈ Table.identity := by
  cases event <;> simp [key, Key.reversed, Key.table, Table.identity]

/-- No index entry stands where a row does. -/
theorem key_ne_reversed (a b : IdentityEvent) : a.key ≠ b.key.reversed := by
  cases a <;> cases b <;> simp [key, Key.reversed]

/-- Two events for one row that are stored alike are the same event. -/
theorem eq_of_record (same : a.key = b.key) (ha : a.record = .ok value)
    (hb : b.record = .ok value) : a = b := by
  cases a <;> cases b <;> simp only [key, reduceCtorEq] at same
  · have first := Record.decode_encode ha []
    rw [Record.decode_encode hb []] at first
    rw [Except.ok.inj first]
  · have first := Record.decode_encode ha []
    rw [Record.decode_encode hb []] at first
    rw [Except.ok.inj first]

/-- An event is stored in one way. -/
theorem IsStoredAs.unique {row' index' value' : Bytes} (h : event.IsStoredAs row index value)
    (h' : event.IsStoredAs row' index' value') : row = row' ∧ index = index' ∧ value = value' :=
  ⟨Except.ok.inj (h.row_eq.symm.trans h'.row_eq), Except.ok.inj (h.index_eq.symm.trans h'.index_eq),
    Except.ok.inj (h.value_eq.symm.trans h'.value_eq)⟩

theorem IsStoredAs.row_ne_index {row' index' value' : Bytes} (h : a.IsStoredAs row index value)
    (h' : b.IsStoredAs row' index' value') : row ≠ index' := by
  intro same
  refine key_ne_reversed a b (Key.bytes_injective h.row_eq ?_)
  rw [same]
  exact h'.index_eq

theorem IsStoredAs.isIdentityKey_row (h : event.IsStoredAs row index value) : IsIdentityKey row :=
  (Key.isIdentityKey_iff h.row_eq).2 event.table_key_mem

theorem IsStoredAs.isIdentityKey_index (h : event.IsStoredAs row index value) :
    IsIdentityKey index :=
  (Key.isIdentityKey_iff h.index_eq).2 event.table_reversed_mem

end IdentityEvent

/-! ### Facts in a store -/

namespace Store

/-- The row of an event holds the event. -/
def Holds (store : Store) (event : IdentityEvent) : Prop :=
  ∃ row value, event.key.bytes = .ok row ∧ event.record = .ok value ∧
    store.get? row = some value

/-- The identity tables hold each fact in its row, the index entries of the facts, and nothing
else. -/
structure Represents (store : Store) (facts : Facts) : Prop where
  key_eq : ∀ {key event}, facts key = some event → event.key = key
  written : ∀ {key event}, facts key = some event → ∃ row index value,
    event.IsStoredAs row index value ∧ store.get? row = some value ∧ store.get? index = some []
  only : ∀ {bytes value}, store.get? bytes = some value → IsIdentityKey bytes →
    ∃ event row index held, facts event.key = some event ∧ event.IsStoredAs row index held ∧
      ((bytes, value) = (row, held) ∨ (bytes, value) = (index, []))

theorem represents_empty : empty.Represents fun _ => none where
  key_eq := nofun
  written := nofun
  only h _ := by simp at h

namespace Represents

variable {store other : Store} {facts others : Facts} {event : IdentityEvent}
  {row index value : Bytes}

/-- What is stored under the key of a row. -/
theorem get?_row (h : store.Represents facts) (hrow : event.key.bytes = .ok row) :
    (facts event.key = none ∧ store.get? row = none) ∨
      ∃ held value, facts event.key = some held ∧ held.record = .ok value ∧
        store.get? row = some value := by
  cases fact : facts event.key with
  | none =>
    refine .inl ⟨rfl, ?_⟩
    cases stored : store.get? row with
    | none => rfl
    | some value =>
      have inside : IsIdentityKey row := (Key.isIdentityKey_iff hrow).2 event.table_key_mem
      obtain ⟨held, row', index, _, holds, written, here | here⟩ := h.only stored inside
      · obtain ⟨rfl, -⟩ := Prod.mk.inj here
        rw [Key.bytes_injective written.row_eq hrow, fact] at holds
        cases holds
      · obtain ⟨rfl, -⟩ := Prod.mk.inj here
        exact absurd (Key.bytes_injective hrow written.index_eq) (event.key_ne_reversed held)
  | some held =>
    obtain ⟨row', index, value, written, stored, -⟩ := h.written fact
    have same : row' = row := by
      have bytes := written.row_eq
      rw [h.key_eq fact, hrow] at bytes
      exact (Except.ok.inj bytes).symm
    exact .inr ⟨held, value, rfl, written.value_eq, same ▸ stored⟩

/-- A row holds an event exactly when that is its fact. -/
theorem holds_iff (h : store.Represents facts) :
    store.Holds event ↔ facts event.key = some event := by
  constructor
  · rintro ⟨row, value, hrow, hvalue, stored⟩
    rcases h.get?_row hrow with ⟨-, absent⟩ | ⟨held, value', fact, encoded, found⟩
    · rw [absent] at stored
      cases stored
    · rw [stored] at found
      obtain rfl := Option.some.inj found
      rw [fact, IdentityEvent.eq_of_record (h.key_eq fact) encoded hvalue]
  · intro fact
    obtain ⟨row, index, value, written, stored, -⟩ := h.written fact
    exact ⟨row, value, written.row_eq, written.value_eq, stored⟩

/-- The fact of a key is the event that its row holds. -/
theorem fact_iff (h : store.Represents facts) {key : Key} :
    facts key = some event ↔ store.Holds event ∧ event.key = key := by
  constructor
  · intro fact
    obtain rfl := h.key_eq fact
    exact ⟨h.holds_iff.2 fact, rfl⟩
  · rintro ⟨holds, rfl⟩
    exact h.holds_iff.1 holds

/-- A family none of whose rows are held has no facts. -/
theorem eq_none_of_family (h : store.Represents facts) {family : Family}
    (free : ∀ event, store.Holds event → event.key.family? ≠ some family) {key : Key}
    (inside : key.family? = some family) : facts key = none := by
  refine Option.eq_none_iff_forall_ne_some.2 fun event fact => ?_
  obtain ⟨holds, rfl⟩ := h.fact_iff.1 fact
  exact free event holds inside

/-- A store represents one family of facts. -/
theorem facts_eq (h : store.Represents facts) (h' : store.Represents others) : facts = others := by
  funext key
  refine Option.ext fun event => ?_
  rw [h.fact_iff, h'.fact_iff]

/-- The facts determine every entry of the identity tables. -/
theorem get?_of_get? (h : store.Represents facts) (h' : other.Represents facts)
    (inside : IsIdentityKey row) (stored : store.get? row = some value) :
    other.get? row = some value := by
  obtain ⟨event, key, index, held, fact, written, here⟩ := h.only stored inside
  obtain ⟨key', index', held', written', hrow, hindex⟩ := h'.written fact
  obtain ⟨rfl, rfl, rfl⟩ := written.unique written'
  rcases here with here | here
  · obtain ⟨rfl, rfl⟩ := Prod.mk.inj here
    exact hrow
  · obtain ⟨rfl, rfl⟩ := Prod.mk.inj here
    exact hindex

/-- Stores that represent the same facts have the same values under the keys of the identity
tables. -/
theorem get?_eq (h : store.Represents facts) (h' : other.Represents facts)
    (inside : IsIdentityKey row) : store.get? row = other.get? row :=
  Option.ext fun _ => ⟨h.get?_of_get? h' inside, h'.get?_of_get? h inside⟩

/-- Stores that represent the same facts have the same identity tables. -/
theorem scan_eq (h : store.Represents facts) (h' : other.Represents facts) {table : Table}
    (member : table ∈ Table.identity) : store.scan table.tag = other.scan table.tag := by
  rw [scan_eq_filter, scan_eq_filter]
  refine entries_eq_of_mem_iff (store.ascending.filter _) (other.ascending.filter _) fun e => ?_
  rw [← scan_eq_filter, ← scan_eq_filter, mem_scan, mem_scan]
  refine and_congr_right fun front => ?_
  rw [h.get?_eq h' ⟨table, member, front⟩]

/-- Stores that agree on the other tables are equal exactly when they represent the same facts. -/
theorem eq_iff (h : store.Represents facts) (h' : other.Represents others)
    (agree : ∀ bytes, ¬ IsIdentityKey bytes → store.get? bytes = other.get? bytes) :
    store = other ↔ facts = others := by
  constructor
  · rintro rfl
    exact h.facts_eq h'
  · rintro rfl
    refine ext_get? fun bytes => ?_
    by_cases inside : IsIdentityKey bytes
    · exact h.get?_eq h' inside
    · exact agree bytes inside

/-- Entries of other tables leave the facts as they are. -/
theorem insertAll_foreign (h : store.Represents facts) {entries : List Entry}
    (foreign : ∀ e ∈ entries, ¬ IsIdentityKey e.1) :
    (store.insertAll entries).Represents facts := by
  have kept : ∀ {bytes}, IsIdentityKey bytes →
      (store.insertAll entries).get? bytes = store.get? bytes := fun inside =>
    get?_insertAll_of_forall_ne (fun e he same => foreign e he (same ▸ inside)) store
  refine ⟨h.key_eq, fun fact => ?_, fun stored inside => ?_⟩
  · obtain ⟨row, index, value, written, hrow, hindex⟩ := h.written fact
    refine ⟨row, index, value, written, ?_, ?_⟩
    · rw [kept written.isIdentityKey_row, hrow]
    · rw [kept written.isIdentityKey_index, hindex]
  · rw [kept inside] at stored
    exact h.only stored inside

/-- The entries of an event make it the fact of its row. -/
theorem insertAll_event (h : store.Represents facts) (written : event.IsStoredAs row index value) :
    (store.insertAll [(row, value), (index, [])]).Represents fun key =>
      if key = event.key then some event else facts key := by
  have apart : row ≠ index := written.row_ne_index written
  have found : ∀ bytes, (store.insertAll [(row, value), (index, [])]).get? bytes =
      if bytes = index then some [] else if bytes = row then some value else store.get? bytes := by
    intro bytes
    rw [insertAll_cons, insertAll_cons, insertAll_nil, get?_insert, get?_insert]
  refine ⟨fun {key held} fact => ?_, fun {key held} fact => ?_,
    fun {bytes value'} stored inside => ?_⟩
  · split at fact
    · rename_i same
      rw [← Option.some.inj fact, same]
    · exact h.key_eq fact
  · split at fact
    · obtain rfl := Option.some.inj fact
      refine ⟨row, index, value, written, ?_, ?_⟩
      · rw [found, if_neg apart, if_pos rfl]
      · rw [found, if_pos rfl]
    · rename_i different
      obtain ⟨row', index', value', written', hrow, hindex⟩ := h.written fact
      have key := h.key_eq fact
      refine ⟨row', index', value', written', ?_, ?_⟩
      · have otherRow : row' ≠ row := by
          rintro rfl
          exact different (key.symm.trans (Key.bytes_injective written'.row_eq written.row_eq))
        rw [found, if_neg (written'.row_ne_index written), if_neg otherRow, hrow]
      · rw [found]
        -- index entries hold nothing, so it does not matter if this one is written again
        split
        · rfl
        · rw [if_neg (written.row_ne_index written').symm, hindex]
  · rw [found] at stored
    split at stored
    · rename_i here
      refine ⟨event, row, index, value, if_pos rfl, written, .inr ?_⟩
      rw [here, Option.some.inj stored]
    · rename_i notIndex
      split at stored
      · rename_i here
        refine ⟨event, row, index, value, if_pos rfl, written, .inl ?_⟩
        rw [here, Option.some.inj stored]
      · rename_i notRow
        obtain ⟨held, row', index', value'', fact, written', here⟩ := h.only stored inside
        -- a fact of the same row would have its entries where the new ones are
        have different : held.key ≠ event.key := by
          intro same
          rcases here with here | here
          · have bytes := written'.row_eq
            rw [same, written.row_eq] at bytes
            exact notRow ((Prod.mk.inj here).1.trans (Except.ok.inj bytes).symm)
          · have bytes := written'.index_eq
            rw [same, written.index_eq] at bytes
            exact notIndex ((Prod.mk.inj here).1.trans (Except.ok.inj bytes).symm)
        exact ⟨held, row', index', value'', (if_neg different).trans fact, written', here⟩

end Represents

end Store

end IngestLedger
