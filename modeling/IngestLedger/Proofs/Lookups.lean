import IngestLedger.Proofs.Histories

/-!
# Lookups in both directions

The links of an account and the members behind an authentication key are read from their rows; the
accounts of an authentication key and the authentication keys of a public key are found through the
indexes. Over a store that represents facts every lookup answers, and all of them tell of the same
facts.

Main statements:

* `Ledger.mem_authKeyLinks`, `Ledger.mem_keySet`: the rows of a family are its facts.
* `Ledger.mem_currentSigners`, `Ledger.mem_accountsOf`, `Ledger.mem_authKeysOf`: what is in use.
* `Life.lookups_agree`: the two directions agree at the end of every life.
-/

namespace IngestLedger

/-- A list whose elements are all mapped to results is mapped to the list of them. -/
theorem exists_mapM_ok {α β : Type} {f : α → Except LedgerError β} {xs : List α}
    (h : ∀ x ∈ xs, ∃ y, f x = .ok y) :
    ∃ ys, xs.mapM f = .ok ys ∧ ∀ y, y ∈ ys ↔ ∃ x ∈ xs, f x = .ok y := by
  induction xs with
  | nil => exact ⟨[], rfl, by simp⟩
  | cons x xs ih =>
    obtain ⟨y, hy⟩ := h x List.mem_cons_self
    obtain ⟨ys, hys, members⟩ := ih fun z hz => h z (List.mem_cons_of_mem _ hz)
    refine ⟨y :: ys, by simp only [List.mapM_cons, hy, hys]; rfl, fun z => ?_⟩
    rw [List.mem_cons, members]
    constructor
    · rintro (rfl | ⟨w, inside, hw⟩)
      · exact ⟨x, List.mem_cons_self, hy⟩
      · exact ⟨w, List.mem_cons_of_mem _ inside, hw⟩
    · rintro ⟨w, inside, hw⟩
      rcases List.mem_cons.1 inside with rfl | inside
      · exact .inl (Except.ok.inj (hw.symm.trans hy))
      · exact .inr ⟨w, inside, hw⟩

theorem mem_of_mapM_ok {α β : Type} {f : α → Except LedgerError β} {xs : List α} {ys : List β}
    (h : xs.mapM f = .ok ys) : ∀ y ∈ ys, ∃ x ∈ xs, f x = .ok y := by
  induction xs generalizing ys with
  | nil =>
    obtain rfl := Except.ok.inj h
    exact nofun
  | cons x xs ih =>
    rw [List.mapM_cons] at h
    obtain ⟨first, hfirst, h⟩ := bind_eq_ok_iff.1 h
    obtain ⟨rest, hrest, h⟩ := bind_eq_ok_iff.1 h
    obtain rfl := Except.ok.inj h
    intro y member
    rcases List.mem_cons.1 member with rfl | member
    · exact ⟨x, List.mem_cons_self, hfirst⟩
    · obtain ⟨z, inside, hz⟩ := ih hrest y member
      exact ⟨z, List.mem_cons_of_mem _ inside, hz⟩

/-- What holds between the elements of a list, and with them between their results, holds between
the results in the same order. -/
theorem pairwise_of_mapM_ok {α β : Type} {R : α → α → Prop} {S : β → β → Prop}
    {f : α → Except LedgerError β} {xs : List α} {ys : List β} (h : xs.mapM f = .ok ys)
    (ordered : xs.Pairwise R)
    (kept : ∀ a ∈ xs, ∀ b ∈ xs, R a b → ∀ x y, f a = .ok x → f b = .ok y → S x y) :
    ys.Pairwise S := by
  induction xs generalizing ys with
  | nil =>
    obtain rfl := Except.ok.inj h
    exact .nil
  | cons a xs ih =>
    rw [List.mapM_cons] at h
    obtain ⟨first, hfirst, h⟩ := bind_eq_ok_iff.1 h
    obtain ⟨rest, hrest, h⟩ := bind_eq_ok_iff.1 h
    obtain rfl := Except.ok.inj h
    obtain ⟨least, ordered⟩ := List.pairwise_cons.1 ordered
    refine List.pairwise_cons.2 ⟨fun y member => ?_, ih hrest ordered fun b hb c hc =>
      kept b (List.mem_cons_of_mem _ hb) c (List.mem_cons_of_mem _ hc)⟩
    obtain ⟨b, inside, hb⟩ := mem_of_mapM_ok hrest y member
    exact kept a List.mem_cons_self b (List.mem_cons_of_mem _ inside) (least b inside) first y
      hfirst hb

namespace Ledger

@[simp] theorem mem_sortedSet {text : String} {texts : List String} :
    text ∈ sortedSet texts ↔ text ∈ texts := by
  rw [sortedSet, List.mem_eraseDups, List.mem_mergeSort]

theorem decodeEntries_eq_mapM {α : Type} [Row α] (entries : List Entry) :
    decodeEntries α entries = entries.mapM fun e => Record.decode e.1 e.2 := by
  induction entries with
  | nil => rfl
  | cons entry entries ih =>
    obtain ⟨key, value⟩ := entry
    rw [decodeEntries, ih, List.mapM_cons]

/-! ### The rows of a family -/

theorem isIdentityKey_of_isPrefixOf_family {family : Family} {front bytes : Bytes}
    (hfamily : family.bytes = .ok front) (inside : front.isPrefixOf bytes = true) :
    IsIdentityKey bytes := by
  obtain ⟨-, rfl⟩ := Key.bytes_eq_ok_iff_of_family.1 hfamily
  obtain ⟨rest, rfl⟩ := List.isPrefixOf_iff_prefix.1 inside
  refine ⟨family.table, ?_, List.isPrefixOf_iff_prefix.2 ⟨_, (List.append_assoc ..).symm⟩⟩
  cases family <;> simp [Family.table, Table.identity]

end Ledger

/-- What a scan for a family finds: the rows of the facts in it, and the index entries in it. -/
theorem Store.Represents.mem_scan_family {store : Store} {facts : Facts}
    (h : store.Represents facts) {family : Family} {front : Bytes}
    (hfamily : family.bytes = .ok front) {e : Entry} :
    e ∈ store.scan front ↔ ∃ event row index value, facts event.key = some event ∧
      event.IsStoredAs row index value ∧
      (event.key.family? = some family ∧ e = (row, value) ∨
        event.key.reversed.family? = some family ∧ e = (index, [])) := by
  rw [Store.mem_scan]
  constructor
  · rintro ⟨inside, stored⟩
    obtain ⟨event, row, index, value, fact, written, here⟩ :=
      h.only stored (Ledger.isIdentityKey_of_isPrefixOf_family hfamily inside)
    refine ⟨event, row, index, value, fact, written, ?_⟩
    -- the entry is the row of the fact or its index entry, and its key tells the family
    rcases here with here | here
    · rw [(Prod.mk.inj here).1] at inside
      exact .inl ⟨(Key.isPrefixOf_family_iff written.row_eq hfamily).1 inside, here⟩
    · rw [(Prod.mk.inj here).1] at inside
      exact .inr ⟨(Key.isPrefixOf_family_iff written.index_eq hfamily).1 inside, here⟩
  · rintro ⟨event, row, index, value, fact, written, ⟨member, rfl⟩ | ⟨member, rfl⟩⟩
    · obtain ⟨row', index', value', written', stored, -⟩ := h.written fact
      obtain ⟨rfl, rfl, rfl⟩ := written.unique written'
      exact ⟨(Key.isPrefixOf_family_iff written.row_eq hfamily).2 member, stored⟩
    · obtain ⟨row', index', value', written', -, stored⟩ := h.written fact
      obtain ⟨rfl, rfl, rfl⟩ := written.unique written'
      exact ⟨(Key.isPrefixOf_family_iff written.index_eq hfamily).2 member, stored⟩

/-- The rows of an account are links. -/
theorem Family.exists_link {account : String} (e : IdentityEvent)
    (inside : e.key.family? = some (.linksOfAccount account)) : ∃ link, e = .link link := by
  cases e with
  | link link => exact ⟨link, rfl⟩
  | member member => simp [IdentityEvent.key, Key.family?] at inside

theorem Family.not_indexed_linksOfAccount {account : String} (e : IdentityEvent) :
    e.key.reversed.family? ≠ some (.linksOfAccount account) := by
  cases e <;> simp [IdentityEvent.key, Key.reversed, Key.family?]

/-- The rows of an authentication key are its members. -/
theorem Family.exists_member {authKey : String} (e : IdentityEvent)
    (inside : e.key.family? = some (.membersOfAuthKey authKey)) : ∃ member, e = .member member := by
  cases e with
  | link link => simp [IdentityEvent.key, Key.family?] at inside
  | member member => exact ⟨member, rfl⟩

theorem Family.not_indexed_membersOfAuthKey {authKey : String} (e : IdentityEvent) :
    e.key.reversed.family? ≠ some (.membersOfAuthKey authKey) := by
  cases e <;> simp [IdentityEvent.key, Key.reversed, Key.family?]

namespace Ledger

/-- A ledger over a store that can be read and represents facts. -/
structure Shows (ledger : Ledger) (facts : Facts) : Prop where
  represents : ledger.contents.Represents facts
  gets : ledger.backend.faults.get = none
  scans : ledger.backend.faults.scan = none

variable {ledger : Ledger} {facts : Facts}

theorem scanFamily_eq (scans : ledger.backend.faults.scan = none) {family : Family} {front : Bytes}
    (hfamily : family.bytes = .ok front) :
    ledger.scanFamily family = .ok (front, ledger.contents.scan front) := by
  unfold scanFamily
  rw [familyBytes_eq_ok_iff.2 hfamily]
  simp only [bind, Except.bind, Backend.scan, scans, contents]

section Rows

variable {α : Type} [Row α] (event : α → IdentityEvent)
  (record_event : ∀ row, (event row).record = Record.encode row)

include record_event

/-- What is found for a family holds its facts, when these are all of one kind: index entries are
not in such a family. -/
theorem decode_of_mem_scan (h : ledger.contents.Represents facts) {family : Family}
    (of_kind : ∀ e : IdentityEvent, e.key.family? = some family → ∃ row, e = event row)
    (not_indexed : ∀ e : IdentityEvent, e.key.reversed.family? ≠ some family) {front : Bytes}
    (hfamily : family.bytes = .ok front) {e : Entry} (member : e ∈ ledger.contents.scan front) :
    ∃ row : α, Record.decode e.1 e.2 = .ok row ∧
      facts (event row).key = some (event row) ∧ (event row).key.family? = some family ∧
      (event row).key.bytes = .ok e.1 ∧ Record.encode row = .ok e.2 := by
  obtain ⟨held, key, index, value, fact, written, ⟨inside, rfl⟩ | ⟨inside, -⟩⟩ :=
    (h.mem_scan_family hfamily).1 member
  · obtain ⟨row, rfl⟩ := of_kind held inside
    have encoded := (record_event row).symm.trans written.value_eq
    exact ⟨row, Record.decode_encode encoded key, fact, inside, written.row_eq, encoded⟩
  · exact absurd inside (not_indexed held)

/-- The rows of a family are its facts, when these are all of one kind. -/
theorem mem_fetchAll (h : ledger.contents.Represents facts)
    (scans : ledger.backend.faults.scan = none) (family : Family)
    (of_kind : ∀ e : IdentityEvent, e.key.family? = some family → ∃ row, e = event row)
    (not_indexed : ∀ e : IdentityEvent, e.key.reversed.family? ≠ some family)
    (nameable : Nameable family.shared.text) :
    ∃ rows, ledger.fetchAll α family = .ok rows ∧ ∀ row, row ∈ rows ↔
      facts (event row).key = some (event row) ∧ (event row).key.family? = some family := by
  obtain ⟨front, hfamily⟩ : ∃ front, family.bytes = .ok front :=
    ⟨_, Key.bytes_eq_ok_iff_of_family.2 ⟨nameable, rfl⟩⟩
  have decodes := fun (e : Entry) (member : e ∈ ledger.contents.scan front) =>
    decode_of_mem_scan event record_event h of_kind not_indexed hfamily member
  obtain ⟨rows, hrows, members⟩ := exists_mapM_ok fun e member =>
    (decodes e member).imp fun _ => And.left
  refine ⟨rows, ?_, fun row => ?_⟩
  · simp only [fetchAll, scanFamily_eq scans hfamily, decodeEntries_eq_mapM]
    exact hrows
  · rw [members]
    constructor
    · rintro ⟨e, member, decoded⟩
      obtain ⟨row', decoded', fact, inside, -⟩ := decodes e member
      rw [Except.ok.inj (decoded.symm.trans decoded')]
      exact ⟨fact, inside⟩
    · rintro ⟨fact, inside⟩
      obtain ⟨key, index, value, written, -⟩ := h.written fact
      have encoded := (record_event row).symm.trans written.value_eq
      refine ⟨(key, value), ?_, Record.decode_encode encoded key⟩
      exact (h.mem_scan_family hfamily).2
        ⟨event row, key, index, value, fact, written, .inl ⟨inside, rfl⟩⟩

/-- The rows of a family are listed in the order of their keys. -/
theorem ascending_fetchAll (h : ledger.contents.Represents facts)
    (scans : ledger.backend.faults.scan = none) {family : Family}
    (of_kind : ∀ e : IdentityEvent, e.key.family? = some family → ∃ row, e = event row)
    (not_indexed : ∀ e : IdentityEvent, e.key.reversed.family? ≠ some family) {rows : List α}
    (fetched : ledger.fetchAll α family = .ok rows) :
    rows.Pairwise fun a b => ∃ x y,
      (event a).key.bytes = .ok x ∧ (event b).key.bytes = .ok y ∧ x < y := by
  obtain ⟨⟨front, entries⟩, scanned, decoding⟩ := bind_eq_ok_iff.1 fetched
  obtain ⟨front', hfamily, -⟩ := bind_eq_ok_iff.1 scanned
  rw [familyBytes_eq_ok_iff] at hfamily
  rw [scanFamily_eq scans hfamily] at scanned
  obtain ⟨rfl, rfl⟩ := Prod.mk.inj (Except.ok.inj scanned)
  have all : (ledger.contents.scan front').mapM (fun e => Record.decode e.1 e.2) = .ok rows :=
    (decodeEntries_eq_mapM _).symm.trans decoding
  refine pairwise_of_mapM_ok all (ledger.contents.ascending_scan front') ?_
  -- a row tells the key that it was read from
  intro a ha b hb less x y dx dy
  obtain ⟨first, decoded, -, -, key, -⟩ :=
    decode_of_mem_scan event record_event h of_kind not_indexed hfamily ha
  obtain ⟨second, decoded', -, -, key', -⟩ :=
    decode_of_mem_scan event record_event h of_kind not_indexed hfamily hb
  obtain rfl := Except.ok.inj (decoded.symm.trans dx)
  obtain rfl := Except.ok.inj (decoded'.symm.trans dy)
  exact ⟨a.1, b.1, key, key', less⟩

/-- The row that a fact is read from. -/
theorem fetch_eq (h : ledger.Shows facts) {row : α}
    (fact : facts (event row).key = some (event row)) :
    ledger.fetch α (event row).key = .ok (some row) := by
  obtain ⟨key, index, value, written, stored, -⟩ := h.represents.written fact
  have encoded := (record_event row).symm.trans written.value_eq
  unfold contents at stored
  simp only [fetch, keyBytes_eq_ok_iff.2 written.row_eq, bind, Except.bind, readRow, Backend.get,
    h.gets, stored, Record.decode_encode encoded key]

end Rows

/-! ### The keys of an index -/

/-- The keys of an index tell of the facts that it leads to. -/
theorem mem_indexed (h : ledger.Shows facts) (family : Family)
    (not_rows : ∀ e : IdentityEvent, e.key.family? ≠ some family)
    (nameable : Nameable family.shared.text) :
    ∃ keys, ledger.indexed family = .ok keys ∧ ∀ texts, texts ∈ keys ↔
      ∃ event, facts event.key = some event ∧ event.key.reversed.family? = some family ∧
        texts = event.key.reversed.components.tail.map Component.text := by
  obtain ⟨front, hfamily⟩ : ∃ front, family.bytes = .ok front :=
    ⟨_, Key.bytes_eq_ok_iff_of_family.2 ⟨nameable, rfl⟩⟩
  refine ⟨(ledger.contents.scan front).filterMap fun entry => components? front entry.1, ?_,
    fun texts => ?_⟩
  · simp only [indexed, scanFamily_eq h.scans hfamily, bind, Except.bind]
    rfl
  · rw [List.mem_filterMap]
    constructor
    · rintro ⟨e, member, parts⟩
      obtain ⟨event, row, index, value, fact, written, ⟨inside, -⟩ | ⟨inside, rfl⟩⟩ :=
        (h.represents.mem_scan_family hfamily).1 member
      · exact absurd inside (not_rows event)
      · rw [Key.components?_eq written.index_eq hfamily inside] at parts
        exact ⟨event, fact, inside, (Option.some.inj parts).symm⟩
    · rintro ⟨event, fact, inside, rfl⟩
      obtain ⟨row, index, value, written, -⟩ := h.represents.written fact
      refine ⟨(index, []), (h.represents.mem_scan_family hfamily).2
        ⟨event, row, index, value, fact, written, .inr ⟨inside, rfl⟩⟩, ?_⟩
      exact Key.components?_eq written.index_eq hfamily inside

/-- What the keys of an index lead to, when each leads to a row that tells whether it is in use. -/
theorem mem_through {α : Type} {rows : α → Prop} {texts : α → List String} {used : α → Bool}
    {name : α → String} {keys : List (List String)}
    {through : List String → Except LedgerError (Option String)}
    (hkeys : ∀ parts, parts ∈ keys ↔ ∃ row, rows row ∧ parts = texts row)
    (hthrough : ∀ row, rows row → through (texts row) = .ok (((some row).filter used).map name)) :
    ∃ found, keys.mapM through = .ok found ∧ ∀ text, text ∈ sortedSet (found.filterMap id) ↔
      ∃ row, rows row ∧ used row = true ∧ name row = text := by
  have leads : ∀ parts ∈ keys, ∃ end?, through parts = .ok end? := by
    intro parts member
    obtain ⟨row, hrow, rfl⟩ := (hkeys parts).1 member
    exact ⟨_, hthrough row hrow⟩
  obtain ⟨found, hfound, members⟩ := exists_mapM_ok leads
  refine ⟨found, hfound, fun text => ?_⟩
  rw [mem_sortedSet, List.mem_filterMap]
  constructor
  · rintro ⟨end?, member, reached⟩
    obtain ⟨parts, inside, led⟩ := (members end?).1 member
    obtain ⟨row, hrow, rfl⟩ := (hkeys parts).1 inside
    rw [hthrough row hrow] at led
    obtain rfl := Except.ok.inj led
    obtain ⟨kept, hkept, rfl⟩ := Option.map_eq_some_iff.1 reached
    obtain ⟨same, inUse⟩ := Option.filter_eq_some_iff.1 hkept
    obtain rfl := Option.some.inj same
    exact ⟨row, hrow, inUse, rfl⟩
  · rintro ⟨row, hrow, inUse, rfl⟩
    refine ⟨some (name row), (members _).2 ⟨texts row, (hkeys _).2 ⟨row, hrow, rfl⟩, ?_⟩, rfl⟩
    rw [hthrough row hrow, Option.filter_some_pos inUse]
    rfl

/-! ### Links -/

theorem newestFrom_mem (links : List AccountLink) (best : AccountLink) :
    links.foldl (fun best link => if isAtMostAsNew best link then link else best) best ∈
      best :: links := by
  induction links generalizing best with
  | nil => exact List.mem_cons_self
  | cons link links ih =>
    rw [List.foldl_cons]
    by_cases newer : isAtMostAsNew best link
    · rw [if_pos newer]
      exact List.mem_cons_of_mem _ (ih link)
    · rw [if_neg newer]
      rcases List.mem_cons.1 (ih best) with same | inside
      · rw [same]
        exact List.mem_cons_self
      · exact List.mem_cons_of_mem _ (List.mem_cons_of_mem _ inside)

/-- The newest of some links is one of them. -/
theorem mem_of_newest? {links : List AccountLink} {link : AccountLink}
    (newest : newest? links = some link) : link ∈ links := by
  cases links with
  | nil => cases newest
  | cons first links => exact Option.some.inj newest ▸ newestFrom_mem links first

theorem nodup_authKeyLinks (h : ledger.Shows facts) {account : String} {links : List AccountLink}
    (fetched : ledger.authKeyLinks account = .ok links) : links.Nodup :=
  (ascending_fetchAll .link (fun _ => rfl) h.represents h.scans Family.exists_link
    Family.not_indexed_linksOfAccount fetched).imp fun ⟨x, y, hx, hy, less⟩ same => by
      obtain rfl := Except.ok.inj ((same ▸ hx).symm.trans hy)
      exact absurd less (List.lt_irrefl _)

section Directions

variable (h : ledger.Shows facts)

include h

/-- The links of an account. -/
theorem mem_authKeyLinks {account : String} (nameable : Nameable account) :
    ∃ links, ledger.authKeyLinks account = .ok links ∧ ∀ link, link ∈ links ↔
      facts (.accountLink link.account link.authKey) = some (.link link) ∧
        link.account = account := by
  obtain ⟨links, hlinks, members⟩ := mem_fetchAll .link (fun _ => rfl) h.represents
    h.scans (.linksOfAccount account) Family.exists_link Family.not_indexed_linksOfAccount nameable
  refine ⟨links, hlinks, fun link => ?_⟩
  rw [members]
  simp [IdentityEvent.key, Key.family?]

/-- The accounts of an authentication key are those of its links in use. -/
theorem mem_accountsOf {authKey : String} (nameable : Nameable authKey) :
    ∃ accounts, ledger.accountsOf authKey = .ok accounts ∧ ∀ account, account ∈ accounts ↔
      ∃ link : AccountLink, (facts (.accountLink link.account link.authKey) = some (.link link) ∧
        link.authKey = authKey) ∧ link.used = true ∧ link.account = account := by
  have not_rows : ∀ e : IdentityEvent, e.key.family? ≠ some (.accountsOfAuthKey authKey) := by
    intro e
    cases e <;> simp [IdentityEvent.key, Key.family?]
  obtain ⟨keys, hkeys, members⟩ := mem_indexed h (.accountsOfAuthKey authKey) not_rows nameable
  have of_links : ∀ parts, parts ∈ keys ↔ ∃ link : AccountLink,
      (facts (.accountLink link.account link.authKey) = some (.link link) ∧
        link.authKey = authKey) ∧ parts = [link.account] := by
    intro parts
    rw [members]
    constructor
    · rintro ⟨event, fact, inside, rfl⟩
      cases event with
      | link link =>
        simp only [IdentityEvent.key, Key.reversed, Key.family?, Option.some.injEq,
          Family.accountsOfAuthKey.injEq] at inside
        exact ⟨link, ⟨fact, inside⟩, rfl⟩
      | member member => simp [IdentityEvent.key, Key.reversed, Key.family?] at inside
    · rintro ⟨link, ⟨fact, rfl⟩, rfl⟩
      exact ⟨.link link, fact, rfl, rfl⟩
  have reached : ∀ link : AccountLink, facts (.accountLink link.account link.authKey) =
      some (.link link) ∧ link.authKey = authKey → ledger.accountThrough authKey [link.account] =
        .ok (((some link).filter AccountLink.used).map AccountLink.account) := by
    rintro link ⟨fact, rfl⟩
    have fetched : ledger.fetch AccountLink (.accountLink link.account link.authKey) =
        .ok (some link) := fetch_eq .link (fun _ => rfl) h fact
    simp only [accountThrough, fetched]
    rfl
  obtain ⟨found, hfound, accounts⟩ := mem_through of_links reached
  refine ⟨sortedSet (found.filterMap id), ?_, accounts⟩
  simp only [accountsOf, hkeys, bind, Except.bind, hfound]
  rfl

/-- The newest authentication key in use belongs to a link in use. -/
theorem currentAuthKey?_ok {account : String} (nameable : Nameable account) :
    ∃ current, ledger.currentAuthKey? account = .ok current ∧ ∀ authKey, current = some authKey →
      ∃ link : AccountLink, facts (.accountLink link.account link.authKey) = some (.link link) ∧
        link.account = account ∧ link.used = true ∧ link.authKey = authKey := by
  obtain ⟨links, hlinks, members⟩ := mem_authKeyLinks h nameable
  refine ⟨(newest? (links.filter AccountLink.used)).map AccountLink.authKey, ?_, ?_⟩
  · simp only [currentAuthKey?, hlinks, bind, Except.bind]
    rfl
  · intro authKey current
    obtain ⟨link, newest, rfl⟩ := Option.map_eq_some_iff.1 current
    obtain ⟨member, inUse⟩ := List.mem_filter.1 (mem_of_newest? newest)
    obtain ⟨fact, same⟩ := (members link).1 member
    exact ⟨link, fact, same, inUse, rfl⟩

/-! ### Memberships -/

/-- The members behind an authentication key. -/
theorem mem_keySet {authKey : String} (nameable : Nameable authKey) :
    ∃ members, ledger.keySet authKey = .ok members ∧ ∀ member, member ∈ members ↔
      facts (.membership member.authKey member.publicKeyType member.publicKey) =
        some (.member member) ∧ member.authKey = authKey := by
  obtain ⟨rows, hrows, members⟩ := mem_fetchAll .member (fun _ => rfl) h.represents
    h.scans (.membersOfAuthKey authKey) Family.exists_member Family.not_indexed_membersOfAuthKey
    nameable
  refine ⟨rows, hrows, fun member => ?_⟩
  rw [members]
  simp [IdentityEvent.key, Key.family?]

/-- The signers of an authentication key are the public keys of its members in use. -/
theorem mem_currentSigners {authKey : String} (nameable : Nameable authKey) :
    ∃ signers, ledger.currentSigners authKey = .ok signers ∧ ∀ publicKey, publicKey ∈ signers ↔
      ∃ member : Membership,
        (facts (.membership member.authKey member.publicKeyType member.publicKey) =
          some (.member member) ∧ member.authKey = authKey) ∧
        member.used = true ∧ member.publicKey = publicKey := by
  obtain ⟨rows, hrows, members⟩ := mem_keySet h nameable
  refine ⟨sortedSet ((rows.filter Membership.used).map Membership.publicKey), ?_,
    fun publicKey => ?_⟩
  · simp only [currentSigners, hrows, bind, Except.bind]
    rfl
  · simp only [mem_sortedSet, List.mem_map, List.mem_filter, members, and_assoc]

/-- The authentication keys of a public key are those of its memberships in use. -/
theorem mem_authKeysOf {publicKey : String} (nameable : Nameable publicKey) :
    ∃ authKeys, ledger.authKeysOf publicKey = .ok authKeys ∧ ∀ authKey, authKey ∈ authKeys ↔
      ∃ member : Membership,
        (facts (.membership member.authKey member.publicKeyType member.publicKey) =
          some (.member member) ∧ member.publicKey = publicKey) ∧
        member.used = true ∧ member.authKey = authKey := by
  have not_rows : ∀ e : IdentityEvent, e.key.family? ≠ some (.authKeysOfPublicKey publicKey) := by
    intro e
    cases e <;> simp [IdentityEvent.key, Key.family?]
  obtain ⟨keys, hkeys, members⟩ := mem_indexed h (.authKeysOfPublicKey publicKey) not_rows nameable
  have of_members : ∀ parts, parts ∈ keys ↔ ∃ member : Membership,
      (facts (.membership member.authKey member.publicKeyType member.publicKey) =
        some (.member member) ∧ member.publicKey = publicKey) ∧
        parts = [member.publicKeyType, member.authKey] := by
    intro parts
    rw [members]
    constructor
    · rintro ⟨event, fact, inside, rfl⟩
      cases event with
      | link link => simp [IdentityEvent.key, Key.reversed, Key.family?] at inside
      | member member =>
        simp only [IdentityEvent.key, Key.reversed, Key.family?, Option.some.injEq,
          Family.authKeysOfPublicKey.injEq] at inside
        exact ⟨member, ⟨fact, inside⟩, rfl⟩
    · rintro ⟨member, ⟨fact, rfl⟩, rfl⟩
      exact ⟨.member member, fact, rfl, rfl⟩
  have reached : ∀ member : Membership,
      facts (.membership member.authKey member.publicKeyType member.publicKey) =
        some (.member member) ∧ member.publicKey = publicKey →
      ledger.authKeyThrough publicKey [member.publicKeyType, member.authKey] =
        .ok (((some member).filter Membership.used).map Membership.authKey) := by
    rintro member ⟨fact, rfl⟩
    have fetched : ledger.fetch Membership
        (.membership member.authKey member.publicKeyType member.publicKey) = .ok (some member) :=
      fetch_eq .member (fun _ => rfl) h fact
    simp only [authKeyThrough, fetched]
    rfl
  obtain ⟨found, hfound, authKeys⟩ := mem_through of_members reached
  refine ⟨sortedSet (found.filterMap id), ?_, authKeys⟩
  simp only [authKeysOf, hkeys, bind, Except.bind, hfound]
  rfl

end Directions

end Ledger

/-- At the end of every life all lookups answer, as long as the store can be read, and the two
directions tell the same: of a public key and an authentication key, and of an account and an
authentication key. -/
theorem Life.lookups_agree (life : Life) (gets : life.ledger.backend.faults.get = none)
    (scans : life.ledger.backend.faults.scan = none) {account authKey publicKey : String}
    (haccount : Nameable account) (hauthKey : Nameable authKey) (hpublicKey : Nameable publicKey) :
    ∃ links current signers accounts authKeys,
      life.ledger.authKeyLinks account = .ok links ∧
      life.ledger.currentAuthKey? account = .ok current ∧
      life.ledger.currentSigners authKey = .ok signers ∧
      life.ledger.accountsOf authKey = .ok accounts ∧
      life.ledger.authKeysOf publicKey = .ok authKeys ∧
      (authKey ∈ authKeys ↔ publicKey ∈ signers) ∧
      (account ∈ accounts ↔ ∃ link ∈ links, link.authKey = authKey ∧ link.used = true) ∧
      (current = some authKey → account ∈ accounts) := by
  obtain ⟨facts, represents, -⟩ := life.exists_represents
  have shows : life.ledger.Shows facts := ⟨represents, gets, scans⟩
  obtain ⟨links, hlinks, mem_links⟩ := Ledger.mem_authKeyLinks shows haccount
  obtain ⟨current, hcurrent, of_current⟩ := Ledger.currentAuthKey?_ok shows haccount
  obtain ⟨signers, hsigners, mem_signers⟩ := Ledger.mem_currentSigners shows hauthKey
  obtain ⟨accounts, haccounts, mem_accounts⟩ := Ledger.mem_accountsOf shows hauthKey
  obtain ⟨authKeys, hauthKeys, mem_authKeys⟩ := Ledger.mem_authKeysOf shows hpublicKey
  refine ⟨links, current, signers, accounts, authKeys, hlinks, hcurrent, hsigners, haccounts,
    hauthKeys, ?_, ?_, ?_⟩
  · rw [mem_authKeys, mem_signers]
    constructor
    · rintro ⟨member, ⟨fact, hpublic⟩, used, hauth⟩
      exact ⟨member, ⟨fact, hauth⟩, used, hpublic⟩
    · rintro ⟨member, ⟨fact, hauth⟩, used, hpublic⟩
      exact ⟨member, ⟨fact, hpublic⟩, used, hauth⟩
  · rw [mem_accounts]
    constructor
    · rintro ⟨link, ⟨fact, hauth⟩, used, haccount⟩
      exact ⟨link, (mem_links link).2 ⟨fact, haccount⟩, hauth, used⟩
    · rintro ⟨link, member, hauth, used⟩
      obtain ⟨fact, haccount⟩ := (mem_links link).1 member
      exact ⟨link, ⟨fact, hauth⟩, used, haccount⟩
  · intro newest
    obtain ⟨link, fact, haccount, used, hauth⟩ := of_current authKey newest
    exact (mem_accounts account).2 ⟨link, ⟨fact, hauth⟩, used, haccount⟩

/-! ### One account with one signer -/

namespace SignerExample

/-- A public key that is in use behind an authentication key. -/
def member : Membership := ⟨"0xab", "0xcd", "k", none, true, "s", 3⟩

/-- An account with a link in use to that authentication key. -/
def life : Life := .inMemory
  [.call 0 (.verifyChain 1), .call 0 (.apply (.link ⟨"0x1", "0xab", true, 3⟩)),
    .call 0 (.apply (.member member))]

theorem keySet_life : life.ledger.keySet "0xab" = .ok [member] := by decide +kernel

theorem currentSigners_life :
    life.ledger.currentSigners "0xab" = .ok (Ledger.sortedSet ["0xcd"]) := by
  simp only [Ledger.currentSigners, keySet_life, bind, Except.bind]
  rfl

theorem currentAuthKey_life : life.ledger.currentAuthKey? "0x1" = .ok (some "0xab") := by
  decide +kernel

/-- The way back from the signer and from the account's key. -/
theorem lookups_lead_back : ∃ accounts authKeys,
    life.ledger.accountsOf "0xab" = .ok accounts ∧ life.ledger.authKeysOf "0xcd" = .ok authKeys ∧
      "0x1" ∈ accounts ∧ "0xab" ∈ authKeys := by
  obtain ⟨links, current, signers, accounts, authKeys, -, hcurrent, hsigners, haccounts, hauthKeys,
    members, -, account⟩ := life.lookups_agree (by decide +kernel) (by decide +kernel)
      (by decide : Nameable "0x1") (by decide : Nameable "0xab") (by decide : Nameable "0xcd")
  rw [currentSigners_life] at hsigners
  rw [currentAuthKey_life] at hcurrent
  obtain rfl := Except.ok.inj hsigners
  obtain rfl := Except.ok.inj hcurrent
  exact ⟨accounts, authKeys, haccounts, hauthKeys, account rfl,
    members.2 (Ledger.mem_sortedSet.2 List.mem_cons_self)⟩

end SignerExample

end IngestLedger
