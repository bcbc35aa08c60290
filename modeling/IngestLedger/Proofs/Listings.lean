import IngestLedger.Proofs.Convergence
import IngestLedger.Proofs.Counting
import IngestLedger.Proofs.Lookups

/-!
# The rows that are listed

The members of an authentication key and the links of an account are listed from their rows, in the
order in which the store keeps them. NUL is the least byte and stands in no component, so keys are
ordered as their components are, one after another, also when one component begins with another.

An event is applied when it comes with an answered call and its row has not reached its version yet.
A row is listed exactly when an event was applied to it, as the newest one that was, and it stays
in the list from then on.

Main definitions:

* `Session.applied`, `Life.applied`: the events that are applied in a step and in a life.
* `Key.names`: the components of a key behind the one that its family shares.
* `Life.Continues`: a life that goes on from the end of another one.

Main statements:

* `intercalate_lt_iff`: joined components are ordered as the components.
* `Session.length_applied`: as many events are applied as an answer tells.
* `Life.exists_represents_applied`: what a row holds is the newest event that was applied to it.
* `Life.listings_of_applied`: what the two lists hold, and in which order.
-/

namespace IngestLedger

/-! ### The order of joined components -/

theorem append_lt_append_iff {front a b : Bytes} : front ++ a < front ++ b ↔ a < b :=
  ⟨fun less => List.not_le.1 fun other => List.not_lt.2 (List.append_left_le other) less,
    List.append_left_lt⟩

/-- Of two strings that end at their first NUL, the one that begins the other comes first. -/
theorem append_zero_lt_iff {a b s t : Bytes} (ha : 0 ∉ a) (hb : 0 ∉ b) :
    a ++ 0 :: s < b ++ 0 :: t ↔ a < b ∨ a = b ∧ s < t := by
  induction a generalizing b with
  | nil =>
    cases b with
    | nil => simp
    | cons y b =>
      have above : 0 < y := UInt8.pos_iff_ne_zero.2 fun same => hb (same ▸ List.mem_cons_self)
      simp [List.cons_lt_cons_iff, above]
  | cons x a ih =>
    have hx : 0 < x := UInt8.pos_iff_ne_zero.2 fun same => ha (same ▸ List.mem_cons_self)
    cases b with
    | nil => simp [List.cons_lt_cons_iff, UInt8.not_lt_zero, Ne.symm (UInt8.ne_of_lt hx)]
    | cons y b =>
      rw [List.cons_append, List.cons_append, List.cons_lt_cons_iff, List.cons_lt_cons_iff,
        ih (fun zero => ha (.tail _ zero)) (fun zero => hb (.tail _ zero)), List.cons.injEq]
      constructor
      · rintro (less | ⟨rfl, less | ⟨rfl, less⟩⟩)
        · exact .inl (.inl less)
        · exact .inl (.inr ⟨rfl, less⟩)
        · exact .inr ⟨⟨rfl, rfl⟩, less⟩
      · rintro ((less | ⟨rfl, less⟩) | ⟨⟨rfl, rfl⟩, less⟩)
        · exact .inl less
        · exact .inr ⟨rfl, .inl less⟩
        · exact .inr ⟨rfl, .inr ⟨rfl, less⟩⟩

/-- Equally many components are ordered as the strings that they are joined to. -/
theorem intercalate_lt_iff {xs ys : List Bytes} (lengths : xs.length = ys.length)
    (hx : ∀ x ∈ xs, 0 ∉ x) (hy : ∀ y ∈ ys, 0 ∉ y) :
    [0].intercalate xs < [0].intercalate ys ↔ xs < ys := by
  induction xs generalizing ys with
  | nil =>
    obtain rfl := List.length_eq_zero_iff.1 lengths.symm
    simp
  | cons x xs ih =>
    obtain ⟨y, ys, rfl⟩ := List.exists_cons_of_length_eq_add_one lengths.symm
    have lengths : xs.length = ys.length := by simpa using lengths
    obtain ⟨freex, hx⟩ := List.forall_mem_cons.1 hx
    obtain ⟨freey, hy⟩ := List.forall_mem_cons.1 hy
    by_cases last : xs = []
    · obtain rfl := last
      obtain rfl := List.length_eq_zero_iff.1 lengths.symm
      simp [List.cons_lt_cons_iff]
    · have more : ys ≠ [] := fun none => last (by simpa [none] using lengths)
      rw [List.intercalate_cons_of_ne_nil last, List.intercalate_cons_of_ne_nil more,
        List.append_assoc, List.append_assoc, List.singleton_append, List.singleton_append,
        append_zero_lt_iff freex freey, ih lengths hx hy, List.cons_lt_cons_iff]

namespace Key

/-- The components of a key behind the one that its family shares, as bytes. -/
def names (key : Key) : List Bytes := key.components.tail.map fun c => Utf8.encode c.text

/-- The rows of a family are ordered as the components behind the one that they share. -/
theorem lt_iff_names_lt {j k : Key} {family : Family} {front x y : Bytes}
    (hfamily : family.bytes = .ok front) (hj : j.bytes = .ok x) (hk : k.bytes = .ok y)
    (inj : j.family? = some family) (ink : k.family? = some family) :
    x < y ↔ j.names < k.names := by
  obtain ⟨a, rfl, joined⟩ := bytes_of_family? hj hfamily inj
  obtain ⟨b, rfl, joined'⟩ := bytes_of_family? hk hfamily ink
  have lengths : j.names.length = k.names.length := by
    cases j <;> cases k <;> cases family <;> simp_all [family?, names, components]
  have free {cs : List Component} (nameable : ∀ c ∈ cs, Nameable c.text) :
      ∀ part ∈ cs.map fun c => Utf8.encode c.text, 0 ∉ part := by
    intro part member zero
    obtain ⟨c, inside, rfl⟩ := List.mem_map.1 member
    exact (nameable c inside).2 (Utf8.zero_mem_encode_iff.1 zero)
  obtain ⟨nameable, rfl⟩ := Component.join_eq_ok_iff.1 joined
  obtain ⟨nameable', rfl⟩ := Component.join_eq_ok_iff.1 joined'
  rw [append_lt_append_iff]
  exact intercalate_lt_iff lengths (free nameable) (free nameable')

end Key

/-! ### Events that are applied -/

namespace Facts

variable {facts : Facts} {events : List IdentityEvent}

/-- An event that is newer than the fact of its row. -/
def IsNewer (facts : Facts) (event : IdentityEvent) : Prop :=
  ∀ old, facts event.key = some old → old.version < event.version

/-- Of events for different rows, those that are not newer make no difference. -/
theorem supersedeAll_filter {keeps : IdentityEvent → Bool}
    (distinct : (events.map IdentityEvent.key).Nodup)
    (newer : ∀ event ∈ events, keeps event = true ↔ facts.IsNewer event) :
    facts.supersedeAll (events.filter keeps) = facts.supersedeAll events := by
  induction events generalizing facts with
  | nil => rfl
  | cons event events ih =>
    obtain ⟨away, distinct⟩ := List.nodup_cons.1 distinct
    obtain ⟨first, newer⟩ := List.forall_mem_cons.1 newer
    -- the facts of the other rows are those from before
    have others : ∀ other ∈ events, keeps other = true ↔ (facts.supersede event).IsNewer other := by
      intro other member
      have row : event.key ≠ other.key := fun same => away (same ▸ List.mem_map_of_mem member)
      rw [newer other member, IsNewer, IsNewer, supersede_of_ne row]
    rw [supersedeAll_cons, ← ih distinct others]
    by_cases kept : keeps event = true
    · rw [List.filter_cons_of_pos kept, supersedeAll_cons]
    · rw [List.filter_cons_of_neg kept]
      rcases stale_or_fresh (facts event.key) event with ⟨old, held, stale⟩ | fresh
      · rw [supersede_of_stale held stale]
      · exact absurd (first.2 fresh) kept

end Facts

/-- Events of which each is newer than all before it for its row. -/
def Rising (history : List IdentityEvent) : Prop :=
  history.Pairwise fun a b => a.key = b.key → a.version < b.version

/-- Rising events are unambiguous. -/
theorem Rising.unambiguous {history : List IdentityEvent} (rising : Rising history) :
    Unambiguous history.toFinset := by
  intro a ha b hb row same
  rw [List.mem_toFinset] at ha hb
  have apart : history.Pairwise fun a b => ¬ (a.key = b.key ∧ a.version = b.version) :=
    rising.imp fun less ⟨row, same⟩ => UInt64.ne_of_lt (less row) same
  have symmetric : Std.Symm fun a b : IdentityEvent => ¬ (a.key = b.key ∧ a.version = b.version) :=
    ⟨fun _ _ h both => h ⟨both.1.symm, both.2.symm⟩⟩
  by_contra different
  exact apart.forall ha hb different ⟨row, same⟩

/-- Events for different rows, each newer than the fact of its row, go on rising. -/
theorem Rising.append {history events : List IdentityEvent} {facts : Facts}
    (rising : Rising history) (newest : IsNewest history facts)
    (distinct : (events.map IdentityEvent.key).Nodup)
    (newer : ∀ event ∈ events, facts.IsNewer event) : Rising (history ++ events) := by
  refine List.pairwise_append.2 ⟨rising, ?_, fun old inside event member row => ?_⟩
  · exact (List.pairwise_map.1 distinct).imp fun apart row => absurd row apart
  · rcases newest event.key with ⟨-, absent⟩ | ⟨held, -, fact, -, most⟩
    · exact absurd row (absent old inside)
    · exact UInt64.lt_of_le_of_lt (most old inside row) (newer event member held fact)

/-- A row has reached a version when its fact has. -/
theorem Store.Represents.hasReached_iff {store : Store} {facts : Facts}
    (h : store.Represents facts) {event : IdentityEvent} :
    ¬ store.HasReached event.key event.version ↔ facts.IsNewer event := by
  have version : store.version? event.key = (facts event.key).map IdentityEvent.version := by
    cases hrow : event.key.bytes with
    | error fault =>
      have free : facts event.key = none := by
        refine Option.eq_none_iff_forall_ne_some.2 fun held fact => ?_
        obtain ⟨row, index, value, written, -⟩ := h.written fact
        have named := written.row_eq
        rw [h.key_eq fact, hrow] at named
        cases named
      rw [free]
      simp [Store.version?, Store.value?, hrow]
    | ok row =>
      rw [Store.version?, Store.value?_eq hrow]
      rcases h.get?_row hrow with ⟨free, absent⟩ | ⟨held, value, fact, encoded, stored⟩
      · rw [free, absent]
        rfl
      · rw [fact, stored, Option.bind_some, ← h.key_eq fact]
        exact held.versionIn?_of_record encoded
  rw [Store.HasReached, version]
  constructor
  · intro fresh old fact
    exact UInt64.not_le.1 fun le => fresh ⟨old.version, by rw [fact]; rfl, le⟩
  · rintro newer ⟨reached, told, le⟩
    obtain ⟨old, fact, rfl⟩ := Option.map_eq_some_iff.1 told
    exact UInt64.not_le.2 (newer old fact) le

namespace Session

/-- The events that a step applies: of the coalesced events of an answered call, those whose row has
not reached their version yet. -/
def applied (session : Session) (step : Step) : List IdentityEvent :=
  (coalesce (session.answered step)).filter fun event =>
    ¬ session.ledger.contents.HasReached event.key event.version

/-- The events that a history applies, in order. -/
def appliedAlong (session : Session) : List Step → List IdentityEvent
  | [] => []
  | step :: steps => session.applied step ++ (session.step step).appliedAlong steps

variable {session : Session} {facts : Facts} {history : List IdentityEvent}

theorem appliedAlong_append (session : Session) (before after : List Step) :
    session.appliedAlong (before ++ after) =
      session.appliedAlong before ++ (session.run before).appliedAlong after := by
  induction before generalizing session with
  | nil => rfl
  | cons step before ih =>
    rw [List.cons_append, appliedAlong, appliedAlong, ih, run_cons, List.append_assoc]

/-- As many events are applied as an answer tells. -/
theorem length_applied {step : Step} {exchange : Exchange}
    (h : session.exchange? step = some exchange) :
    (session.applied step).length = exchange.answer.tally.applied := by
  cases step with
  | disturb faults => cases h
  | restart => cases h
  | call now call =>
    cases performed : session.perform now call with
    | mk result after =>
      simp only [exchange?, performed] at h
      split at h
      · rename_i answer
        obtain rfl := Option.some.inj h
        obtain ⟨changes, planned, -⟩ := Ledger.perform_ok (perform_ok performed)
        have given : session.answered (.call now call) = call.events := by
          simp only [answered, performed]
          rfl
        rw [applied, given, ← List.countP_eq_length_filter]
        cases commits : call.commits with
        | true =>
          obtain ⟨progress, rest, -, hrest, -⟩ := Ledger.plan_commit commits planned
          exact (Ledger.tally_of_planEvents hrest).1.symm
        | false =>
          rw [Ledger.tally_of_not_commits commits planned]
          cases call <;> first | rfl | cases commits
      · cases h

theorem isNewest_applied_step (h : session.ledger.contents.Represents facts)
    (newest : IsNewest history facts) (rising : Rising history) (step : Step) :
    IsNewest (history ++ session.applied step)
        (facts.supersedeAll (coalesce (session.answered step))) ∧
      Rising (history ++ session.applied step) := by
  have distinct := nodup_keys_coalesce (session.answered step)
  have kept : ((session.applied step).map IdentityEvent.key).Nodup :=
    distinct.sublist (List.filter_sublist.map _)
  have newer : ∀ event ∈ session.applied step, facts.IsNewer event := fun event member =>
    h.hasReached_iff.1 (by simpa using (List.mem_filter.1 member).2)
  refine ⟨?_, rising.append newest kept newer⟩
  have same : facts.supersedeAll (coalesce (session.applied step)) =
      facts.supersedeAll (coalesce (session.answered step)) := by
    refine (Facts.supersedeAll_coalesce_eq_iff.2 fun first last hfirst hlast row _ => ?_).trans
      (Facts.supersedeAll_filter distinct fun event _ => ?_)
    · exact List.inj_on_of_nodup_map kept hfirst.mem hlast.mem row
    · simpa using h.hasReached_iff
  rw [← same]
  exact newest.supersedeAll

/-- After a history the store represents, for each row, the newest event that was applied to it
before the history and in it. -/
theorem exists_represents_applied (h : session.ledger.contents.Represents facts)
    (newest : IsNewest history facts) (rising : Rising history) {steps : List Step}
    (lasting : session.AtRestarts Backend.Lasts steps) :
    ∃ facts', (session.run steps).ledger.contents.Represents facts' ∧
      IsNewest (history ++ session.appliedAlong steps) facts' ∧
      Rising (history ++ session.appliedAlong steps) := by
  -- the invariant: the store represents facts that are the newest of what was applied so far
  induction steps generalizing session facts history with
  | nil => exact ⟨facts, h, by rwa [appliedAlong, List.append_nil], by
      rwa [appliedAlong, List.append_nil]⟩
  | cons step steps ih =>
    obtain ⟨lasts, rest⟩ := lasting
    obtain ⟨newest, rising⟩ := isNewest_applied_step h newest rising step
    rw [run_cons, appliedAlong, ← List.append_assoc]
    exact ih (represents_step h step lasts) newest rising rest

end Session

namespace Life

variable {life later : Life}

/-- The events that are applied in a life, in order. -/
def applied (life : Life) : List IdentityEvent := life.first.appliedAlong life.steps

/-- What a row holds at the end of a life is the newest event that was applied to it, and every row
to which an event was applied holds one. -/
theorem exists_represents_applied (life : Life) :
    ∃ facts, life.ledger.contents.Represents facts ∧
      (∀ key event, facts key = some event ↔
        event.key = key ∧ IsLatest life.applied.toFinset event) ∧
      ∀ event ∈ life.applied, ∃ latest, facts event.key = some latest ∧
        event.version ≤ latest.version := by
  obtain ⟨facts, represents, newest, rising⟩ :=
    Session.exists_represents_applied life.represents_first isNewest_nil .nil life.lasting
  refine ⟨facts, represents, fun key event => ?_, fun event member => ?_⟩
  · exact newest.eq_some_iff (fun _ => List.mem_toFinset.symm) rising.unambiguous
  · rcases newest event.key with ⟨-, absent⟩ | ⟨latest, -, fact, -, most⟩
    · exact absurd rfl (absent event member)
    · exact ⟨latest, fact, most event member rfl⟩

/-- A life that goes on from the end of another one. -/
structure Continues (later life : Life) : Prop where
  backend : later.backend = life.backend
  counters : later.counters = life.counters
  steps : life.steps <+: later.steps

/-- What was applied stays applied. -/
theorem Continues.applied (h : later.Continues life) : life.applied <+: later.applied := by
  obtain ⟨steps, whole⟩ := h.steps
  have first : later.first = life.first := by rw [first, first, h.backend, h.counters]
  rw [Life.applied, Life.applied, first, ← whole, Session.appliedAlong_append]
  exact List.prefix_append _ _

/-! ### Lists of rows -/

/-- Rows of a family are listed in the order of the components behind the one that they share; they
are the newest events that were applied to it. -/
theorem listing_of_applied (life : Life) (scans : life.ledger.backend.faults.scan = none) {α : Type}
    [Row α] (event : α → IdentityEvent)
    (record_event : ∀ row, (event row).record = Record.encode row) (family : Family)
    (of_kind : ∀ e : IdentityEvent, e.key.family? = some family → ∃ row, e = event row)
    (not_indexed : ∀ e : IdentityEvent, e.key.reversed.family? ≠ some family)
    (nameable : Nameable family.shared.text) :
    ∃ rows, life.ledger.fetchAll α family = .ok rows ∧
      rows.Pairwise (fun a b => (event a).key.names < (event b).key.names) ∧
      (∀ row, row ∈ rows ↔
        (event row).key.family? = some family ∧ IsLatest life.applied.toFinset (event row)) ∧
      ∀ applied ∈ life.applied, applied.key.family? = some family →
        ∃ row ∈ rows, (event row).key = applied.key ∧ applied.version ≤ (event row).version := by
  obtain ⟨facts, represents, fact_iff, covered⟩ := life.exists_represents_applied
  obtain ⟨rows, fetched, members⟩ := Ledger.mem_fetchAll event record_event represents scans family
    of_kind not_indexed nameable
  have ascending := Ledger.ascending_fetchAll event record_event represents scans of_kind
    not_indexed fetched
  obtain ⟨front, hfamily⟩ : ∃ front, family.bytes = .ok front :=
    ⟨_, Key.bytes_eq_ok_iff_of_family.2 ⟨nameable, rfl⟩⟩
  refine ⟨rows, fetched, ?_, fun row => ?_, fun applied member inside => ?_⟩
  · refine ascending.imp_of_mem fun {a b} ha hb ⟨x, y, hx, hy, less⟩ => ?_
    exact (Key.lt_iff_names_lt hfamily hx hy ((members a).1 ha).2 ((members b).1 hb).2).1 less
  · rw [members, fact_iff, and_comm]
    simp
  · obtain ⟨latest, fact, le⟩ := covered applied member
    have row := represents.key_eq fact
    obtain ⟨listed, rfl⟩ := of_kind latest (row ▸ inside)
    exact ⟨listed, (members listed).2 ⟨row ▸ fact, row ▸ inside⟩, row, le⟩

/-- What is listed as the members of an authentication key: the newest of the events that were
applied to each of its rows, in the order of the type and the public key. -/
structure ListsMembers (life : Life) (authKey : String) (members : List Membership) : Prop where
  answered : life.ledger.keySet authKey = .ok members
  ascending : members.Pairwise fun a b => Prod.Lex (· < ·) (· < ·)
    (Utf8.encode a.publicKeyType, Utf8.encode a.publicKey)
    (Utf8.encode b.publicKeyType, Utf8.encode b.publicKey)
  mem_iff : ∀ member, member ∈ members ↔
    member.authKey = authKey ∧ IsLatest life.applied.toFinset (.member member)
  complete : ∀ applied, .member applied ∈ life.applied → applied.authKey = authKey →
    ∃ member ∈ members, member.publicKeyType = applied.publicKeyType ∧
      member.publicKey = applied.publicKey ∧ applied.version ≤ member.version

/-- What is listed as the links of an account: the newest of the events that were applied to each of
its rows, in the order of the authentication key. -/
structure ListsLinks (life : Life) (account : String) (links : List AccountLink) : Prop where
  answered : life.ledger.authKeyLinks account = .ok links
  ascending : links.Pairwise fun a b => Utf8.encode a.authKey < Utf8.encode b.authKey
  mem_iff : ∀ link, link ∈ links ↔
    link.account = account ∧ IsLatest life.applied.toFinset (.link link)
  complete : ∀ applied, .link applied ∈ life.applied → applied.account = account →
    ∃ link ∈ links, link.authKey = applied.authKey ∧ applied.version ≤ link.version

theorem exists_listsMembers (life : Life) (scans : life.ledger.backend.faults.scan = none)
    {authKey : String} (nameable : Nameable authKey) :
    ∃ members, life.ListsMembers authKey members := by
  obtain ⟨members, answered, ascending, mem_iff, complete⟩ := life.listing_of_applied scans .member
    (fun _ => rfl) (.membersOfAuthKey authKey) (fun e => Family.exists_member e)
    (fun e => Family.not_indexed_membersOfAuthKey e) nameable
  refine ⟨members, answered, ascending.imp fun {a b} less => ?_, fun member => ?_,
    fun applied inside same => ?_⟩
  · rw [Prod.lex_def]
    simpa [IdentityEvent.key, Key.names, Key.components, List.cons_lt_cons_iff] using less
  · rw [mem_iff]
    simp [IdentityEvent.key, Key.family?]
  · have family : (IdentityEvent.member applied).key.family? =
        some (.membersOfAuthKey authKey) := by
      simp [IdentityEvent.key, Key.family?, same]
    obtain ⟨member, listed, row, le⟩ := complete _ inside family
    obtain ⟨-, keyType, publicKey⟩ := Key.membership.inj row
    exact ⟨member, listed, keyType, publicKey, le⟩

theorem exists_listsLinks (life : Life) (scans : life.ledger.backend.faults.scan = none)
    {account : String} (nameable : Nameable account) :
    ∃ links, life.ListsLinks account links := by
  obtain ⟨links, answered, ascending, mem_iff, complete⟩ := life.listing_of_applied scans .link
    (fun _ => rfl) (.linksOfAccount account) (fun e => Family.exists_link e)
    (fun e => Family.not_indexed_linksOfAccount e) nameable
  refine ⟨links, answered, ascending.imp fun {a b} less => ?_, fun link => ?_,
    fun applied inside same => ?_⟩
  · simpa [IdentityEvent.key, Key.names, Key.components, List.cons_lt_cons_iff] using less
  · rw [mem_iff]
    simp [IdentityEvent.key, Key.family?]
  · have family : (IdentityEvent.link applied).key.family? = some (.linksOfAccount account) := by
      simp [IdentityEvent.key, Key.family?, same]
    obtain ⟨link, listed, row, le⟩ := complete _ inside family
    exact ⟨link, listed, (Key.accountLink.inj row).2, le⟩

/-- As long as the store can be scanned, the members of an authentication key and the links of an
account are listed: one row for each to which an event was ever applied, as the newest one that was,
in the order of the components. Whatever happens afterwards, no row leaves either list. -/
theorem listings_of_applied (life : Life) (scans : life.ledger.backend.faults.scan = none)
    {authKey account : String} (hauthKey : Nameable authKey) (haccount : Nameable account) :
    ∃ members links, life.ListsMembers authKey members ∧ life.ListsLinks account links ∧
      ∀ later : Life, later.Continues life → later.ledger.backend.faults.scan = none →
        ∃ members' links', later.ListsMembers authKey members' ∧ later.ListsLinks account links' ∧
          (∀ member ∈ members, ∃ kept ∈ members', kept.publicKeyType = member.publicKeyType ∧
            kept.publicKey = member.publicKey ∧ member.version ≤ kept.version) ∧
          ∀ link ∈ links, ∃ kept ∈ links', kept.authKey = link.authKey ∧
            link.version ≤ kept.version := by
  obtain ⟨members, hmembers⟩ := life.exists_listsMembers scans hauthKey
  obtain ⟨links, hlinks⟩ := life.exists_listsLinks scans haccount
  refine ⟨members, links, hmembers, hlinks, fun later continues scans => ?_⟩
  obtain ⟨members', hmembers'⟩ := later.exists_listsMembers scans hauthKey
  obtain ⟨links', hlinks'⟩ := later.exists_listsLinks scans haccount
  have kept {event : IdentityEvent} (latest : IsLatest life.applied.toFinset event) :
      event ∈ later.applied := continues.applied.subset (List.mem_toFinset.1 latest.1)
  refine ⟨members', links', hmembers', hlinks', fun member listed => ?_, fun link listed => ?_⟩
  · obtain ⟨same, latest⟩ := (hmembers.mem_iff member).1 listed
    exact hmembers'.complete member (kept latest) same
  · obtain ⟨same, latest⟩ := (hlinks.mem_iff link).1 listed
    exact hlinks'.complete link (kept latest) same

end Life

/-! ### Names that begin with one another -/

namespace PrefixExample

/-- A public key that is the beginning of another one. -/
def short : Membership := ⟨"0xab", "b", "k", none, true, "s", 3⟩

/-- A public key that begins with another one, of the same type. -/
def long : Membership := ⟨"0xab", "bc", "k", none, true, "s", 2⟩

/-- A type that begins with another one, with the least public key. -/
def longType : Membership := ⟨"0xab", "a", "ka", none, true, "s", 4⟩

/-- The members come in another order than they are listed in, and one of them comes in an older
version too. -/
def life : Life := .inMemory
  [.call 0 (.verifyChain 1), .call 0 (.apply (.member longType)),
    .call 0 (.commitBatch "p" (.live 0) ⟨1, 4, none⟩
      [.member long, .member { short with version := 1 }, .member short]),
    .call 0 (.apply (.member { long with version := 1, used := false }))]

/-- The same life, and one member that goes out of use. -/
def longer : Life := .inMemory
  (life.steps ++ [.restart, .call 0 (.verifyChain 1),
    .call 0 (.apply (.member { short with version := 9, used := false }))])

theorem keySet_life : life.ledger.keySet "0xab" = .ok [short, long, longType] := by
  decide +kernel

/-- The members in the order of type and public key; none is lost afterwards. -/
theorem listsMembers_life : life.ListsMembers "0xab" [short, long, longType] ∧
    ∃ members, longer.ListsMembers "0xab" members ∧
      ∃ kept ∈ members, kept.publicKeyType = "k" ∧ kept.publicKey = "b" ∧ 3 ≤ kept.version := by
  obtain ⟨members, links, hmembers, -, continued⟩ := life.listings_of_applied (by decide +kernel)
    (by decide : Nameable "0xab") (by decide : Nameable "0x1")
  obtain rfl := Except.ok.inj (hmembers.answered.symm.trans keySet_life)
  obtain ⟨members', -, hmembers', -, kept, -⟩ := continued longer
    ⟨rfl, rfl, List.prefix_append _ _⟩ (by decide +kernel)
  exact ⟨hmembers, members', hmembers', kept short List.mem_cons_self⟩

end PrefixExample

end IngestLedger
