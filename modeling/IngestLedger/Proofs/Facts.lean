import IngestLedger.Proofs.Coalescing

/-!
# Facts and the events that supersede them

The identity tables, seen as a whole, tell for each row which event it holds. An event supersedes
the one that its row holds when it is strictly newer.

Main statements:

* `Facts.supersedeAll_of_isFirstNewest`, `Facts.supersedeAll_coalesce`: which event a row holds
  after events that are applied one by one, and after the same events when they are coalesced.
* `Facts.supersedeAll_coalesce_eq_iff`: when the two are the same.
* `Facts.supersedeAll_coalesce_eq_overwriteAll`: events in the order of their versions, newer than
  what a row holds, overwrite it.
* `IsNewest.supersedeAll`: rows that hold the newest event of a history still do after one more
  batch.
-/

namespace IngestLedger

/-- The event that each row holds. -/
abbrev Facts := Key → Option IdentityEvent

/-- What a row holds after one more event for it: the event itself, if it is strictly newer. -/
def newer (held : Option IdentityEvent) (event : IdentityEvent) : Option IdentityEvent :=
  if held.any fun old => event.version ≤ old.version then held else some event

section Newer

variable {held : Option IdentityEvent} {event first last : IdentityEvent}

theorem newer_of_stale {old : IdentityEvent} (h : held = some old)
    (stale : event.version ≤ old.version) : newer held event = held := by
  subst h
  simp [newer, stale]

theorem newer_of_fresh (fresh : ∀ old, held = some old → old.version < event.version) :
    newer held event = some event := by
  cases held with
  | none => rfl
  | some old => simp [newer, UInt64.not_le.2 (fresh old rfl)]

theorem stale_or_fresh (held : Option IdentityEvent) (event : IdentityEvent) :
    (∃ old, held = some old ∧ event.version ≤ old.version) ∨
      ∀ old, held = some old → old.version < event.version := by
  cases held with
  | none => exact .inr nofun
  | some old =>
    rcases UInt64.lt_or_le old.version event.version with fresh | stale
    · exact .inr fun _ h => Option.some.inj h ▸ fresh
    · exact .inl ⟨old, rfl, stale⟩

/-- After an event, one that is not newer than it changes nothing. -/
theorem newer_newer_of_le (le : last.version ≤ first.version) :
    newer (newer held first) last = newer held first := by
  rcases stale_or_fresh held first with ⟨old, h, stale⟩ | fresh
  · rw [newer_of_stale h stale]
    exact newer_of_stale h (UInt64.le_trans le stale)
  · rw [newer_of_fresh fresh]
    exact newer_of_stale rfl le

/-- An event that is newer than the one before it makes that one irrelevant. -/
theorem newer_newer_of_lt (less : first.version < last.version) :
    newer (newer held first) last = newer held last := by
  rcases stale_or_fresh held first with ⟨old, h, stale⟩ | fresh
  · rw [newer_of_stale h stale]
  · rw [newer_of_fresh fresh, newer_of_fresh fun _ h => Option.some.inj h ▸ less]
    exact (newer_of_fresh fun old h => UInt64.lt_trans (fresh old h) less).symm

end Newer

namespace Facts

/-- The facts after one more event. -/
def supersede (facts : Facts) (event : IdentityEvent) : Facts := fun key =>
  if key = event.key then newer (facts key) event else facts key

/-- The facts after events that are applied one by one. -/
def supersedeAll (facts : Facts) (events : List IdentityEvent) : Facts :=
  events.foldl supersede facts

variable {facts : Facts} {events : List IdentityEvent} {event : IdentityEvent}

@[simp] theorem supersede_same : facts.supersede event event.key = newer (facts event.key) event :=
  if_pos rfl

theorem supersede_of_ne {key : Key} (h : event.key ≠ key) : facts.supersede event key = facts key :=
  if_neg (Ne.symm h)

theorem supersede_of_stale {old : IdentityEvent} (h : facts event.key = some old)
    (stale : event.version ≤ old.version) : facts.supersede event = facts := by
  funext key
  by_cases same : key = event.key
  · rw [same, supersede_same, newer_of_stale h stale]
  · exact supersede_of_ne (Ne.symm same)

theorem supersede_of_fresh
    (fresh : ∀ old, facts event.key = some old → old.version < event.version) :
    facts.supersede event = fun key => if key = event.key then some event else facts key := by
  funext key
  by_cases same : key = event.key
  · rw [if_pos same, same, supersede_same, newer_of_fresh fresh]
  · rw [if_neg same, supersede_of_ne (Ne.symm same)]

@[simp] theorem supersedeAll_cons :
    facts.supersedeAll (event :: events) = (facts.supersede event).supersedeAll events := rfl

theorem supersedeAll_concat :
    facts.supersedeAll (events ++ [event]) = (facts.supersedeAll events).supersede event := by
  simp [supersedeAll, List.foldl_append]

/-- A row without an event keeps what it holds. -/
theorem supersedeAll_of_forall_ne {key : Key} (h : ∀ event ∈ events, event.key ≠ key) :
    facts.supersedeAll events key = facts key := by
  induction events generalizing facts with
  | nil => rfl
  | cons event events ih =>
    rw [supersedeAll_cons, ih fun e he => h e (List.mem_cons_of_mem _ he),
      supersede_of_ne (h event List.mem_cons_self)]

/-- Of the events for a row that are applied one by one, the first newest one decides. -/
theorem supersedeAll_of_isFirstNewest (h : IsFirstNewest events event) :
    facts.supersedeAll events event.key = newer (facts event.key) event := by
  -- from the end: the last event is strictly newer than all before it, or it changes nothing
  induction events using List.reverseRecOn generalizing event with
  | nil => exact absurd h not_isPicked_nil
  | append_singleton events last ih =>
    rw [supersedeAll_concat]
    rcases isPicked_concat_iff.1 h with ⟨rfl, older⟩ | ⟨first, kept⟩
    · rw [supersede_same]
      rcases forall_ne_or_exists_isPicked isTieRule_first events event.key with none | found
      · rw [supersedeAll_of_forall_ne none]
      · obtain ⟨before, hbefore, same⟩ := found
        rw [← same, ih hbefore]
        exact newer_newer_of_lt (older before hbefore.mem same)
    · by_cases row : last.key = event.key
      · rw [← row, supersede_same, row, ih first]
        exact newer_newer_of_le (kept row)
      · rw [supersede_of_ne row, ih first]

/-- Of the events for a row that are coalesced, the last newest one decides. -/
theorem supersedeAll_coalesce (h : IsLastNewest events event) :
    facts.supersedeAll (coalesce events) event.key = newer (facts event.key) event :=
  supersedeAll_of_isFirstNewest
    (isPicked_of_nodup (nodup_keys_coalesce events) (mem_coalesce_iff.2 h))

theorem supersedeAll_coalesce_of_forall_ne {key : Key} (h : ∀ event ∈ events, event.key ≠ key) :
    facts.supersedeAll (coalesce events) key = facts key :=
  supersedeAll_of_forall_ne fun event member => h event (mem_coalesce_iff.1 member).mem

/-- Coalescing a batch first changes what comes of it exactly where an event of the greatest version
is newer than what its row holds and another one of that version stands in the batch. -/
theorem supersedeAll_coalesce_eq_iff :
    facts.supersedeAll (coalesce events) = facts.supersedeAll events ↔
      ∀ first last, IsFirstNewest events first → IsLastNewest events last → first.key = last.key →
        (∀ old, facts first.key = some old → old.version < first.version) → first = last := by
  constructor
  · intro same first last hfirst hlast row fresh
    have versions : first.version = last.version :=
      UInt64.le_antisymm (hlast.version_le isTieRule_last hfirst.mem row)
        (hfirst.version_le isTieRule_first hlast.mem row.symm)
    have one_by_one : facts.supersedeAll events first.key = newer (facts first.key) first :=
      supersedeAll_of_isFirstNewest hfirst
    have coalesced : facts.supersedeAll (coalesce events) last.key = newer (facts last.key) last :=
      supersedeAll_coalesce hlast
    rw [newer_of_fresh fresh] at one_by_one
    rw [← row, newer_of_fresh (versions ▸ fresh), same, one_by_one] at coalesced
    exact Option.some.inj coalesced
  · intro tie
    funext key
    rcases forall_ne_or_exists_isPicked isTieRule_first events key with none | found
    · rw [supersedeAll_coalesce_of_forall_ne none, supersedeAll_of_forall_ne none]
    · obtain ⟨first, hfirst, rfl⟩ := found
      rcases forall_ne_or_exists_isPicked isTieRule_last events first.key with none | found
      · exact absurd rfl (none first hfirst.mem)
      · obtain ⟨last, hlast, row⟩ := found
        rw [supersedeAll_of_isFirstNewest hfirst, ← row, supersedeAll_coalesce hlast, row]
        -- a stale row keeps what it holds either way, so only fresh ones need the tie
        rcases stale_or_fresh (facts first.key) first with ⟨old, held, stale⟩ | fresh
        · have le := hfirst.version_le isTieRule_first hlast.mem row
          rw [newer_of_stale held stale, newer_of_stale held (UInt64.le_trans le stale)]
        · rw [tie first last hfirst hlast row.symm fresh]

/-! ### Events in the order of their versions -/

/-- The facts after an event that is put whatever its row holds. -/
def overwrite (facts : Facts) (event : IdentityEvent) : Facts := fun key =>
  if key = event.key then some event else facts key

/-- The facts after events that are put one by one. -/
def overwriteAll (facts : Facts) (events : List IdentityEvent) : Facts :=
  events.foldl overwrite facts

section Overwriting

variable {key : Key} {others : List IdentityEvent}

@[simp] theorem overwriteAll_nil : facts.overwriteAll [] = facts := rfl

@[simp] theorem overwriteAll_cons :
    facts.overwriteAll (event :: events) = (facts.overwrite event).overwriteAll events := rfl

theorem overwriteAll_append :
    facts.overwriteAll (events ++ others) = (facts.overwriteAll events).overwriteAll others :=
  List.foldl_append

theorem overwrite_of_ne (h : event.key ≠ key) : facts.overwrite event key = facts key :=
  if_neg (Ne.symm h)

/-- A row without an event keeps what it holds. -/
theorem overwriteAll_of_forall_ne (h : ∀ event ∈ events, event.key ≠ key) :
    facts.overwriteAll events key = facts key := by
  induction events generalizing facts with
  | nil => rfl
  | cons event events ih =>
    rw [overwriteAll_cons, ih fun e he => h e (List.mem_cons_of_mem _ he),
      overwrite_of_ne (h event List.mem_cons_self)]

/-- A row holds the last event for it. -/
theorem overwriteAll_of_last (none_later : ∀ other ∈ others, other.key ≠ event.key) :
    facts.overwriteAll (events ++ event :: others) event.key = some event := by
  rw [overwriteAll_append, overwriteAll_cons, overwriteAll_of_forall_ne none_later]
  exact if_pos rfl

/-- What a row holds afterwards depends on what that row held alone. -/
theorem overwriteAll_congr {facts' : Facts} (same : facts key = facts' key) :
    facts.overwriteAll events key = facts'.overwriteAll events key := by
  induction events generalizing facts facts' with
  | nil => exact same
  | cons event events ih =>
    refine ih ?_
    unfold overwrite
    rw [same]

/-- What a row holds afterwards is an event that was put, or what it held before. -/
theorem overwriteAll_eq_some (h : facts.overwriteAll events key = some event) :
    event ∈ events ∨ facts key = some event := by
  induction events generalizing facts with
  | nil => exact .inr h
  | cons first events ih =>
    rcases ih h with later | held
    · exact .inl (List.mem_cons_of_mem _ later)
    · unfold overwrite at held
      split at held
      · rw [← Option.some.inj held]
        exact .inl List.mem_cons_self
      · exact .inr held

/-- A batch whose events stand in the order of their versions overwrites a row that holds nothing as
new: of two events of one version, the later one wins. -/
theorem supersedeAll_coalesce_eq_overwriteAll
    (ordered : events.Pairwise fun a b => a.version ≤ b.version)
    (fresh : ∀ old, facts key = some old → ∀ event ∈ events, old.version < event.version) :
    facts.supersedeAll (coalesce events) key = facts.overwriteAll events key := by
  rcases forall_ne_or_exists_isPicked isTieRule_last events key with none | ⟨top, htop, rfl⟩
  · rw [supersedeAll_coalesce_of_forall_ne none, overwriteAll_of_forall_ne none]
  · have applied : facts.supersedeAll (coalesce events) top.key = newer (facts top.key) top :=
      supersedeAll_coalesce htop
    rw [applied, newer_of_fresh fun old held => fresh old held top htop.mem]
    -- an event after the newest one would have to be newer still
    obtain ⟨before, after, rfl, -, older⟩ := htop
    have none_later : ∀ other ∈ after, other.key ≠ top.key := by
      intro other member same
      have tail := (List.pairwise_append.1 ordered).2.1
      have le : top.version ≤ other.version := (List.pairwise_cons.1 tail).1 other member
      exact UInt64.not_lt.2 le (older other member same)
    exact (overwriteAll_of_last none_later).symm

end Overwriting

end Facts

/-- Each row holds an event of the greatest version among those of a history for it, and the
other rows hold none. -/
def IsNewest (history : List IdentityEvent) (facts : Facts) : Prop :=
  ∀ key, (facts key = none ∧ ∀ event ∈ history, event.key ≠ key) ∨
    ∃ event ∈ history, facts key = some event ∧ event.key = key ∧
      ∀ other ∈ history, other.key = key → other.version ≤ event.version

theorem isNewest_nil : IsNewest [] fun _ => none := fun _ => .inl ⟨rfl, by simp⟩

/-- One more batch. -/
theorem IsNewest.supersedeAll {history events : List IdentityEvent} {facts : Facts}
    (h : IsNewest history facts) :
    IsNewest (history ++ events) (facts.supersedeAll (coalesce events)) := by
  intro key
  rcases forall_ne_or_exists_isPicked isTieRule_last events key with none | ⟨top, htop, row⟩
  · rw [Facts.supersedeAll_coalesce_of_forall_ne none]
    rcases h key with ⟨free, absent⟩ | ⟨event, member, holds, same, newest⟩
    · refine .inl ⟨free, fun event member => ?_⟩
      rcases List.mem_append.1 member with member | member
      · exact absent event member
      · exact none event member
    · refine .inr ⟨event, List.mem_append_left _ member, holds, same, fun other inside hrow => ?_⟩
      rcases List.mem_append.1 inside with inside | inside
      · exact newest other inside hrow
      · exact absurd hrow (none other inside)
  · subst row
    refine .inr ?_
    -- the newest event of the batch wins, unless the row holds one that is as new
    rw [Facts.supersedeAll_coalesce htop]
    have most : ∀ other ∈ events, other.key = top.key → other.version ≤ top.version :=
      fun other inside hrow => htop.version_le isTieRule_last inside hrow
    rcases stale_or_fresh (facts top.key) top with ⟨old, held, stale⟩ | fresh
    · rcases h top.key with ⟨free, -⟩ | ⟨event, member, holds, same, newest⟩
      · rw [free] at held
        cases held
      · obtain rfl := Option.some.inj (held.symm.trans holds)
        rw [newer_of_stale held stale]
        refine ⟨old, List.mem_append_left _ member, holds, same, fun other inside hrow => ?_⟩
        rcases List.mem_append.1 inside with inside | inside
        · exact newest other inside hrow
        · exact UInt64.le_trans (most other inside hrow) stale
    · rw [newer_of_fresh fresh]
      refine ⟨top, List.mem_append_right _ htop.mem, rfl, rfl, fun other inside hrow => ?_⟩
      rcases List.mem_append.1 inside with inside | inside
      · rcases h top.key with ⟨-, absent⟩ | ⟨event, -, holds, -, newest⟩
        · exact absurd hrow (absent other inside)
        · exact UInt64.le_trans (newest other inside hrow) (UInt64.le_of_lt (fresh event holds))
      · exact most other inside hrow

end IngestLedger
