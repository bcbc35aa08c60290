import IngestLedger.Identity
import Mathlib.Data.List.Induction

/-!
# The newest events of a batch

Of the events for one row, those of the greatest version are the newest. Coalescing keeps the last
of them; applying a batch event by event, where an event has to be strictly newer than the row,
keeps the first of them.

Main statements:

* `mem_coalesce_iff`: coalescing keeps, for each row, the last newest event.
* `nodup_keys_coalesce`: it keeps one event for each row.
* `forall_ne_or_exists_isPicked`, `IsPicked.eq`: each row with events has one first and one last
  newest event.
-/

namespace IngestLedger

/-! ### First and last newest events -/

/-- An event of a list, with what holds of the versions of the events for its row that stand before
it and after it. -/
def IsPicked (earlier later : Version → Version → Prop) (events : List IdentityEvent)
    (event : IdentityEvent) : Prop :=
  ∃ before after, events = before ++ event :: after ∧
    (∀ other ∈ before, other.key = event.key → earlier other.version event.version) ∧
    ∀ other ∈ after, other.key = event.key → later other.version event.version

/-- The first of the events of the greatest version for its row. -/
def IsFirstNewest : List IdentityEvent → IdentityEvent → Prop := IsPicked (· < ·) (· ≤ ·)

/-- The last of the events of the greatest version for its row. -/
def IsLastNewest : List IdentityEvent → IdentityEvent → Prop := IsPicked (· ≤ ·) (· < ·)

variable {earlier later : Version → Version → Prop} {events : List IdentityEvent}
  {event picked : IdentityEvent}

theorem IsPicked.mem (h : IsPicked earlier later events event) : event ∈ events := by
  obtain ⟨before, after, rfl, -, -⟩ := h
  exact List.mem_append_right _ List.mem_cons_self

/-- One more event is picked itself, or the picked event stays. -/
theorem isPicked_concat_iff :
    IsPicked earlier later (events ++ [event]) picked ↔
      (picked = event ∧
        ∀ other ∈ events, other.key = event.key → earlier other.version event.version) ∨
      (IsPicked earlier later events picked ∧
        (event.key = picked.key → later event.version picked.version)) := by
  constructor
  · rintro ⟨before, after, whole, hbefore, hafter⟩
    -- the new event is the picked one itself, or the last of those after it
    rcases List.eq_nil_or_concat after with rfl | ⟨front, last, rfl⟩
    · obtain ⟨rfl, same⟩ := List.append_inj' whole rfl
      obtain rfl := List.singleton_inj.1 same
      exact .inl ⟨rfl, hbefore⟩
    · rw [List.concat_eq_append] at whole hafter
      have regrouped : events ++ [event] = (before ++ picked :: front) ++ [last] := by
        simpa using whole
      obtain ⟨rfl, same⟩ := List.append_inj' regrouped rfl
      obtain rfl := List.singleton_inj.1 same
      refine .inr ⟨⟨before, front, rfl, hbefore, fun other member => ?_⟩, ?_⟩
      · exact hafter other (List.mem_append_left _ member)
      · exact hafter event (List.mem_append_right _ List.mem_cons_self)
  · rintro (⟨rfl, older⟩ | ⟨⟨before, after, rfl, hbefore, hafter⟩, hlast⟩)
    · exact ⟨events, [], rfl, older, by simp⟩
    · refine ⟨before, after ++ [event], by simp, hbefore, fun other member => ?_⟩
      rcases List.mem_append.1 member with member | member
      · exact hafter other member
      · obtain rfl := List.mem_singleton.1 member
        exact hlast

theorem not_isPicked_nil : ¬ IsPicked earlier later [] picked := fun h => by simpa using h.mem

/-- Among events of different rows, each is picked. -/
theorem isPicked_of_nodup (distinct : (events.map IdentityEvent.key).Nodup)
    (member : event ∈ events) : IsPicked earlier later events event := by
  obtain ⟨before, after, rfl⟩ := List.append_of_mem member
  rw [List.map_append, List.map_cons, List.nodup_append] at distinct
  obtain ⟨-, tail, disjoint⟩ := distinct
  refine ⟨before, after, rfl, fun other inside row => ?_, fun other inside row => ?_⟩
  · exact absurd row (disjoint _ (List.mem_map_of_mem inside) _ List.mem_cons_self)
  · exact absurd (row ▸ List.mem_map_of_mem inside) (List.nodup_cons.1 tail).1

/-- What makes the picked event of a row one of the greatest version, and the only one. -/
structure IsTieRule (earlier later : Version → Version → Prop) : Prop where
  earlier_le : ∀ {v w}, earlier v w → v ≤ w
  later_le : ∀ {v w}, later v w → v ≤ w
  earlier_of_le : ∀ {u v w}, u ≤ v → earlier v w → earlier u w
  earlier_or_later : ∀ v w, earlier v w ∨ later w v
  not_both : ∀ {v w}, earlier v w → ¬ later w v

/-- The first of the newest events wins. -/
theorem isTieRule_first : IsTieRule (· < ·) (· ≤ ·) where
  earlier_le := UInt64.le_of_lt
  later_le h := h
  earlier_of_le := UInt64.lt_of_le_of_lt
  earlier_or_later v w := by
    rcases UInt64.lt_or_le v w with less | le
    · exact .inl less
    · exact .inr le
  not_both := UInt64.not_le.2

/-- The last of the newest events wins. -/
theorem isTieRule_last : IsTieRule (· ≤ ·) (· < ·) where
  earlier_le h := h
  later_le := UInt64.le_of_lt
  earlier_of_le := UInt64.le_trans
  earlier_or_later v w := by
    rcases UInt64.lt_or_le w v with less | le
    · exact .inr less
    · exact .inl le
  not_both := UInt64.not_lt.2

section Rule

variable (rule : IsTieRule earlier later)

include rule

/-- A picked event has the greatest version for its row. -/
theorem IsPicked.version_le (h : IsPicked earlier later events picked) {other : IdentityEvent}
    (member : other ∈ events) (same : other.key = picked.key) :
    other.version ≤ picked.version := by
  obtain ⟨before, after, rfl, hbefore, hafter⟩ := h
  rcases List.mem_append.1 member with member | member
  · exact rule.earlier_le (hbefore other member same)
  · rcases List.mem_cons.1 member with rfl | member
    · exact UInt64.le_refl _
    · exact rule.later_le (hafter other member same)

/-- A row without a picked event has no event at all. -/
theorem forall_ne_or_exists_isPicked (events : List IdentityEvent) (key : Key) :
    (∀ event ∈ events, event.key ≠ key) ∨
      ∃ picked, IsPicked earlier later events picked ∧ picked.key = key := by
  induction events using List.reverseRecOn with
  | nil => exact .inl (by simp)
  | append_singleton events last ih =>
    -- only an event for the row itself can take the place of what was picked
    by_cases row : last.key = key
    · refine .inr ?_
      rcases ih with none_before | ⟨kept, hkept, same⟩
      · refine ⟨last, isPicked_concat_iff.2 (.inl ⟨rfl, fun o ho h => ?_⟩), row⟩
        exact absurd (h.trans row) (none_before o ho)
      · rcases rule.earlier_or_later kept.version last.version with older | stays
        · refine ⟨last, isPicked_concat_iff.2 (.inl ⟨rfl, fun o ho h => ?_⟩), row⟩
          have most := hkept.version_le rule ho (h.trans (row.trans same.symm))
          exact rule.earlier_of_le most older
        · exact ⟨kept, isPicked_concat_iff.2 (.inr ⟨hkept, fun _ => stays⟩), same⟩
    · rcases ih with none_before | ⟨kept, hkept, same⟩
      · refine .inl fun event member => ?_
        rcases List.mem_append.1 member with member | member
        · exact none_before event member
        · exact List.mem_singleton.1 member ▸ row
      · refine .inr ⟨kept, isPicked_concat_iff.2 (.inr ⟨hkept, fun h => ?_⟩), same⟩
        exact absurd (h.trans same) row

/-- A row has one picked event. -/
theorem IsPicked.eq (h : IsPicked earlier later events picked)
    (h' : IsPicked earlier later events event) (same : picked.key = event.key) :
    picked = event := by
  induction events using List.reverseRecOn with
  | nil => exact absurd h not_isPicked_nil
  | append_singleton events last ih =>
    rcases isPicked_concat_iff.1 h with ⟨rfl, older⟩ | ⟨before, kept⟩
    · rcases isPicked_concat_iff.1 h' with ⟨rfl, -⟩ | ⟨before', kept'⟩
      · rfl
      · exact absurd (kept' same) (rule.not_both (older event before'.mem same.symm))
    · rcases isPicked_concat_iff.1 h' with ⟨rfl, older⟩ | ⟨before', -⟩
      · exact absurd (kept same.symm) (rule.not_both (older picked before.mem same))
      · exact ih before before'

end Rule

/-! ### Coalescing -/

theorem coalesce_concat (events : List IdentityEvent) (event : IdentityEvent) :
    coalesce (events ++ [event]) = event.place (coalesce events) := by
  simp [coalesce, List.foldl_append]

theorem keys_place (event : IdentityEvent) (kept : List IdentityEvent) :
    (event.place kept).map IdentityEvent.key =
      if event.key ∈ kept.map IdentityEvent.key then kept.map IdentityEvent.key
      else kept.map IdentityEvent.key ++ [event.key] := by
  induction kept with
  | nil => rfl
  | cons head tail ih =>
    simp only [IdentityEvent.place]
    by_cases same : head.key = event.key
    · have here : event.key ∈ (head :: tail).map IdentityEvent.key := by simp [same]
      rw [if_pos same, if_pos here, List.map_cons, List.map_cons]
      split
      · rw [same]
      · rfl
    · rw [if_neg same, List.map_cons, ih, List.map_cons]
      have away : event.key ≠ head.key := Ne.symm same
      by_cases later : event.key ∈ tail.map IdentityEvent.key
      · rw [if_pos later, if_pos (List.mem_cons_of_mem _ later)]
      · rw [if_neg later, if_neg (by simp [away, later]), List.cons_append]

/-- Coalescing keeps one event for each row. -/
theorem nodup_keys_coalesce (events : List IdentityEvent) :
    ((coalesce events).map IdentityEvent.key).Nodup := by
  induction events using List.reverseRecOn with
  | nil => simp [coalesce]
  | append_singleton events last ih =>
    rw [coalesce_concat, keys_place]
    split
    · exact ih
    · rename_i fresh
      exact List.nodup_append.2 ⟨ih, by simp, fun a ha b hb =>
        List.mem_singleton.1 hb ▸ fun same => fresh (same ▸ ha)⟩

/-- Placing an event among events of different rows. -/
theorem mem_place_iff {kept : List IdentityEvent}
    (distinct : (kept.map IdentityEvent.key).Nodup) :
    picked ∈ event.place kept ↔
      (picked = event ∧
        ∀ other ∈ kept, other.key = event.key → other.version ≤ event.version) ∨
      (picked ∈ kept ∧ (event.key = picked.key → event.version < picked.version)) := by
  induction kept with
  | nil => simp [IdentityEvent.place]
  | cons head tail ih =>
    obtain ⟨away, distinct⟩ := List.nodup_cons.1 distinct
    have others : ∀ other ∈ tail, other.key ≠ head.key := fun other member same =>
      away (same ▸ List.mem_map_of_mem member)
    simp only [IdentityEvent.place]
    by_cases same : head.key = event.key
    · rw [if_pos same]
      -- the head is the one kept event for the row: it is replaced, or it is newer and stays
      split
      · rename_i newer
        rw [List.mem_cons]
        constructor
        · rintro (rfl | member)
          · refine .inl ⟨rfl, fun other inside row => ?_⟩
            rcases List.mem_cons.1 inside with rfl | inside
            · exact newer
            · exact absurd (row.trans same.symm) (others other inside)
          · refine .inr ⟨List.mem_cons_of_mem _ member, fun row => ?_⟩
            exact absurd (row.symm.trans same.symm) (others picked member)
        · rintro (⟨rfl, -⟩ | ⟨member, above⟩)
          · exact .inl rfl
          · rcases List.mem_cons.1 member with rfl | member
            · exact absurd newer (UInt64.not_le.2 (above same.symm))
            · exact .inr member
      · rename_i older
        constructor
        · intro member
          refine .inr ⟨member, fun row => ?_⟩
          rcases List.mem_cons.1 member with rfl | member
          · exact UInt64.not_le.1 older
          · exact absurd (row.symm.trans same.symm) (others picked member)
        · rintro (⟨rfl, newest⟩ | ⟨member, -⟩)
          · exact absurd (newest head List.mem_cons_self same) older
          · exact member
    · rw [if_neg same, List.mem_cons, ih distinct]
      constructor
      · rintro (rfl | ⟨rfl, newest⟩ | ⟨member, above⟩)
        · exact .inr ⟨List.mem_cons_self, fun row => absurd row.symm same⟩
        · refine .inl ⟨rfl, fun other inside row => ?_⟩
          rcases List.mem_cons.1 inside with rfl | inside
          · exact absurd row same
          · exact newest other inside row
        · exact .inr ⟨List.mem_cons_of_mem _ member, above⟩
      · rintro (⟨rfl, newest⟩ | ⟨member, above⟩)
        · exact .inr (.inl ⟨rfl, fun o ho => newest o (List.mem_cons_of_mem _ ho)⟩)
        · rcases List.mem_cons.1 member with rfl | member
          · exact .inl rfl
          · exact .inr (.inr ⟨member, above⟩)

/-- Coalescing keeps, for each row, the last of the events of the greatest version. -/
theorem mem_coalesce_iff : picked ∈ coalesce events ↔ IsLastNewest events picked := by
  induction events using List.reverseRecOn generalizing picked with
  | nil => exact iff_of_false (by simp [coalesce]) not_isPicked_nil
  | append_singleton events last ih =>
    -- the kept events bound the same versions as all of them
    have bounds : (∀ other ∈ coalesce events, other.key = last.key →
          other.version ≤ last.version) ↔
        ∀ other ∈ events, other.key = last.key → other.version ≤ last.version := by
      constructor
      · intro kept other member row
        rcases forall_ne_or_exists_isPicked isTieRule_last events other.key with none | found
        · exact absurd rfl (none other member)
        · obtain ⟨top, htop, same⟩ := found
          have most := htop.version_le isTieRule_last member same.symm
          exact UInt64.le_trans most (kept top (ih.2 htop) (same.trans row))
      · exact fun all other member => all other (ih.1 member).mem
    rw [coalesce_concat, mem_place_iff (nodup_keys_coalesce events), bounds, ih]
    exact isPicked_concat_iff.symm

theorem coalesce_ne_nil (h : events ≠ []) : coalesce events ≠ [] := by
  obtain ⟨event, others, rfl⟩ := List.exists_cons_of_ne_nil h
  rcases forall_ne_or_exists_isPicked isTieRule_last (event :: others) event.key with none | found
  · exact absurd rfl (none event List.mem_cons_self)
  · obtain ⟨top, htop, -⟩ := found
    exact List.ne_nil_of_mem (mem_coalesce_iff.2 htop)

end IngestLedger
