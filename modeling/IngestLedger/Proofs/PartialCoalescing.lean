import IngestLedger.Proofs.Coalescing

/-!
# Coalescing a batch in parts

What coalescing makes of a batch is settled by the rows of its events, in the order in which they
first occur, and by the last newest event of each row. Neither changes when a part of the batch is
coalesced beforehand, so a batch may be coalesced in parts, and again.

Main statements:

* `keys_coalesce`: the rows of a coalesced batch, in their order.
* `eq_coalesce_iff`: the rows and the events settle what coalescing makes of a batch.
* `coalesce_eq_self_iff`: the batches that are coalesced already.
* `coalesce_eq_last_newest`: what is coalesced, in whatever parts.
-/

namespace IngestLedger

/-! ### Each element where it first occurs -/

section FirstOccurrences

variable {α : Type} [BEq α] [LawfulBEq α]

theorem eraseDups_concat (xs : List α) (x : α) :
    (xs ++ [x]).eraseDups = if x ∈ xs then xs.eraseDups else xs.eraseDups ++ [x] := by
  rw [List.eraseDups_append]
  split
  · rename_i again
    simp [List.removeAll, again]
  · rename_i fresh
    simp [List.removeAll, fresh, List.eraseDups_cons]

/-- Where nothing is repeated, nothing is taken out. -/
theorem eraseDups_of_nodup {xs : List α} (distinct : xs.Nodup) : xs.eraseDups = xs := by
  induction xs using List.reverseRecOn with
  | nil => rfl
  | append_singleton xs x ih =>
    obtain ⟨rest, -, apart⟩ := List.nodup_append.1 distinct
    have fresh : x ∉ xs := fun again => apart x again x (List.mem_singleton_self x) rfl
    rw [eraseDups_concat, if_neg fresh, ih rest]

/-- Repetitions that are taken out of the end beforehand make no difference. -/
theorem eraseDups_append_eraseDups (xs ys : List α) :
    (xs ++ ys.eraseDups).eraseDups = (xs ++ ys).eraseDups := by
  induction ys using List.reverseRecOn with
  | nil => rfl
  | append_singleton ys y ih =>
    rw [eraseDups_concat, ← List.append_assoc, eraseDups_concat (xs ++ ys)]
    split
    · rename_i again
      rw [ih, if_pos (List.mem_append_right _ again)]
    · rw [← List.append_assoc, eraseDups_concat, ih]
      simp only [List.mem_append, List.mem_eraseDups]

/-- Repetitions that are taken out of the front beforehand make no difference. -/
theorem eraseDups_eraseDups_append (xs ys : List α) :
    (xs.eraseDups ++ ys).eraseDups = (xs ++ ys).eraseDups := by
  induction ys using List.reverseRecOn with
  | nil =>
    have again := eraseDups_append_eraseDups [] xs
    rwa [List.append_nil, List.append_nil]
  | append_singleton ys y ih =>
    rw [← List.append_assoc, ← List.append_assoc, eraseDups_concat, eraseDups_concat, ih]
    simp only [List.mem_append, List.mem_eraseDups]

end FirstOccurrences

/-! ### The newest events of two batches -/

variable {earlier later : Version → Version → Prop} {events xs ys : List IdentityEvent}
  {event picked : IdentityEvent}

/-- An event that is picked from two batches is picked from the one it stands in, and the other one
holds nothing against it. -/
theorem isPicked_append_iff : IsPicked earlier later (xs ++ ys) picked ↔
    (IsPicked earlier later xs picked ∧
      ∀ other ∈ ys, other.key = picked.key → later other.version picked.version) ∨
    (IsPicked earlier later ys picked ∧
      ∀ other ∈ xs, other.key = picked.key → earlier other.version picked.version) := by
  constructor
  · rintro ⟨before, after, whole, hbefore, hafter⟩
    -- the picked event stands in the second batch, or else in the first one
    rcases List.append_eq_append_iff.1 whole with ⟨front, rfl, rfl⟩ | ⟨back, rfl, rest⟩
    · refine .inr ⟨⟨front, after, rfl, fun other inside => ?_, hafter⟩, fun other inside => ?_⟩
      · exact hbefore other (List.mem_append_right _ inside)
      · exact hbefore other (List.mem_append_left _ inside)
    · cases back with
      | nil =>
        obtain rfl : ys = picked :: after := by simpa using rest.symm
        refine .inr ⟨⟨[], after, rfl, by simp, hafter⟩, fun other inside => ?_⟩
        exact hbefore other (by simpa using inside)
      | cons first back =>
        obtain ⟨rfl, rfl⟩ := List.cons.inj rest
        refine .inl ⟨⟨before, back, rfl, hbefore, fun other inside => ?_⟩, fun other inside => ?_⟩
        · exact hafter other (List.mem_append_left _ inside)
        · exact hafter other (List.mem_append_right _ inside)
  · rintro (⟨⟨before, after, rfl, hbefore, hafter⟩, none_later⟩ |
      ⟨⟨before, after, rfl, hbefore, hafter⟩, none_earlier⟩)
    · refine ⟨before, after ++ ys, by simp, hbefore, fun other inside => ?_⟩
      exact (List.mem_append.1 inside).elim (hafter other) (none_later other)
    · refine ⟨xs ++ before, after, by simp, fun other inside => ?_, hafter⟩
      exact (List.mem_append.1 inside).elim (none_earlier other) (hbefore other)

/-- Coalescing keeps the greatest versions, so what bounds those bounds all. -/
theorem forall_coalesce_iff {bound : Version → Prop}
    (downward : ∀ {v w}, v ≤ w → bound w → bound v) {key : Key} :
    (∀ other ∈ coalesce events, other.key = key → bound other.version) ↔
      ∀ other ∈ events, other.key = key → bound other.version := by
  constructor
  · intro kept other member row
    rcases forall_ne_or_exists_isPicked isTieRule_last events other.key with none | found
    · exact absurd rfl (none other member)
    · obtain ⟨top, htop, same⟩ := found
      exact downward (htop.version_le isTieRule_last member same.symm)
        (kept top (mem_coalesce_iff.2 htop) (same.trans row))
  · exact fun all other member => all other (mem_coalesce_iff.1 member).mem

/-! ### What coalescing makes of a batch -/

/-- The rows of a coalesced batch are those of the batch, each where it first occurs. -/
theorem keys_coalesce (events : List IdentityEvent) :
    (coalesce events).map IdentityEvent.key = (events.map IdentityEvent.key).eraseDups := by
  induction events using List.reverseRecOn with
  | nil => rfl
  | append_singleton events last ih =>
    rw [coalesce_concat, keys_place, ih, List.map_append, List.map_cons, List.map_nil,
      eraseDups_concat]
    simp only [List.mem_eraseDups]

/-- Lists of events of the same rows, among which each row has the same event, are the same. -/
theorem eq_of_keys_eq (rows : xs.map IdentityEvent.key = ys.map IdentityEvent.key)
    (same : ∀ a ∈ xs, ∀ b ∈ ys, a.key = b.key → a = b) : xs = ys := by
  induction xs generalizing ys with
  | nil => exact (List.map_eq_nil_iff.1 rows.symm).symm
  | cons a xs ih =>
    obtain ⟨b, ys, rfl, row, rest⟩ := List.map_eq_cons_iff.1 rows.symm
    obtain rfl := same a List.mem_cons_self b List.mem_cons_self row.symm
    rw [ih rest.symm fun c hc d hd => same c (.tail _ hc) d (.tail _ hd)]

/-- Coalescing makes of a batch the one list with its rows, in the order in which they first occur,
and the last newest event of each. -/
theorem eq_coalesce_iff {kept : List IdentityEvent} : kept = coalesce events ↔
    kept.map IdentityEvent.key = (events.map IdentityEvent.key).eraseDups ∧
      ∀ event ∈ kept, IsLastNewest events event := by
  constructor
  · rintro rfl
    exact ⟨keys_coalesce events, fun event member => mem_coalesce_iff.1 member⟩
  · rintro ⟨rows, newest⟩
    refine eq_of_keys_eq (rows.trans (keys_coalesce events).symm) fun a ha b hb same => ?_
    exact (newest a ha).eq isTieRule_last (mem_coalesce_iff.1 hb) same

/-- Coalescing leaves a batch as it is exactly when its events are for different rows. -/
theorem coalesce_eq_self_iff :
    coalesce events = events ↔ (events.map IdentityEvent.key).Nodup := by
  constructor
  · intro kept
    rw [← kept]
    exact nodup_keys_coalesce events
  · intro distinct
    refine (eq_coalesce_iff.2 ⟨(eraseDups_of_nodup distinct).symm, fun event member => ?_⟩).symm
    exact isPicked_of_nodup distinct member

/-- The last newest events are picked again from what coalescing has kept. -/
theorem isLastNewest_coalesce_iff :
    IsLastNewest (coalesce events) event ↔ IsLastNewest events event := by
  have kept : IsLastNewest (coalesce events) event ↔ event ∈ coalesce events :=
    ⟨IsPicked.mem, isPicked_of_nodup (nodup_keys_coalesce events)⟩
  exact kept.trans mem_coalesce_iff

/-- Parts of a batch that are coalesced beforehand make no difference. -/
theorem coalesce_append (xs ys : List IdentityEvent) :
    coalesce (coalesce xs ++ coalesce ys) = coalesce (xs ++ ys) := by
  refine eq_coalesce_iff.2 ⟨?_, fun event member => ?_⟩
  · rw [keys_coalesce, List.map_append, keys_coalesce, keys_coalesce, List.map_append,
      eraseDups_append_eraseDups, eraseDups_eraseDups_append]
  · have kept := isPicked_append_iff.1 (mem_coalesce_iff.1 member)
    rw [forall_coalesce_iff UInt64.lt_of_le_of_lt, forall_coalesce_iff UInt64.le_trans] at kept
    refine isPicked_append_iff.2 (kept.imp ?_ ?_)
    · exact And.imp_left isLastNewest_coalesce_iff.1
    · exact And.imp_left isLastNewest_coalesce_iff.1

theorem coalesce_coalesce (events : List IdentityEvent) :
    coalesce (coalesce events) = coalesce events :=
  coalesce_eq_self_iff.2 (nodup_keys_coalesce events)

/-- Coalescing keeps one event for each row of a batch, in the order in which the rows first occur:
the last one of the greatest version. A batch may be coalesced in parts, and again. -/
theorem coalesce_eq_last_newest (events : List IdentityEvent) :
    ((coalesce events).map IdentityEvent.key).Nodup ∧
    (coalesce events).map IdentityEvent.key = (events.map IdentityEvent.key).eraseDups ∧
    (∀ event, event ∈ coalesce events ↔ IsLastNewest events event) ∧
    (∀ others, coalesce (events ++ others) = coalesce (coalesce events ++ coalesce others)) ∧
    coalesce (coalesce events) = coalesce events :=
  ⟨nodup_keys_coalesce events, keys_coalesce events, fun _ => mem_coalesce_iff,
    fun others => (coalesce_append events others).symm, coalesce_coalesce events⟩

end IngestLedger
