import IngestLedger.Proofs.Histories
import Mathlib.Data.Finset.Insert

/-!
# Convergence of the identity tables

The identity tables depend only on which events were delivered, when no two events for one row have
the same version: not on the calls that delivered them, nor on their order and repetition, nor on
failures and restarts in between.

Main statements:

* `Life.identity_tables_converge`: two lives with the same delivered events end with the same
  identity tables, and each row holds the event of the greatest version.
-/

namespace IngestLedger

/-- Events among which a row has at most one event of each version. -/
def Unambiguous (events : Finset IdentityEvent) : Prop :=
  ∀ a ∈ events, ∀ b ∈ events, a.key = b.key → a.version = b.version → a = b

/-- An event of the greatest version for its row. -/
def IsLatest (events : Finset IdentityEvent) (event : IdentityEvent) : Prop :=
  event ∈ events ∧ ∀ rival ∈ events, rival.key = event.key → rival.version ≤ event.version

instance (events : Finset IdentityEvent) : Decidable (Unambiguous events) :=
  inferInstanceAs (Decidable (∀ a ∈ events, ∀ b ∈ events, _))

instance (events : Finset IdentityEvent) (event : IdentityEvent) :
    Decidable (IsLatest events event) :=
  inferInstanceAs (Decidable (event ∈ events ∧ ∀ rival ∈ events, _))

variable {events : Finset IdentityEvent} {history : List IdentityEvent} {facts : Facts}

/-- The newest facts of an unambiguous history are its events of the greatest version. -/
theorem IsNewest.eq_some_iff (newest : IsNewest history facts)
    (same : ∀ event, event ∈ history ↔ event ∈ events) (unambiguous : Unambiguous events)
    {key : Key} {event : IdentityEvent} :
    facts key = some event ↔ event.key = key ∧ IsLatest events event := by
  have most : ∀ held ∈ history, held.key = key →
      (∀ other ∈ history, other.key = key → other.version ≤ held.version) →
      IsLatest events held := by
    intro held member row above
    refine ⟨(same held).1 member, fun rival inside hrow => ?_⟩
    exact above rival ((same rival).2 inside) (hrow.trans row)
  rcases newest key with ⟨free, absent⟩ | ⟨held, member, fact, row, above⟩
  · rw [free]
    refine iff_of_false nofun ?_
    rintro ⟨row, inside, -⟩
    exact absent event ((same event).2 inside) row
  · have greatest := most held member row above
    rw [fact, Option.some.injEq]
    constructor
    · rintro rfl
      exact ⟨row, greatest⟩
    · rintro ⟨hrow, inside, top⟩
      have keys : held.key = event.key := row.trans hrow.symm
      refine unambiguous held greatest.1 event inside keys ?_
      exact UInt64.le_antisymm (top held greatest.1 keys)
        (greatest.2 event inside keys.symm)

/-- Two lives that deliver the same events, in whatever calls and however often, end with the same
identity tables; and each row holds the event of the greatest version for it. -/
theorem Life.identity_tables_converge (unambiguous : Unambiguous events) (one other : Life)
    (hone : ∀ event, event ∈ one.delivered ↔ event ∈ events)
    (hother : ∀ event, event ∈ other.delivered ↔ event ∈ events) :
    (∀ table ∈ Table.identity,
      one.ledger.contents.scan table.tag = other.ledger.contents.scan table.tag) ∧
    ∀ event, one.ledger.contents.Holds event ↔ IsLatest events event := by
  obtain ⟨facts, represents, newest⟩ := one.exists_represents
  obtain ⟨others, represents', newest'⟩ := other.exists_represents
  have agree : facts = others := by
    funext key
    refine Option.ext fun event => ?_
    rw [newest.eq_some_iff hone unambiguous, newest'.eq_some_iff hother unambiguous]
  subst agree
  refine ⟨fun table member => represents.scan_eq represents' member, fun event => ?_⟩
  rw [represents.holds_iff, newest.eq_some_iff hone unambiguous]
  simp only [true_and]

/-! ### Two lives that differ in everything but their events -/

namespace LinkExample

/-- A link that comes into use. -/
def earlier : IdentityEvent := .link ⟨"0x1", "0xab", true, 3⟩

/-- The same link, going out of use later. -/
def later : IdentityEvent := .link ⟨"0x1", "0xab", false, 5⟩

/-- Both events, one after another. -/
def inOrder : Life := .inMemory
  [.call 0 (.verifyChain 1), .call 0 (.apply earlier), .call 0 (.apply later)]

/-- A failed call, both events in one batch the other way round, and one of them again after a
restart. -/
def outOfOrder : Life := .inMemory
  [.call 0 (.verifyChain 1), .disturb { write := some .notFound }, .call 1 (.apply earlier),
    .disturb {}, .call 2 (.commitBatch "p" (.live 0) ⟨0, 9, none⟩ [later, earlier]), .restart,
    .call 3 (.verifyChain 1), .call 3 (.apply earlier)]

theorem delivered_inOrder : inOrder.delivered = [earlier, later] := by decide +kernel

theorem delivered_outOfOrder : outOfOrder.delivered = [later, earlier, earlier] := by
  decide +kernel

/-- The tables at the end of the two lives are the same, and hold the later event. -/
theorem identity_tables_agree :
    Unambiguous {earlier, later} ∧
    (∀ table ∈ Table.identity,
      inOrder.ledger.contents.scan table.tag = outOfOrder.ledger.contents.scan table.tag) ∧
    inOrder.ledger.contents.Holds later := by
  have unambiguous : Unambiguous {earlier, later} := by decide
  have converged := Life.identity_tables_converge unambiguous inOrder outOfOrder
    (fun event => by rw [delivered_inOrder]; simp)
    (fun event => by rw [delivered_outOfOrder]; simp [or_comm])
  refine ⟨unambiguous, converged.1, (converged.2 later).2 ?_⟩
  decide

end LinkExample

end IngestLedger
