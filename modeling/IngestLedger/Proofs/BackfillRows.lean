import IngestLedger.Proofs.Moves
import IngestLedger.Proofs.PersistedBackfills
import Mathlib.Data.List.DropRight

/-!
# Rows of backfills

The row of a backfill is written by runs that begin it anew and by moves, with settings from the run
that was started, from the row before or from neither. However these are mixed, and whatever ends
and starts the runs were given, the row tells the greatest version since it was last begun anew, and
it is complete exactly when that version is the end that stands in it.

Main definitions:

* `sinceBegun`: what happened since a backfill was last begun anew.
* `BackfillRow.Tells`: what a row tells about moves.

Main statements:

* `Life.backfillRow_of_moves`: when a backfill has a row, and what its row tells.
-/

namespace IngestLedger

/-- The exchanges after the latest one that began a backfill anew, or all of them. -/
def sinceBegun (name : String) (exchanges : List Exchange) : List Exchange :=
  exchanges.rtakeWhile fun exchange => exchange.call.begins? ≠ some name

/-- An exchange that makes a row for a backfill: it begins it anew, or it moves it forward. -/
def Exchange.Makes (name : String) (exchange : Exchange) : Prop :=
  exchange.call.begins? = some name ∨
    ∃ moved, exchange.moved? (.backfill name) = some moved ∧ moved.outcome = .advanced

/-- What the row of a backfill tells about the moves since it was begun anew. -/
structure BackfillRow.Tells (row : BackfillRow) (moves : List Moved) : Prop where
  /-- There is a last version as soon as there was a move. -/
  none_iff : row.lastVersion = none ↔ moves = []
  /-- It is the greatest version of the moves. -/
  greatest last : row.lastVersion = some last →
    (∃ moved ∈ moves, moved.version = last) ∧ ∀ moved ∈ moves, moved.version ≤ last
  /-- It is not beyond the end. -/
  le_ending last ending : row.lastVersion = some last → row.endingVersion = some ending →
    last ≤ ending
  /-- The row is complete exactly when it is the end. -/
  complete_iff : row.status = .complete ↔
    ∃ ending, row.endingVersion = some ending ∧ row.lastVersion = some ending
  /-- Only a row that was begun anew has no last version. -/
  unmoved : row.lastVersion = none → row.overwrite = true ∧ row.transactionTime = none

section SinceBegun

variable {name : String} {past : List Exchange} {last : Exchange}

theorem sinceBegun_concat_of_begins (begins : last.call.begins? = some name) :
    sinceBegun name (past ++ [last]) = [] := by
  rw [sinceBegun, List.rtakeWhile_concat, if_neg (by simp [begins])]

theorem sinceBegun_concat_of_ne (other : last.call.begins? ≠ some name) :
    sinceBegun name (past ++ [last]) = sinceBegun name past ++ [last] := by
  rw [sinceBegun, List.rtakeWhile_concat, if_pos (decide_eq_true other)]
  rfl

/-- A call that moves a row does not begin one anew. -/
theorem Exchange.begins?_of_moved? {key : Key} {moved : Moved}
    (made : last.moved? key = some moved) : last.call.begins? = none := by
  obtain ⟨now, call, answer⟩ := last
  cases call with
  | advance | advanceBackfill | commitBatch => rfl
  | verifyChain | startOrResume | apply | resolveRange => cases made

theorem moves_sinceBegun_of_some {moved : Moved}
    (made : last.moved? (.backfill name) = some moved) :
    moves (.backfill name) (sinceBegun name (past ++ [last])) =
      moves (.backfill name) (sinceBegun name past) ++ [moved] := by
  rw [sinceBegun_concat_of_ne (by simp [Exchange.begins?_of_moved? made])]
  exact moves_concat_of_some made

end SinceBegun

/-! ### Rows that tell their moves -/

namespace BackfillRow

open Ledger

variable {row : BackfillRow} {moves : List Moved} {moved : Moved} {now : Timestamp}
  {name : String} {run : BackfillRun} {version : Version} {time : Option Timestamp}

/-- A version that is let pass is not beyond the end. -/
theorem le_of_checkEnd {ending : Option Version} (inside : checkEnd name version ending = .ok ()) :
    ∀ last, ending = some last → version ≤ last := by
  rintro last rfl
  by_contra short
  have beyond : version > last := UInt64.not_le.1 short
  simp [checkEnd, beyond] at inside

theorem tells_newBackfillRow (overwrite : run.overwrite = true) :
    (newBackfillRow now name run).Tells [] where
  none_iff := ⟨fun _ => rfl, fun _ => rfl⟩
  greatest _ none := by cases none
  le_ending _ _ none := by cases none
  complete_iff := by simp [newBackfillRow]
  unmoved _ := ⟨overwrite, rfl⟩

theorem tells_movedBackfillRow (inside : checkEnd name version run.ending = .ok ())
    (same : moved.version = version) (beyond : ∀ earlier ∈ moves, earlier.version < version) :
    (movedBackfillRow now name run version time).Tells (moves ++ [moved]) where
  none_iff := by simp [movedBackfillRow]
  greatest last here := by
    obtain rfl := Option.some.inj here
    refine ⟨⟨moved, by simp, same⟩, fun other member => ?_⟩
    rcases List.mem_append.1 member with earlier | this
    · exact UInt64.le_of_lt (beyond other earlier)
    · rw [List.mem_singleton.1 this, same]
      exact UInt64.le_refl version
  le_ending last ending here end_eq := by
    obtain rfl := Option.some.inj here
    exact le_of_checkEnd inside ending end_eq
  complete_iff := by
    constructor
    · intro complete
      cases end_eq : run.ending with
      | none => simp [movedBackfillRow, end_eq] at complete
      | some ending =>
        have reached : ending ≤ version := by
          by_contra short
          simp [movedBackfillRow, end_eq, short] at complete
        refine ⟨ending, end_eq, ?_⟩
        exact congrArg some (UInt64.le_antisymm (le_of_checkEnd inside ending end_eq) reached)
    · rintro ⟨ending, end_eq, here⟩
      obtain rfl : version = ending := Option.some.inj here
      have end_eq : run.ending = some version := end_eq
      simp [movedBackfillRow, end_eq]
  unmoved none := by cases none

theorem Tells.concat_stale (h : row.Tells moves) {last : Version}
    (held : row.lastVersion = some last) (stale : moved.version ≤ last) :
    row.Tells (moves ++ [moved]) where
  none_iff := by simp [held]
  greatest other here := by
    obtain rfl := Option.some.inj (held.symm.trans here)
    obtain ⟨⟨top, member, version⟩, most⟩ := h.greatest last held
    refine ⟨⟨top, List.mem_append_left _ member, version⟩, fun other member => ?_⟩
    rcases List.mem_append.1 member with earlier | this
    · exact most other earlier
    · rwa [List.mem_singleton.1 this]
  le_ending := h.le_ending
  complete_iff := h.complete_iff
  unmoved := h.unmoved

end BackfillRow

/-! ### What answered calls preserve -/

namespace Ledger

/-- A call that begins a backfill anew leaves it a row without progress. -/
theorem row?_of_begins {ledger after : Ledger} {now : Timestamp} {call : Call} {answer : Answer}
    {name : String} (performed : ledger.perform now call = (.ok answer, after))
    (begins : call.begins? = some name) :
    ∃ run : BackfillRun, run.overwrite = true ∧
      after.contents.row? BackfillRow (.backfill name) = some (newBackfillRow now name run) := by
  obtain ⟨changes, planned, carried⟩ := perform_ok performed
  rw [carried.contents]
  cases call with
  | startOrResume begun run =>
    obtain ⟨plan, planned, -⟩ := planAnswering_eq_ok_iff.1 planned
    obtain ⟨overwrite, same⟩ := Option.ite_none_right_eq_some.1 begins
    obtain rfl := Option.some.inj same
    exact ⟨run, overwrite, row?_of_planStart overwrite planned _⟩
  | resolveRange processor mode =>
    obtain ⟨range, planned, -⟩ := planAnswering_eq_ok_iff.1 planned
    cases mode with
    | backfill id initial ending overwrite =>
      obtain ⟨plan, planned, -⟩ := planAnswering_eq_ok_iff.1 planned
      obtain ⟨overwrite, same⟩ := Option.ite_none_right_eq_some.1 begins
      obtain rfl := Option.some.inj same
      exact ⟨_, overwrite, row?_of_planStart overwrite planned _⟩
    | live | testing => cases begins
  | verifyChain | advance | advanceBackfill | apply | commitBatch => cases begins

end Ledger

/-- The row of a backfill is there as soon as something made it, and tells the moves since it was
begun anew. -/
structure KeepsRow (name : String) (store : Store) (past : List Exchange) : Prop where
  isSome_iff : (store.row? BackfillRow (.backfill name)).isSome ↔
    ∃ exchange ∈ past, exchange.Makes name
  moves_nil : store.row? BackfillRow (.backfill name) = none →
    moves (.backfill name) (sinceBegun name past) = []
  tells row : store.row? BackfillRow (.backfill name) = some row →
    row.Tells (moves (.backfill name) (sinceBegun name past))

namespace KeepsRow

variable {name : String} {store after : Store} {past : List Exchange} {last : Exchange}

theorem empty (name : String) : KeepsRow name .empty [] := by
  have absent : Store.empty.row? BackfillRow (.backfill name) = none := by
    rw [Store.row?, Store.value?_empty]
    rfl
  refine ⟨by simp [absent], fun _ => rfl, fun row held => ?_⟩
  rw [absent] at held
  cases held

theorem of_row_eq (h : KeepsRow name store past)
    (row : after.row? BackfillRow (.backfill name) = store.row? BackfillRow (.backfill name)) :
    KeepsRow name after past := by
  constructor
  · rw [row]
    exact h.isSome_iff
  · rw [row]
    exact h.moves_nil
  · rw [row]
    exact h.tells

/-- A row that is there from now on. -/
theorem of_makes {row : BackfillRow} (makes : last.Makes name)
    (held : after.row? BackfillRow (.backfill name) = some row)
    (tells : row.Tells (moves (.backfill name) (sinceBegun name (past ++ [last])))) :
    KeepsRow name after (past ++ [last]) := by
  refine ⟨by simp [held, makes], fun none => ?_, fun row' held' => ?_⟩
  · rw [held] at none
    cases none
  · exact Option.some.inj (held.symm.trans held') ▸ tells

theorem concat_other (h : KeepsRow name store past) (unmoved : last.moved? (.backfill name) = none)
    (other : last.call.begins? ≠ some name) : KeepsRow name store (past ++ [last]) := by
  have same : moves (.backfill name) (sinceBegun name (past ++ [last])) =
      moves (.backfill name) (sinceBegun name past) := by
    rw [sinceBegun_concat_of_ne other]
    exact moves_concat_of_none unmoved
  have makes : ¬ last.Makes name := by
    rintro (begins | ⟨moved, made, -⟩)
    · exact other begins
    · rw [unmoved] at made
      cases made
  refine ⟨?_, by rw [same]; exact h.moves_nil, by rw [same]; exact h.tells⟩
  rw [h.isSome_iff]
  simp [or_and_right, exists_or, makes]

theorem concat_stale (h : KeepsRow name store past) {row : BackfillRow} {version : Version}
    (held : store.row? BackfillRow (.backfill name) = some row)
    (version_eq : row.lastVersion = some version) {moved : Moved}
    (made : last.moved? (.backfill name) = some moved) (stale : moved.version ≤ version) :
    KeepsRow name store (past ++ [last]) := by
  obtain ⟨exchange, member, makes⟩ := h.isSome_iff.1 (by simp [held])
  refine ⟨?_, fun none => ?_, fun row' held' => ?_⟩
  · simp only [held, Option.isSome_some, true_iff]
    exact ⟨exchange, List.mem_append_left _ member, makes⟩
  · rw [held] at none
    cases none
  · obtain rfl := Option.some.inj (held.symm.trans held')
    rw [moves_sinceBegun_of_some made]
    exact (h.tells row held).concat_stale version_eq stale

/-- A move beyond the last version in the row is one beyond all moves since it was begun anew. -/
theorem lt_of_beyond (h : KeepsRow name store past) {version : Version}
    (beyond : ∀ last, (store.row? BackfillRow (.backfill name)).bind BackfillRow.lastVersion =
      some last → last < version) :
    ∀ earlier ∈ moves (.backfill name) (sinceBegun name past), earlier.version < version := by
  intro earlier member
  cases held : store.row? BackfillRow (.backfill name) with
  | none =>
    rw [h.moves_nil held] at member
    cases member
  | some row =>
    have tells := h.tells row held
    cases version_eq : row.lastVersion with
    | none =>
      rw [tells.none_iff.1 version_eq] at member
      cases member
    | some last =>
      have less : last < version := beyond last (by rw [held, Option.bind_some, version_eq])
      exact UInt64.lt_of_le_of_lt ((tells.greatest last version_eq).2 earlier member) less

/-- Every answered call keeps the row of a backfill so. -/
theorem isPreserved (name : String) : IsPreserved (KeepsRow name) where
  opened written h := h.of_row_eq (Store.row?_congr (written.value?_eq (by simp)))
  answered := by
    intro ledger after now call answer past performed h
    by_cases begins : call.begins? = some name
    · obtain ⟨run, overwrite, row⟩ := Ledger.row?_of_begins performed begins
      refine of_makes (.inl begins) row ?_
      rw [sinceBegun_concat_of_begins begins]
      exact BackfillRow.tells_newBackfillRow overwrite
    · rcases Ledger.perform_moved performed .backfill name with
        ⟨move, outcome, changes, made, same, planned, answered, value⟩ | ⟨other, kept | ⟨-, anew⟩⟩
      · obtain ⟨kind, moving, version, time⟩ := move
        obtain ⟨rfl, rfl⟩ : kind = .backfill ∧ moving = name := ProgressKind.eq_of_key same
        have moved : Exchange.moved? (.backfill moving) ⟨now, call, answer⟩ = some _ :=
          Exchange.moved?_of_move made same answered
        obtain ⟨bytes, stored, run, hkey, read, -, inside, ⟨⟨last, here, stale⟩, rfl, rfl⟩ |
          ⟨beyond, rfl, value', encoded, rfl⟩⟩ := Ledger.planBackfillAdvance_ok planned
        · rw [Ledger.keyBytes_eq_ok_iff] at hkey
          obtain ⟨row, rfl, version_eq⟩ := Option.bind_eq_some_iff.1 here
          have held := Ledger.row?_of_readRow hkey read
          exact (h.concat_stale held version_eq moved stale).of_row_eq (Store.row?_congr value)
        · rw [Ledger.keyBytes_eq_ok_iff] at hkey
          rw [← Ledger.row?_of_readRow hkey read] at beyond
          refine of_makes (.inr ⟨_, moved, rfl⟩) (Store.row?_of_encode encoded ?_) ?_
          · exact value.trans (Store.value?_insertAll_single _ hkey value')
          · rw [moves_sinceBegun_of_some moved]
            exact BackfillRow.tells_movedBackfillRow inside rfl (h.lt_of_beyond beyond)
      · have unmoved : Exchange.moved? (.backfill name) ⟨now, call, answer⟩ = none :=
          Exchange.moved?_of_forall_ne other
        exact (h.concat_other unmoved begins).of_row_eq (Store.row?_congr kept)
      · exact absurd anew begins

end KeepsRow

/-- In every life and for every name, a backfill has a row exactly when it was begun anew or moved
forward by an answered call. Its row tells the greatest version of all answered moves since it was
last begun anew, or none without any; that version is never beyond the end in the row, the row is
complete exactly when it is the end, and a row without a last version was begun anew and has no time
of a transaction. The settings of the runs do not matter for this. -/
theorem Life.backfillRow_of_moves (life : Life) (name : String) :
    ((life.ledger.contents.value? (.backfill name)).isSome ↔
      ∃ exchange ∈ life.exchanges, exchange.Makes name) ∧
    ∀ value, life.ledger.contents.value? (.backfill name) = some value →
      ∃ row : BackfillRow, Record.encode row = .ok value ∧ row.name = name ∧
        row.Tells (moves (.backfill name) (sinceBegun name life.exchanges)) := by
  have keeps := life.holds_along (KeepsRow.isPreserved name) (.empty name)
  have stored value (here : life.ledger.contents.value? (.backfill name) = some value) :
      ∃ row : BackfillRow, Record.encode row = .ok value ∧ row.name = name ∧
        life.ledger.contents.row? BackfillRow (.backfill name) = some row := by
    obtain ⟨row, same, encoded⟩ := life.isWellFormed _ value here
    exact ⟨row, encoded, same, Store.row?_of_encode encoded here⟩
  constructor
  · rw [← keeps.isSome_iff]
    cases here : life.ledger.contents.value? (.backfill name) with
    | none => simp [Store.row?, here]
    | some value =>
      obtain ⟨row, -, -, held⟩ := stored value here
      simp [held]
  · intro value here
    obtain ⟨row, encoded, same, held⟩ := stored value here
    exact ⟨row, encoded, same, keeps.tells row held⟩

/-! ### Runs with different ends -/

namespace DifferentEnds

/-- A backfill is resumed with a greater end after it was complete, goes on after a restart by the
settings in its row, and is then begun anew with a smaller end. -/
def life : Life := .inMemory
  [.call 0 (.verifyChain 1), .call 1 (.startOrResume "b" ⟨0, some 10, false⟩),
    .call 2 (.advanceBackfill "b" 10 (some 5)), .call 3 (.startOrResume "b" ⟨0, some 20, false⟩),
    .call 4 (.advanceBackfill "b" 12 none), .restart, .call 5 (.verifyChain 1),
    .call 6 (.advanceBackfill "b" 20 none), .call 7 (.startOrResume "b" ⟨3, some 8, true⟩),
    .call 8 (.advanceBackfill "b" 8 (some 9)), .call 9 (.advanceBackfill "b" 6 none)]

theorem moves_life : moves (.backfill "b") (sinceBegun "b" life.exchanges) =
    [⟨8, 8, some 9, .advanced⟩, ⟨6, 9, none, .stale⟩] := by
  decide +kernel

/-- The versions before it was begun anew do not count. -/
theorem lastVersion_life : ∃ value, life.ledger.contents.value? (.backfill "b") = some value ∧
    ∃ row : BackfillRow, Record.encode row = .ok value ∧ row.lastVersion = some 8 := by
  obtain ⟨value, here⟩ := Option.isSome_iff_exists.1
    (by decide +kernel : (life.ledger.contents.value? (.backfill "b")).isSome)
  obtain ⟨row, encoded, -, tells⟩ := (life.backfillRow_of_moves "b").2 value here
  rw [moves_life] at tells
  refine ⟨value, here, row, encoded, ?_⟩
  cases last_eq : row.lastVersion with
  | none => cases tells.none_iff.1 last_eq
  | some last =>
    obtain ⟨⟨moved, member, rfl⟩, most⟩ := tells.greatest last last_eq
    have reached : (8 : Version) ≤ moved.version := most ⟨8, 8, some 9, .advanced⟩ (by simp)
    rcases List.mem_pair.1 member with rfl | rfl
    · rfl
    · exact absurd reached (by decide)

end DifferentEnds

end IngestLedger
