import IngestLedger.Proofs.KeyLayout
import IngestLedger.Proofs.Moves

/-!
# Progress of live runs as a maximum

The row of a processor is a function of the answered moves of its row, in whatever order they came,
however often they were repeated and whatever happened between them. It tells the greatest version
and the two times of the first move that brought it; a later move of that version changes nothing.

Main definitions:

* `IsFirstGreatest`: the first of the moves of the greatest version.
* `AnsweredInTurn`: the moves that go beyond all earlier ones are answered as progress.

Main statements:

* `Life.checkpoint_of_moves`: the progress of a processor, from its moves.
-/

namespace IngestLedger

/-! ### The first greatest move -/

/-- The first of the moves of the greatest version. -/
def IsFirstGreatest (moves : List Moved) (first : Moved) : Prop :=
  ∃ before after, moves = before ++ first :: after ∧
    (∀ earlier ∈ before, earlier.version < first.version) ∧
    ∀ later ∈ after, later.version ≤ first.version

/-- A move is answered as progress exactly when it goes beyond all earlier ones. -/
def AnsweredInTurn (moves : List Moved) : Prop :=
  ∀ before moved after, moves = before ++ moved :: after →
    moved.outcome =
      if ∀ earlier ∈ before, earlier.version < moved.version then .advanced else .stale

namespace IsFirstGreatest

variable {moves : List Moved} {first last other : Moved}

theorem mem (h : IsFirstGreatest moves first) : first ∈ moves := by
  obtain ⟨before, after, rfl, -, -⟩ := h
  simp

theorem le (h : IsFirstGreatest moves first) {moved : Moved} (member : moved ∈ moves) :
    moved.version ≤ first.version := by
  obtain ⟨before, after, rfl, less, most⟩ := h
  rcases List.mem_append.1 member with here | here
  · exact UInt64.le_of_lt (less moved here)
  · rcases List.mem_cons.1 here with rfl | here
    · exact UInt64.le_refl _
    · exact most moved here

/-- There is one first greatest move at most. -/
theorem eq (h : IsFirstGreatest moves first) (h' : IsFirstGreatest moves other) :
    first = other := by
  have same : first.version = other.version := UInt64.le_antisymm (h'.le h.mem) (h.le h'.mem)
  obtain ⟨before, after, rfl, less, -⟩ := h
  obtain ⟨before', after', split, less', -⟩ := h'
  -- of two places the earlier one would hold a smaller version
  rcases List.append_eq_append_iff.1 split with ⟨between, rfl, rest⟩ | ⟨between, rfl, rest⟩
  · cases between with
    | nil => exact (List.cons.inj rest).1
    | cons head between =>
      obtain ⟨rfl, -⟩ := List.cons.inj rest
      exact absurd (same ▸ less' first (by simp)) (UInt64.lt_irrefl _)
  · cases between with
    | nil => exact (List.cons.inj rest).1.symm
    | cons head between =>
      obtain ⟨rfl, -⟩ := List.cons.inj rest
      exact absurd (same ▸ less other (by simp)) (UInt64.lt_irrefl _)

theorem concat_of_le (h : IsFirstGreatest moves first) (stale : last.version ≤ first.version) :
    IsFirstGreatest (moves ++ [last]) first := by
  obtain ⟨before, after, rfl, less, most⟩ := h
  refine ⟨before, after ++ [last], by simp, less, fun later member => ?_⟩
  rcases List.mem_append.1 member with here | here
  · exact most later here
  · rwa [List.mem_singleton.1 here]

theorem concat_of_lt (beyond : ∀ earlier ∈ moves, earlier.version < last.version) :
    IsFirstGreatest (moves ++ [last]) last :=
  ⟨moves, [], rfl, beyond, by simp⟩

end IsFirstGreatest

theorem AnsweredInTurn.concat {moves : List Moved} {last : Moved} (h : AnsweredInTurn moves)
    (turn : last.outcome =
      if ∀ earlier ∈ moves, earlier.version < last.version then .advanced else .stale) :
    AnsweredInTurn (moves ++ [last]) := by
  intro before moved after split
  rcases List.eq_nil_or_concat after with rfl | ⟨after, final, rfl⟩
  · obtain ⟨rfl, same⟩ := List.append_inj' split rfl
    obtain rfl := (List.cons.inj same).1
    exact turn
  · have front : moves ++ [last] = (before ++ moved :: after) ++ [final] := by simpa using split
    exact h before moved after (List.append_inj' front rfl).1

/-! ### What answered calls preserve -/

/-- The row of a processor is told by the answered moves of it. -/
structure FollowsMoves (processor : String) (store : Store) (past : List Exchange) : Prop where
  outcomes : AnsweredInTurn (moves (.processor processor) past)
  none_iff : store.row? ProcessorRow (.processor processor) = none ↔
    moves (.processor processor) past = []
  greatest row : store.row? ProcessorRow (.processor processor) = some row →
    ∃ first, IsFirstGreatest (moves (.processor processor) past) first ∧
      row = ⟨processor, first.version, first.now, first.time⟩

namespace FollowsMoves

variable {processor : String} {store after : Store} {past : List Exchange}

theorem empty (processor : String) : FollowsMoves processor .empty [] := by
  have absent : Store.empty.row? ProcessorRow (.processor processor) = none := by
    rw [Store.row?, Store.value?_empty]
    rfl
  refine ⟨fun before moved after split => ?_, ⟨fun _ => rfl, fun _ => absent⟩, fun row held => ?_⟩
  · simp [moves] at split
  · rw [absent] at held
    cases held

/-- Calls that neither write to the row nor move it do not matter. -/
theorem congr (h : FollowsMoves processor store past)
    (value : after.value? (.processor processor) = store.value? (.processor processor))
    {last : List Exchange} (same : moves (.processor processor) last =
      moves (.processor processor) past) : FollowsMoves processor after last := by
  have row := Store.row?_congr (α := ProcessorRow) value
  constructor
  · rw [same]
    exact h.outcomes
  · rw [row, same]
    exact h.none_iff
  · rw [row, same]
    exact h.greatest

theorem concat_stale (h : FollowsMoves processor store past) {row : ProcessorRow}
    (held : store.row? ProcessorRow (.processor processor) = some row) {last : Exchange}
    {moved : Moved} (made : last.moved? (.processor processor) = some moved)
    (stale : moved.version ≤ row.lastVersion) (outcome : moved.outcome = .stale) :
    FollowsMoves processor store (past ++ [last]) := by
  obtain ⟨first, greatest, rfl⟩ := h.greatest row held
  have whole : moves (.processor processor) (past ++ [last]) = _ := moves_concat_of_some made
  constructor
  · rw [whole]
    refine h.outcomes.concat (outcome.trans (if_neg fun beyond => ?_).symm)
    exact UInt64.not_lt.2 stale (beyond first greatest.mem)
  · rw [whole, held]
    simp
  · intro row' held'
    rw [whole]
    obtain rfl := Option.some.inj (held.symm.trans held')
    exact ⟨first, greatest.concat_of_le stale, rfl⟩

theorem concat_advanced (h : FollowsMoves processor store past) {last : Exchange} {moved : Moved}
    (made : last.moved? (.processor processor) = some moved)
    (beyond : ∀ row, store.row? ProcessorRow (.processor processor) = some row →
      row.lastVersion < moved.version) (outcome : moved.outcome = .advanced)
    (written : after.row? ProcessorRow (.processor processor) =
      some ⟨processor, moved.version, moved.now, moved.time⟩) :
    FollowsMoves processor after (past ++ [last]) := by
  have whole : moves (.processor processor) (past ++ [last]) = _ := moves_concat_of_some made
  have all : ∀ earlier ∈ moves (.processor processor) past, earlier.version < moved.version := by
    intro earlier member
    cases held : store.row? ProcessorRow (.processor processor) with
    | none =>
      rw [h.none_iff.1 held] at member
      cases member
    | some row =>
      obtain ⟨first, greatest, rfl⟩ := h.greatest row held
      exact UInt64.lt_of_le_of_lt (greatest.le member) (beyond _ held)
  constructor
  · rw [whole]
    exact h.outcomes.concat (outcome.trans (if_pos all).symm)
  · rw [whole, written]
    simp
  · intro row held
    rw [whole]
    obtain rfl := Option.some.inj (written.symm.trans held)
    exact ⟨moved, .concat_of_lt all, rfl⟩

end FollowsMoves

/-- Every answered call makes the row of a processor what its moves tell. -/
theorem FollowsMoves.isPreserved (processor : String) : IsPreserved (FollowsMoves processor) where
  opened written h := by
    refine h.congr (written.value?_eq ?_) rfl
    simp
  answered := by
    intro ledger after now call answer past performed h
    rcases Ledger.perform_moved performed .live processor with
      ⟨move, outcome, changes, made, same, planned, answered, value⟩ | ⟨other, kept | ⟨foreign, -⟩⟩
    · obtain ⟨kind, name, version, time⟩ := move
      obtain ⟨rfl, rfl⟩ : kind = .live ∧ name = processor := ProgressKind.eq_of_key same
      have moved : Exchange.moved? (.processor name) ⟨now, call, answer⟩ = some _ :=
        Exchange.moved?_of_move made same answered
      obtain ⟨bytes, stored, hkey, read, ⟨⟨last, here, stale⟩, rfl, rfl⟩ |
        ⟨beyond, rfl, value', encoded, rfl⟩⟩ := Ledger.planAdvance_ok planned
      · rw [Ledger.keyBytes_eq_ok_iff] at hkey
        obtain ⟨row, rfl, rfl⟩ := Option.map_eq_some_iff.1 here
        have held := Ledger.row?_of_readRow hkey read
        exact (h.concat_stale held moved stale rfl).congr value rfl
      · rw [Ledger.keyBytes_eq_ok_iff] at hkey
        have held := Ledger.row?_of_readRow hkey read
        refine h.concat_advanced moved (fun row here => ?_) rfl (Store.row?_of_encode encoded ?_)
        · exact beyond _ (congrArg _ (held.symm.trans here))
        · exact value.trans (Store.value?_insertAll_single _ hkey value')
    · exact h.congr kept (moves_concat_of_none (Exchange.moved?_of_forall_ne other))
    · cases foreign

section Checkpoint

variable {ledger : Ledger} {processor : String}

/-- The progress that is read of a processor is its row. -/
theorem Ledger.checkpoint_of_nameable (wellFormed : ledger.contents.IsWellFormed)
    (reads : ledger.backend.faults.get = none) (nameable : Nameable processor) :
    ledger.checkpoint processor =
      .ok (ledger.contents.row? ProcessorRow (.processor processor)) := by
  obtain ⟨bytes, hkey⟩ : ∃ bytes, (Key.processor processor).bytes = .ok bytes := by
    rw [Key.exists_bytes_iff]
    simpa [Key.components] using nameable
  obtain ⟨stored, read⟩ := exists_readRow (α := ProcessorRow) reads hkey fun value here => by
    obtain ⟨row, -, encoded⟩ := wellFormed _ value here
    exact ⟨row, encoded⟩
  rw [row?_of_readRow hkey read]
  exact bind_eq_ok_iff.2 ⟨bytes, keyBytes_eq_ok_iff.2 hkey, read⟩

/-- A processor whose name cannot stand in a key has no row, and none can be asked for. -/
theorem Ledger.checkpoint_of_not_nameable (unnameable : ¬ Nameable processor) :
    ledger.contents.row? ProcessorRow (.processor processor) = none ∧
      ∃ reason, ledger.checkpoint processor = .error (.invalidKey reason) := by
  cases hkey : (Key.processor processor).bytes with
  | ok bytes =>
    have nameable := Key.exists_bytes_iff.1 ⟨bytes, hkey⟩
    exact absurd (by simpa [Key.components] using nameable) unnameable
  | error fault =>
    refine ⟨?_, fault.message, ?_⟩
    · simp only [Store.row?, Store.value?, hkey]
      rfl
    · simp only [checkpoint, fetch, keyBytes, hkey]
      rfl

end Checkpoint

/-- The progress of a processor is a function of the answered moves of its row alone, whatever else
happened in a life. Every move is answered as progress exactly when it goes beyond all earlier ones.
There is a row exactly when there was a move, and it tells the version and the times of the first
move of the greatest version. A name that cannot stand in a key is never moved and has no row to
ask for. -/
theorem Life.checkpoint_of_moves (life : Life) (processor : String) :
    AnsweredInTurn (moves (.processor processor) life.exchanges) ∧
    (Nameable processor → life.ledger.backend.faults.get = none →
      ∃ stored, life.ledger.checkpoint processor = .ok stored ∧
        (stored = none ↔ moves (.processor processor) life.exchanges = []) ∧
        ∀ row, stored = some row →
          ∃ first, IsFirstGreatest (moves (.processor processor) life.exchanges) first ∧
            row = ⟨processor, first.version, first.now, first.time⟩) ∧
    (¬ Nameable processor → moves (.processor processor) life.exchanges = [] ∧
      ∃ reason, life.ledger.checkpoint processor = .error (.invalidKey reason)) := by
  have follows := life.holds_along (FollowsMoves.isPreserved processor) (.empty processor)
  refine ⟨follows.outcomes, fun nameable reads => ?_, fun unnameable => ?_⟩
  · exact ⟨_, Ledger.checkpoint_of_nameable life.isWellFormed reads nameable, follows.none_iff,
      follows.greatest⟩
  · obtain ⟨absent, refused⟩ := Ledger.checkpoint_of_not_nameable unnameable
    exact ⟨follows.none_iff.1 absent, refused⟩

/-! ### A version that comes twice -/

namespace RepeatedVersion

/-- A processor comes to the version 9 twice, at first with a batch and then on its own. -/
def life : Life := .inMemory
  [.call 0 (.verifyChain 1), .call 1 (.advance "p" 5 (some 10)),
    .call 2 (.commitBatch "p" (.live 0) ⟨6, 9, some 20⟩ []), .call 3 (.advance "q" 12 none),
    .restart, .call 4 (.verifyChain 1), .call 5 (.advance "p" 9 (some 30)),
    .call 6 (.advance "p" 7 none)]

theorem moves_life : moves (.processor "p") life.exchanges =
    [⟨5, 1, some 10, .advanced⟩, ⟨9, 2, some 20, .advanced⟩, ⟨9, 5, some 30, .stale⟩,
      ⟨7, 6, none, .stale⟩] := by
  decide +kernel

/-- The row tells the times of the batch. -/
theorem checkpoint_life : life.ledger.checkpoint "p" = .ok (some ⟨"p", 9, 2, some 20⟩) := by
  obtain ⟨stored, answered, none_iff, told⟩ :=
    (life.checkpoint_of_moves "p").2.1 (by decide) (by decide +kernel)
  rw [moves_life] at none_iff told
  cases stored with
  | none => cases none_iff.1 rfl
  | some row =>
    obtain ⟨first, greatest, rfl⟩ := told row rfl
    have second : IsFirstGreatest _ ⟨9, 2, some 20, .advanced⟩ :=
      ⟨[⟨5, 1, some 10, .advanced⟩], [⟨9, 5, some 30, .stale⟩, ⟨7, 6, none, .stale⟩], rfl,
        by decide, by decide⟩
    rw [answered, greatest.eq second]

end RepeatedVersion

end IngestLedger
