import IngestLedger.Proofs.Histories
import IngestLedger.Proofs.Plans

/-!
# Moves of progress rows in a history

A progress row is moved by single calls and by batches, and the row of a backfill may also begin
anew. What a history has done to a row can be told from its answered calls alone: calls that failed,
failures of the store and restarts leave the row as it was.

Main definitions:

* `Move`, `Call.move?`: the progress row that a call moves.
* `Call.begins?`: the backfill whose row a call begins anew.
* `Exchange`, `Session.exchanges`: the answered calls of a history.
* `moves`: what the moves of one row were and how they were answered.

Main statements:

* `Ledger.plan_commit`: a call that needs a verified chain moves a progress row and applies events.
* `Ledger.perform_moved`: a call moves a progress row, begins it anew, or leaves it.
* `Life.holds_along`: what every answered call preserves holds along a life.
-/

namespace IngestLedger

/-! ### What a call moves -/

/-- The key of a progress row. -/
def ProgressKind.key (name : String) : ProgressKind → Key
  | live => .processor name
  | backfill => .backfill name

/-- A move of a progress row to a version. -/
structure Move where
  kind : ProgressKind
  name : String
  version : Version
  time : Option Timestamp
  deriving DecidableEq, Repr

/-- The key of the row that is moved. -/
def Move.key (move : Move) : Key := move.kind.key move.name

/-- The move that the end of a batch makes in a mode. -/
def RunMode.move? (processor : String) (batch : BatchInfo) : RunMode → Option Move
  | live _ => some ⟨.live, processor, batch.last, batch.timestamp⟩
  | backfill id .. => some ⟨.backfill, backfillAlias processor id, batch.last, batch.timestamp⟩
  | testing .. => none

namespace Call

/-- The move that a call makes. -/
def move? : Call → Option Move
  | advance processor version time => some ⟨.live, processor, version, time⟩
  | advanceBackfill name version time => some ⟨.backfill, name, version, time⟩
  | commitBatch processor mode batch _ => mode.move? processor batch
  | _ => none

/-- The backfill whose row a call begins anew. -/
def begins? : Call → Option String
  | startOrResume name run => if run.overwrite then some name else none
  | resolveRange processor (.backfill id _ _ overwrite) =>
    if overwrite then some (backfillAlias processor id) else none
  | _ => none

/-- The calls that need a verified chain whatever they are given. -/
def commits : Call → Bool
  | advance .. | advanceBackfill .. | apply _ | commitBatch .. => true
  | _ => false

theorem commits_of_move? {call : Call} {move : Move} (h : call.move? = some move) :
    call.commits = true := by
  cases call with
  | advance | advanceBackfill | commitBatch => rfl
  | verifyChain | startOrResume | apply | resolveRange => cases h

end Call

namespace Answer

/-- What an answer tells about a progress row. -/
def checkpoint? : Answer → Option CheckpointOutcome
  | advance outcome => some outcome.forBatch
  | batch outcome => some outcome.checkpoint
  | _ => none

/-- What an answer tells about identity events. -/
def tally : Answer → ApplyTally
  | apply outcome => ApplyTally.add ⟨0, 0⟩ outcome
  | batch outcome => outcome.events
  | _ => ⟨0, 0⟩

end Answer

@[simp] theorem Changes.append_nothing (changes : Changes) : changes ++ nothing = changes := by
  show Changes.mk (changes.entries ++ []) (changes.counted ++ []) = changes
  rw [List.append_nil, List.append_nil]

theorem ProgressKind.table_key (kind : ProgressKind) (name : String) :
    (kind.key name).table = kind.table := by
  cases kind <;> rfl

theorem ProgressKind.eq_of_key {kind other : ProgressKind} {name moving : String}
    (same : kind.key name = other.key moving) : kind = other ∧ name = moving := by
  cases kind <;> cases other <;> cases same <;> exact ⟨rfl, rfl⟩

namespace Ledger

variable {ledger after : Ledger} {now : Timestamp} {call : Call} {answer : Answer}
  {changes : Changes}

/-- What a move changes. -/
def planMove (ledger : Ledger) (now : Timestamp) (move : Move) :
    Except LedgerError (AdvanceOutcome × Changes) :=
  match move.kind with
  | .live => ledger.planAdvance now move.name move.version move.time
  | .backfill => ledger.planBackfillAdvance now move.name move.version move.time

/-- The planned changes of a progress row, with what is answered about it. -/
def PlansMove (ledger : Ledger) (now : Timestamp) (move? : Option Move)
    (checkpoint? : Option CheckpointOutcome) (changes : Changes) : Prop :=
  match move? with
  | some move => ∃ outcome, ledger.planMove now move = .ok (outcome, changes) ∧
      checkpoint? = some outcome.forBatch
  | none => changes = .nothing ∧ ∀ outcome : AdvanceOutcome, checkpoint? ≠ some outcome.forBatch

theorem plansMove_of_planCheckpoint {processor : String} {batch : BatchInfo} {mode : RunMode}
    {outcome : CheckpointOutcome}
    (planned : ledger.planCheckpoint now processor batch mode = .ok (outcome, changes)) :
    ledger.PlansMove now (mode.move? processor batch) (some outcome) changes := by
  rcases planCheckpoint_cases planned with ⟨initial, moved, rfl, advancing, rfl⟩ |
    ⟨id, initial, ending, overwrite, moved, rfl, advancing, rfl⟩ | ⟨start, ending, rfl, rfl, rfl⟩
  · exact ⟨moved, advancing, rfl⟩
  · exact ⟨moved, advancing, rfl⟩
  · exact ⟨rfl, fun outcome => by cases outcome <;> simp [AdvanceOutcome.forBatch]⟩

/-- A call that needs a verified chain plans the move of a progress row and then its events, one for
each row. -/
theorem plan_commit (commits : call.commits = true)
    (planned : ledger.plan now call = .ok (answer, changes)) :
    ∃ progress rest, ledger.PlansMove now call.move? answer.checkpoint? progress ∧
      ledger.planEvents (coalesce call.events) = .ok (answer.tally, rest) ∧
      changes = progress ++ rest := by
  cases call with
  | advance processor version time =>
    obtain ⟨outcome, guarded, rfl⟩ := planAnswering_eq_ok_iff.1 planned
    obtain ⟨-, -, advancing⟩ := bind_eq_ok_iff.1 guarded
    exact ⟨changes, .nothing, ⟨outcome, advancing, rfl⟩, rfl, changes.append_nothing.symm⟩
  | advanceBackfill name version time =>
    obtain ⟨outcome, guarded, rfl⟩ := planAnswering_eq_ok_iff.1 planned
    obtain ⟨-, -, advancing⟩ := bind_eq_ok_iff.1 guarded
    exact ⟨changes, .nothing, ⟨outcome, advancing, rfl⟩, rfl, changes.append_nothing.symm⟩
  | apply event =>
    obtain ⟨outcome, guarded, rfl⟩ := planAnswering_eq_ok_iff.1 planned
    obtain ⟨-, -, applying⟩ := bind_eq_ok_iff.1 guarded
    refine ⟨.nothing, changes, ⟨rfl, by simp [Answer.checkpoint?]⟩, ?_, rfl⟩
    show ledger.planEvents [event] = _
    simp only [planEvents, applying]
    exact congrArg (fun c => Except.ok (_, c)) changes.append_nothing
  | commitBatch processor mode batch events =>
    obtain ⟨outcome, guarded, rfl⟩ := planAnswering_eq_ok_iff.1 planned
    obtain ⟨-, -, planned⟩ := bind_eq_ok_iff.1 guarded
    obtain ⟨progress, rest, hprogress, hrest, rfl⟩ := planBatch_eq_ok_iff.1 planned
    exact ⟨progress, rest, plansMove_of_planCheckpoint hprogress, hrest, rfl⟩
  | verifyChain | startOrResume | resolveRange => cases commits

theorem within_planMove {move : Move} {outcome : AdvanceOutcome}
    (planned : ledger.planMove now move = .ok (outcome, changes)) :
    changes.Within [move.key] := by
  obtain ⟨kind, name, version, time⟩ := move
  cases kind with
  | live => exact within_planAdvance planned
  | backfill => exact within_planBackfillAdvance planned

/-- The other calls write to a progress row to begin it anew at most. -/
theorem begins?_of_mem_footprint (single : call.commits = false) {kind : ProgressKind}
    {name : String} (inside : kind.key name ∈ call.footprint) :
    kind = .backfill ∧ call.begins? = some name := by
  have begins {run : BackfillRun} {begun : String} (inside : kind.key name ∈ run.keys begun) :
      kind = .backfill ∧ (if run.overwrite then some begun else none) = some name := by
    unfold BackfillRun.keys at inside
    split at inside
    · rename_i overwrite
      cases kind with
      | live => cases List.mem_singleton.1 inside
      | backfill =>
        obtain rfl := Key.backfill.inj (List.mem_singleton.1 inside)
        exact ⟨rfl, if_pos overwrite⟩
    · cases inside
  cases call with
  | verifyChain chain => cases kind <;> cases List.mem_singleton.1 inside
  | startOrResume begun run => exact begins inside
  | resolveRange processor mode =>
    cases mode with
    | backfill id initial ending overwrite => exact begins inside
    | live initial => cases inside
    | testing start ending => cases inside
  | advance | advanceBackfill | apply | commitBatch => cases single

/-- The events of a call leave the progress rows as its move has made them. -/
theorem value?_of_carriesOut {progress rest : Changes} {events : List IdentityEvent}
    {tally : ApplyTally} (carried : ledger.CarriesOut (progress ++ rest) after)
    (hrest : ledger.planEvents events = .ok (tally, rest)) (kind : ProgressKind) (name : String) :
    after.contents.value? (kind.key name) =
      (ledger.contents.insertAll progress.entries).value? (kind.key name) := by
  have foreign : (kind.key name).table ∉ Table.identity := by
    rw [kind.table_key]
    exact kind.table_notMem_identity
  rw [carried.contents, Changes.entries_append, Store.insertAll_append]
  exact value?_insertAll_of_planEvents hrest _ foreign _

/-- What an answered call does to a progress row: it moves it, or else it leaves it as it is or
begins it anew. -/
theorem perform_moved (h : ledger.perform now call = (.ok answer, after)) (kind : ProgressKind)
    (name : String) :
    (∃ move outcome changes, call.move? = some move ∧ move.key = kind.key name ∧
      ledger.planMove now move = .ok (outcome, changes) ∧
      answer.checkpoint? = some outcome.forBatch ∧
      after.contents.value? (kind.key name) =
        (ledger.contents.insertAll changes.entries).value? (kind.key name)) ∨
    (∀ move, call.move? = some move → move.key ≠ kind.key name) ∧
      (after.contents.value? (kind.key name) = ledger.contents.value? (kind.key name) ∨
        kind = .backfill ∧ call.begins? = some name) := by
  by_cases commits : call.commits = true
  · obtain ⟨changes, planned, carried⟩ := perform_ok h
    obtain ⟨progress, rest, moved, hrest, rfl⟩ := plan_commit commits planned
    have value := value?_of_carriesOut carried hrest kind name
    cases made : call.move? with
    | none =>
      rw [made] at moved
      obtain ⟨rfl, -⟩ := moved
      exact .inr ⟨by simp, .inl value⟩
    | some move =>
      rw [made] at moved
      obtain ⟨outcome, planned, answered⟩ := moved
      by_cases same : move.key = kind.key name
      · exact .inl ⟨move, outcome, progress, rfl, same, planned, answered, value⟩
      · refine .inr ⟨fun other here => Option.some.inj here ▸ same, .inl (value.trans ?_)⟩
        have written : ledger.contents.WrittenWithin [move.key]
            (ledger.contents.insertAll progress.entries) := ⟨progress, within_planMove planned, rfl⟩
        exact written.value?_eq fun inside => same (List.mem_singleton.1 inside).symm
  · refine .inr ⟨fun move made => absurd (Call.commits_of_move? made) commits, ?_⟩
    by_cases inside : kind.key name ∈ call.footprint
    · exact .inr (begins?_of_mem_footprint (Bool.not_eq_true _ ▸ commits) inside)
    · have kept := value?_perform ledger now inside
      rw [h] at kept
      exact .inl kept

end Ledger

/-! ### Answered calls -/

/-- A call that was answered, with the time at which it was made and the answer. -/
structure Exchange where
  now : Timestamp
  call : Call
  answer : Answer
  deriving DecidableEq, Repr

/-- A property of a store and of the calls that were answered before which every answered call
preserves, and marking the layout. -/
structure IsPreserved (p : Store → List Exchange → Prop) : Prop where
  answered {ledger after : Ledger} {now : Timestamp} {call : Call} {answer : Answer}
    {past : List Exchange} : ledger.perform now call = (.ok answer, after) →
      p ledger.contents past → p after.contents (past ++ [⟨now, call, answer⟩])
  opened {before after : Store} {past : List Exchange} : before.WrittenWithin [.layout] after →
    p before past → p after past

namespace Session

/-- The exchange of a step: that of a call that is answered. -/
def exchange? (session : Session) : Step → Option Exchange
  | .call now call =>
    match (session.perform now call).1 with
    | some (.ok answer) => some ⟨now, call, answer⟩
    | _ => none
  | .disturb _ | .restart => none

/-- The answered calls of a history, in order. -/
def exchanges (session : Session) : List Step → List Exchange
  | [] => []
  | step :: steps => (session.exchange? step).toList ++ (session.step step).exchanges steps

/-- What is preserved holds along every history. -/
theorem holds_along {p : Store → List Exchange → Prop} (preserved : IsPreserved p)
    {session : Session} {past : List Exchange} {steps : List Step}
    (lasting : session.AtRestarts Backend.Lasts steps) (h : p session.ledger.contents past) :
    p (session.run steps).ledger.contents (past ++ session.exchanges steps) := by
  induction steps generalizing session past with
  | nil => rwa [exchanges, List.append_nil]
  | cons step steps ih =>
    obtain ⟨lasts, rest⟩ := lasting
    rw [run_cons, exchanges, ← List.append_assoc]
    refine ih rest ?_
    cases step with
    | call now call =>
      simp only [Session.step, exchange?]
      cases performed : session.perform now call with
      | mk result after =>
        rcases result with _ | e | given
        · rw [contents_of_perform performed (by simp)]
          simpa using h
        · rw [contents_of_perform performed (by simp)]
          simpa using h
        · exact preserved.answered (perform_ok performed) h
    | disturb faults => simpa [exchange?, Session.step, disturb, Ledger.contents] using h
    | restart =>
      have written := writtenWithin_step session .restart lasts
      simpa [exchange?] using preserved.opened written h

end Session

namespace Life

/-- The answered calls of a life. -/
def exchanges (life : Life) : List Exchange := life.first.exchanges life.steps

/-- What holds of a store without entries before any call, and is preserved, holds along every
life. -/
theorem holds_along {p : Store → List Exchange → Prop} (preserved : IsPreserved p)
    (start : p .empty []) (life : Life) : p life.ledger.contents life.exchanges := by
  have first : p life.first.ledger.contents [] := by
    refine preserved.opened (Ledger.writtenWithin_openOn life.backend life.counters) ?_
    rw [life.fresh]
    exact start
  exact Session.holds_along preserved life.lasting first

end Life

/-! ### Moves of one row -/

/-- A move that was answered: the version, the time of the call, the time of the transaction and
the outcome. -/
structure Moved where
  version : Version
  now : Timestamp
  time : Option Timestamp
  outcome : CheckpointOutcome
  deriving DecidableEq, Repr

/-- What an exchange tells about a move of the row of a key. -/
def Exchange.moved? (key : Key) (exchange : Exchange) : Option Moved :=
  match exchange.call.move?, exchange.answer.checkpoint? with
  | some move, some outcome =>
    if move.key = key then some ⟨move.version, exchange.now, move.time, outcome⟩ else none
  | _, _ => none

/-- The answered moves of the row of a key, in order. -/
def moves (key : Key) (exchanges : List Exchange) : List Moved :=
  exchanges.filterMap (Exchange.moved? key)

namespace Exchange

variable {now : Timestamp} {call : Call} {answer : Answer} {key : Key}

theorem moved?_of_move {move : Move} {outcome : CheckpointOutcome} (made : call.move? = some move)
    (same : move.key = key) (answered : answer.checkpoint? = some outcome) :
    moved? key ⟨now, call, answer⟩ = some ⟨move.version, now, move.time, outcome⟩ := by
  simp only [moved?, made, answered, if_pos same]

theorem moved?_of_forall_ne (other : ∀ move, call.move? = some move → move.key ≠ key) :
    moved? key ⟨now, call, answer⟩ = none := by
  unfold moved?
  split
  · rename_i move outcome made answered
    exact if_neg (other move made)
  · rfl

end Exchange

section Concat

variable {key : Key} {past : List Exchange} {last : Exchange}

theorem moves_concat_of_some {moved : Moved} (made : last.moved? key = some moved) :
    moves key (past ++ [last]) = moves key past ++ [moved] := by
  simp [moves, List.filterMap_append, made]

theorem moves_concat_of_none (none : last.moved? key = none) :
    moves key (past ++ [last]) = moves key past := by
  simp [moves, List.filterMap_append, none]

end Concat

end IngestLedger
