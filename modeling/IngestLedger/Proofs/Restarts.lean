import IngestLedger.Proofs.ChainGuard
import IngestLedger.Proofs.PersistedBackfills

/-!
# Restarts that nobody notices

A restart makes a ledger forget the backfills that were started in it; from then on they go by the
settings in their rows. Once the rows hold these settings, nothing tells a ledger that was restarted
from one that was not: they answer alike whatever is called, and keep the same store.

Main definitions:

* `Ledger.Resumes`: a ledger that is like another one, but may have forgotten persisted backfills.
* `Session.answers`: what a history is answered, step by step.
* `Session.IsUnnoticed`: a restart that nothing tells afterwards.

Main statements:

* `Ledger.Resumes.perform`: two such ledgers answer a call alike, and stay alike.
* `Session.Resumes.run`: and so through any history.
* `restart_unnoticed`: which restarts are unnoticed, and what persists the settings of a backfill.
-/

namespace IngestLedger

namespace Ledger

variable {ledger : Ledger} {now : Timestamp} {name : String}

/-! ### What a call starts -/

theorem runs_of_startOrResume {run : BackfillRun} {plan : BackfillPlan}
    (answered : (ledger.startOrResume now name run).1 = .ok plan) :
    (ledger.startOrResume now name run).2.runs name = some run := by
  rw [runs_startOrResume, answered]
  exact if_pos rfl

/-- What a call that is answered has started a backfill with. -/
theorem exists_run_of_started {call : Call} (started : call.started? = some name) :
    ∃ run, ∀ (ledger : Ledger) (now : Timestamp) (answer : Answer),
      (ledger.perform now call).1 = .ok answer →
        (ledger.perform now call).2.runs name = some run := by
  cases call with
  | startOrResume other run =>
    obtain rfl := Option.some.inj started
    refine ⟨run, fun ledger now answer answered => ?_⟩
    obtain ⟨plan, planned, -⟩ := answering_eq_ok (Prod.ext answered rfl)
    exact runs_of_startOrResume (congrArg Prod.fst planned)
  | resolveRange processor mode =>
    cases mode with
    | backfill id initial ending overwrite =>
      obtain rfl := Option.some.inj started
      refine ⟨⟨initial, ending, overwrite⟩, fun ledger now answer answered => ?_⟩
      have resolved := resolveRange_backfill ledger now processor id ⟨initial, ending, overwrite⟩
      obtain ⟨range, ranged, -⟩ := answering_eq_ok (Prod.ext answered rfl)
      show (ledger.resolveRange now processor
        (.backfill id initial ending overwrite)).2.runs _ = _
      rw [resolved] at ranged ⊢
      cases result : (ledger.startOrResume now (backfillAlias processor id)
          ⟨initial, ending, overwrite⟩).1 with
      | ok plan => exact runs_of_startOrResume result
      | error e =>
        rw [result] at ranged
        cases (Prod.mk.inj ranged).1
    | live initial => cases started
    | testing start ending => cases started
  | _ => cases started

/-! ### Ledgers that have forgotten persisted backfills -/

/-- A ledger over the store of another one and with its verified chain, that may have forgotten
backfills whose rows hold their settings. -/
structure Resumes (ledger other : Ledger) : Prop where
  backend : other.backend = ledger.backend
  verifiedChain : other.verifiedChain = ledger.verifiedChain
  runs : ∀ name, other.runs name = ledger.runs name ∨
    other.runs name = none ∧ ledger.PersistsRun name

/-- Two results with one answer, over one store and with one verified chain. -/
structure AnsweredAlike {α : Type} (result other : Except LedgerError α × Ledger) : Prop where
  answer : other.1 = result.1
  backend : other.2.backend = result.2.backend
  verifiedChain : other.2.verifiedChain = result.2.verifiedChain

theorem AnsweredAlike.answering {α : Type} {result other : Except LedgerError α × Ledger}
    (h : AnsweredAlike result other) (kind : α → Answer) :
    AnsweredAlike (answering kind result) (answering kind other) where
  answer := congrArg (Except.map kind) h.answer
  backend := h.backend
  verifiedChain := h.verifiedChain

theorem planEvents_of_backend_eq {other : Ledger} (same : other.backend = ledger.backend)
    (events : List IdentityEvent) : other.planEvents events = ledger.planEvents events := by
  induction events with
  | nil => rfl
  | cons event events ih =>
    have first : other.planEvent event = ledger.planEvent event := by
      cases event <;> simp only [planEvent, planLink, planMember, readRow, same]
    simp only [planEvents, first, ih]

namespace Resumes

variable {other : Ledger}

/-- The settings that a backfill goes by are those it was started with, or the same in its row. -/
theorem backfillSettings (h : ledger.Resumes other) {bytes : Bytes} {stored : Option BackfillRow}
    (hkey : keyBytes (.backfill name) = .ok bytes)
    (read : ledger.readRow BackfillRow bytes = .ok stored) :
    other.backfillSettings name stored = ledger.backfillSettings name stored := by
  rcases h.runs name with same | ⟨forgotten, persists⟩
  · simp only [Ledger.backfillSettings, same]
  · cases started : ledger.runs name with
    | none => simp only [Ledger.backfillSettings, forgotten, started]
    | some run =>
      have persisted := persists run started
      rw [row?_of_readRow (keyBytes_eq_ok_iff.1 hkey) read] at persisted
      obtain ⟨row, rfl, rfl⟩ := Option.map_eq_some_iff.1 persisted
      simp only [Ledger.backfillSettings, forgotten, started]
      rfl

theorem planBackfillAdvance (h : ledger.Resumes other) (now : Timestamp) (name : String)
    (version : Version) (time : Option Timestamp) :
    other.planBackfillAdvance now name version time =
      ledger.planBackfillAdvance now name version time :=
  planBackfillAdvance_congr (readsAlike_of_backend_eq h.backend _)
    (fun _ _ hkey read => h.backfillSettings hkey read) now version time

theorem planCheckpoint (h : ledger.Resumes other) (now : Timestamp) (processor : String)
    (batch : BatchInfo) (mode : RunMode) :
    other.planCheckpoint now processor batch mode =
      ledger.planCheckpoint now processor batch mode := by
  cases mode with
  | live initial =>
    simp only [Ledger.planCheckpoint, planAdvance_congr (readsAlike_of_backend_eq h.backend _)]
  | backfill id initial ending overwrite =>
    simp only [Ledger.planCheckpoint, h.planBackfillAdvance]
  | testing start ending => rfl

theorem transact {α : Type} (h : ledger.Resumes other)
    {planned planned' : Except LedgerError (α × Changes)} (same : planned' = planned) :
    AnsweredAlike (ledger.transact planned) (other.transact planned') := by
  obtain ⟨answer, backend⟩ := transact_congr h.backend planned
  rw [same]
  refine ⟨answer, backend, ?_⟩
  rw [(sameAround_transact other planned).verifiedChain,
    (sameAround_transact ledger planned).verifiedChain, h.verifiedChain]

/-- What asks for a verified chain is answered alike, when it is planned alike. -/
theorem guarded {α : Type} (h : ledger.Resumes other)
    {plan plan' : Except LedgerError (α × Changes)} (same : plan' = plan) :
    AnsweredAlike (ledger.transact (do let _ ← ledger.ensureVerified; plan))
      (other.transact (do let _ ← other.ensureVerified; plan')) := by
  refine h.transact ?_
  rw [ensureVerified_congr h.verifiedChain, same]

theorem startOrResume (h : ledger.Resumes other) (now : Timestamp) (name : String)
    (run : BackfillRun) :
    AnsweredAlike (ledger.startOrResume now name run) (other.startOrResume now name run) := by
  have alike := h.transact
    (planStart_congr (readsAlike_of_backend_eq h.backend (.backfill name)) h.verifiedChain now run)
  constructor
  · rw [fst_startOrResume, fst_startOrResume, alike.answer]
  · rw [backend_startOrResume, backend_startOrResume, alike.backend]
  · rw [verifiedChain_startOrResume, verifiedChain_startOrResume, h.verifiedChain]

theorem verifyChain (h : ledger.Resumes other) (chain : ChainId) :
    AnsweredAlike (ledger.verifyChain chain) (other.verifyChain chain) := by
  have recorded := h.transact (rfl : planChain chain = planChain chain)
  have read : other.chainId = ledger.chainId :=
    chainId_congr (readsAlike_of_backend_eq h.backend .chain _ rfl)
  have answer : (other.verifyChain chain).1 = (ledger.verifyChain chain).1 := by
    rw [fst_verifyChain, fst_verifyChain, read, recorded.answer]
  refine ⟨answer, ?_, ?_⟩
  · rw [backend_verifyChain, backend_verifyChain, read, recorded.backend, h.backend]
  · rw [verifiedChain_verifyChain, verifiedChain_verifyChain, answer, h.verifiedChain]

theorem resolveRange (h : ledger.Resumes other) (now : Timestamp) (processor : String)
    (mode : RunMode) :
    AnsweredAlike (ledger.resolveRange now processor mode)
      (other.resolveRange now processor mode) := by
  cases mode with
  | live initial =>
    have alike : ReadsAlike ProcessorRow ledger other (.processor processor) :=
      readsAlike_of_backend_eq h.backend _
    rw [resolveRange_live, resolveRange_live, resumeVersion_congr alike]
    exact ⟨rfl, h.backend, h.verifiedChain⟩
  | backfill id initial ending overwrite =>
    have alike := h.startOrResume now (backfillAlias processor id) ⟨initial, ending, overwrite⟩
    rw [resolveRange_backfill ledger now processor id ⟨initial, ending, overwrite⟩,
      resolveRange_backfill other now processor id ⟨initial, ending, overwrite⟩]
    exact ⟨congrArg (Except.map BackfillPlan.range) alike.answer, alike.backend,
      alike.verifiedChain⟩
  | testing start ending => exact ⟨rfl, h.backend, h.verifiedChain⟩

theorem answeredAlike (h : ledger.Resumes other) (now : Timestamp) (call : Call) :
    AnsweredAlike (ledger.perform now call) (other.perform now call) := by
  cases call with
  | verifyChain chain => exact (h.verifyChain chain).answering _
  | startOrResume name run => exact (h.startOrResume now name run).answering _
  | resolveRange processor mode => exact (h.resolveRange now processor mode).answering _
  | advance processor version time =>
    refine (h.guarded ?_).answering _
    exact planAdvance_congr (readsAlike_of_backend_eq h.backend _) now version time
  | advanceBackfill name version time =>
    exact (h.guarded (h.planBackfillAdvance now name version time)).answering _
  | apply event =>
    refine (h.guarded ?_).answering _
    cases event <;> simp only [planEvent, planLink, planMember, readRow, h.backend]
  | commitBatch processor mode batch events =>
    refine (h.guarded ?_).answering _
    simp only [planBatch, h.planCheckpoint, planEvents_of_backend_eq h.backend]

/-- Ledgers of which one has forgotten persisted backfills answer a call alike, and stay so. -/
theorem perform (h : ledger.Resumes other) (now : Timestamp) (call : Call) :
    (other.perform now call).1 = (ledger.perform now call).1 ∧
      (ledger.perform now call).2.Resumes (other.perform now call).2 := by
  have alike := h.answeredAlike now call
  refine ⟨alike.answer, alike.backend, alike.verifiedChain, fun name => ?_⟩
  by_cases started : call.started? = some name
  · cases answered : (ledger.perform now call).1 with
    | ok answer =>
      -- both have started the backfill
      obtain ⟨run, registers⟩ := exists_run_of_started started
      have answered' : (other.perform now call).1 = .ok answer := alike.answer.trans answered
      have registered := registers ledger now answer answered
      exact .inl ((registers other now answer answered').trans registered.symm)
    | error e =>
      obtain ⟨⟨contents, -, runs⟩, -⟩ := retry_of_perform_error (Prod.ext answered rfl)
      obtain ⟨⟨-, -, runs'⟩, -⟩ :=
        retry_of_perform_error (Prod.ext (alike.answer.trans answered) rfl)
      rw [runs']
      rcases h.runs name with same | ⟨forgotten, persists⟩
      · exact .inl (same.trans (congrFun runs name).symm)
      · refine .inr ⟨forgotten, persists.of_value?_eq (congrFun runs name) ?_⟩
        rw [contents]
  · rw [runs_perform other now started]
    rcases h.runs name with same | ⟨forgotten, persists⟩
    · exact .inl (same.trans (runs_perform ledger now started).symm)
    · exact .inr ⟨forgotten, persists.perform now started⟩

end Resumes

/-! ### Opening again -/

/-- What opening a store again comes to depends on the store only. -/
theorem Resumes.reopen {other : Ledger} (h : ledger.Resumes other) :
    other.reopen.1 = ledger.reopen.1 ∧ ledger.reopen.2.Resumes other.reopen.2 := by
  simp only [Ledger.reopen, h.backend]
  split
  · rename_i backend read
    have base : (fresh backend other.counters).backend =
        (fresh backend ledger.counters).backend := rfl
    obtain ⟨answer, same⟩ := transact_congr base (fresh backend ledger.counters).planLayout
    obtain ⟨verified, runs⟩ := forgets_openOn backend ledger.counters
    obtain ⟨verified', runs'⟩ := forgets_openOn backend other.counters
    refine ⟨answer, same, verified'.trans verified.symm, fun name => .inl ?_⟩
    rw [runs, runs']
  · exact ⟨rfl, h.backend ▸ rfl, rfl, fun _ => .inl rfl⟩

/-! ### What is read -/

/-- Everything that is read from two ledgers is the same. -/
structure LooksLike (ledger other : Ledger) : Prop where
  chainId : other.chainId = ledger.chainId
  checkpoint : other.checkpoint = ledger.checkpoint
  resumeVersion : other.resumeVersion = ledger.resumeVersion
  backfill : other.backfill = ledger.backfill
  authKeyLinks : other.authKeyLinks = ledger.authKeyLinks
  keySet : other.keySet = ledger.keySet
  currentAuthKey? : other.currentAuthKey? = ledger.currentAuthKey?
  currentSigners : other.currentSigners = ledger.currentSigners
  accountsOf : other.accountsOf = ledger.accountsOf
  authKeysOf : other.authKeysOf = ledger.authKeysOf

theorem eq_of_backend_eq {β : Type} {other : Ledger} (same : other.backend = ledger.backend)
    {f : Ledger → β} (only : ∀ ledger, f ledger = f (fresh ledger.backend .zero)) :
    f other = f ledger := by
  rw [only other, only ledger, same]

/-- What is read from a ledger depends on its store only. -/
theorem looksLike_of_backend_eq {other : Ledger} (same : other.backend = ledger.backend) :
    ledger.LooksLike other where
  chainId := eq_of_backend_eq same fun _ => rfl
  checkpoint := eq_of_backend_eq same fun _ => rfl
  resumeVersion := eq_of_backend_eq same fun _ => rfl
  backfill := eq_of_backend_eq same fun _ => rfl
  authKeyLinks := eq_of_backend_eq same fun _ => rfl
  keySet := eq_of_backend_eq same fun _ => rfl
  currentAuthKey? := eq_of_backend_eq same fun _ => rfl
  currentSigners := eq_of_backend_eq same fun _ => rfl
  accountsOf := eq_of_backend_eq same fun _ => rfl
  authKeysOf := eq_of_backend_eq same fun _ => rfl

end Ledger

/-! ### Sessions -/

namespace Session

variable {session other : Session}

/-- What a step is answered: a call by a ledger that is open, and a restart in any case. -/
def answer (session : Session) : Step → Option (Except LedgerError Answer)
  | .call now call => (session.perform now call).1
  | .disturb _ => none
  | .restart => some (session.restart.1.map fun _ => .done)

/-- What a history is answered, step by step. -/
def answers (session : Session) : List Step → List (Option (Except LedgerError Answer))
  | [] => []
  | step :: steps => session.answer step :: (session.step step).answers steps

/-- A session like another one, whose ledger may have forgotten persisted backfills. -/
structure Resumes (session other : Session) : Prop where
  ledger : session.ledger.Resumes other.ledger
  isOpen : other.isOpen = session.isOpen

theorem Resumes.step (h : session.Resumes other) (step : Step) :
    other.answer step = session.answer step ∧ (session.step step).Resumes (other.step step) := by
  cases step with
  | call now call =>
    obtain ⟨answer, resumes⟩ := h.ledger.perform now call
    simp only [Session.answer, Session.step, Session.perform, h.isOpen]
    split
    · exact ⟨congrArg some answer, resumes, rfl⟩
    · exact ⟨rfl, h⟩
  | disturb faults =>
    refine ⟨rfl, ⟨?_, h.ledger.verifiedChain, fun name => ?_⟩, h.isOpen⟩
    · simp only [Session.step, disturb, h.ledger.backend]
    · exact h.ledger.runs name
  | restart =>
    obtain ⟨answer, resumes⟩ := h.ledger.reopen
    simp only [Session.answer, Session.step, Session.restart, ofOpening, answer]
    exact ⟨trivial, resumes, rfl⟩

/-- Through any history, sessions of which one has forgotten persisted backfills are answered
alike, and stay so. -/
theorem Resumes.run (h : session.Resumes other) (steps : List Step) :
    other.answers steps = session.answers steps ∧
      (session.run steps).Resumes (other.run steps) := by
  induction steps generalizing session other with
  | nil => exact ⟨rfl, h⟩
  | cons step steps ih =>
    obtain ⟨answer, resumes⟩ := h.step step
    obtain ⟨answers, later⟩ := ih resumes
    exact ⟨by rw [Session.answers, Session.answers, answer, answers], later⟩

/-- A restart that nothing tells afterwards: the store is opened again and its chain is verified
again, and then every history is answered as it would have been without the restart, and leads to
the same store and to the same answers to all that is read. -/
def IsUnnoticed (session : Session) (chain : ChainId) : Prop :=
  ∀ now, ∃ reopened verified, session.restart = (.ok (), reopened) ∧
    reopened.perform now (.verifyChain chain) = (some (.ok .done), verified) ∧
    ∀ steps, verified.answers steps = session.answers steps ∧
      (verified.run steps).ledger.backend = (session.run steps).ledger.backend ∧
      (session.run steps).ledger.LooksLike (verified.run steps).ledger

/-- Opening a store again that has its marker and its chain. -/
theorem exists_reopened {chain : ChainId}
    (marked : session.ledger.contents.HasRecord Key.layoutBytes LayoutRow.current)
    (recorded : session.ledger.contents.HasRecord Key.chainBytes (ChainRow.mk chain))
    (reads : session.ledger.backend.faults.get = none)
    (reloads : session.ledger.backend.reload = .ok session.ledger.backend) (now : Timestamp) :
    ∃ reopened verified, session.restart = (.ok (), reopened) ∧
      reopened.perform now (.verifyChain chain) = (some (.ok .done), verified) ∧
      verified.isOpen = true ∧ verified.ledger.backend = session.ledger.backend ∧
      verified.ledger.verifiedChain = some chain ∧ verified.ledger.runs = fun _ => none := by
  obtain ⟨kept, opens⟩ := Ledger.openOn_of_hasRecord session.ledger.counters marked
  obtain ⟨-, runs⟩ := Ledger.forgets_openOn session.ledger.backend session.ledger.counters
  have restarted : session.restart =
      (.ok (), ⟨(Ledger.openOn session.ledger.backend session.ledger.counters).2, true⟩) := by
    simp only [restart, ofOpening, Ledger.reopen, reloads, opens reads]
    rfl
  generalize (Ledger.openOn session.ledger.backend session.ledger.counters).2 = opened at *
  have row : opened.readRow ChainRow Key.chainBytes = .ok (some ⟨chain⟩) := by
    refine Ledger.readRow_of_hasRecord ?_ (kept ▸ reads)
    rw [Ledger.contents, kept]
    exact recorded
  have answered : opened.verifyChain chain = (.ok (), { opened with
      verifiedChain := some chain
      counters := opened.counters.add [.chainChecked .verified] }) := by
    simp only [Ledger.verifyChain, Ledger.chainId, row, Option.map_some, if_true]
  refine ⟨⟨opened, true⟩, ⟨{ opened with
    verifiedChain := some chain
    counters := opened.counters.add [.chainChecked .verified] }, true⟩, restarted, ?_, rfl, kept,
    rfl, runs⟩
  simp only [perform, if_true, Ledger.perform, Ledger.answering, answered]
  rfl

/-- A restart is unnoticed once the rows of all started backfills hold their settings. -/
theorem isUnnoticed_of_persistsRun {chain : ChainId} (isOpen : session.isOpen = true)
    (verified : session.ledger.verifiedChain = some chain)
    (persisted : ∀ name, session.ledger.PersistsRun name)
    (marked : session.ledger.contents.HasRecord Key.layoutBytes LayoutRow.current)
    (recorded : session.ledger.contents.HasRecord Key.chainBytes (ChainRow.mk chain))
    (reads : session.ledger.backend.faults.get = none)
    (reloads : session.ledger.backend.reload = .ok session.ledger.backend) :
    session.IsUnnoticed chain := by
  intro now
  obtain ⟨reopened, forgetful, restarted, performed, opens, backend, chains, runs⟩ :=
    exists_reopened marked recorded reads reloads now
  have resumes : session.Resumes forgetful :=
    ⟨⟨backend, chains.trans verified.symm, fun name => .inr ⟨by rw [runs], persisted name⟩⟩,
      opens.trans isOpen.symm⟩
  refine ⟨reopened, forgetful, restarted, performed, fun steps => ?_⟩
  obtain ⟨answers, later⟩ := resumes.run steps
  exact ⟨answers, later.ledger.backend, Ledger.looksLike_of_backend_eq later.ledger.backend⟩

end Session

/-- In every life with a verified chain, a restart is unnoticed if the rows of the started backfills
hold their settings and the store can be read. A backfill that begins anew and one whose row was
moved, by itself or with a batch, have their settings in their row. -/
theorem restart_unnoticed :
    (∀ (life : Life) (chain : ChainId), life.ledger.verifiedChain = some chain →
      (∀ name, life.ledger.PersistsRun name) → life.ledger.backend.faults.get = none →
      life.ledger.backend.Lasts → (∃ again, life.ledger.backend.reload = .ok again) →
      life.session.IsUnnoticed chain) ∧
    (∀ (ledger after : Ledger) now name run plan, run.overwrite = true →
      ledger.startOrResume now name run = (.ok plan, after) → after.PersistsRun name) ∧
    (∀ (ledger after : Ledger) now name version time,
      ledger.advanceBackfill now name version time = (.ok .advanced, after) →
      after.PersistsRun name) ∧
    ∀ (ledger after : Ledger) now processor id initial ending overwrite batch events outcome,
      ledger.commitBatch now processor (.backfill id initial ending overwrite) batch events =
        (.ok outcome, after) → outcome.checkpoint = .advanced →
      after.PersistsRun (backfillAlias processor id) := by
  refine ⟨fun life chain verified persisted reads lasts ⟨again, read⟩ => ?_,
    fun _ _ _ _ _ _ => Ledger.persistsRun_of_startOrResume,
    fun _ _ _ _ _ _ => Ledger.persistsRun_of_advanceBackfill,
    fun _ _ _ _ _ _ _ _ _ _ _ => Ledger.persistsRun_of_commitBatch⟩
  have split : life.steps = life.steps ++ [] := (List.append_nil _).symm
  have isOpen : life.session.isOpen = true :=
    Session.isOpen_of_run (Session.verifiedChain_start _ _) verified
  have marked := (Life.isMarked split).resolve_right fun closed => by
    rw [Life.session, closed.2] at isOpen
    cases isOpen
  have recorded := Life.isSound split chain verified
  obtain rfl := lasts.reload_eq read
  exact Session.isUnnoticed_of_persistsRun isOpen verified persisted marked recorded reads read

/-! ### A restart in the middle of a backfill -/

namespace HalfwayBackfill

/-- A backfill that was begun anew and has come halfway. -/
def steps : List Step :=
  [.call 0 (.verifyChain 1), .call 1 (.resolveRange "p" (.backfill "b" 5 (some 100) true)),
    .call 2 (.commitBatch "p" (.backfill "b" 5 (some 100) true) ⟨5, 50, none⟩ [])]

/-- The life up to there. -/
def life : Life := .inMemory steps

theorem persistsRun_life (name : String) : life.ledger.PersistsRun name := by
  by_cases halfway : name = backfillAlias "p" "b"
  · subst halfway
    have run : life.ledger.runs (backfillAlias "p" "b") = some ⟨5, some 100, true⟩ := by
      decide +kernel
    have row : (life.ledger.contents.row? BackfillRow (.backfill (backfillAlias "p" "b"))).map
        BackfillRow.settings = some ⟨5, some 100, true⟩ := by decide +kernel
    intro started registered
    rw [row, ← run, registered]
  · refine Session.persistsRun_run (fun run registered => ?_) fun now call member => ?_
    · rw [Life.first, Session.start, Session.ofOpening, (Ledger.forgets_openOn _ _).2] at registered
      cases registered
    · simp only [life, Life.inMemory, steps, List.mem_cons, Step.call.injEq, List.not_mem_nil,
        or_false] at member
      rcases member with ⟨-, rfl⟩ | ⟨-, rfl⟩ | ⟨-, rfl⟩
      · intro same
        cases same
      · intro same
        exact halfway (Option.some.inj same).symm
      · intro same
        cases same

/-- A restart at this moment is unnoticed. -/
theorem isUnnoticed_life : life.session.IsUnnoticed 1 := by
  have memory : life.ledger.backend.home = none := by decide +kernel
  have reload : life.ledger.backend.reload = .ok life.ledger.backend := by
    simp only [Backend.reload, memory]
  exact restart_unnoticed.1 life 1 (by decide +kernel) persistsRun_life (by decide +kernel)
    (Backend.lasts_of_home_none memory) ⟨_, reload⟩

end HalfwayBackfill

end IngestLedger
