import IngestLedger.Proofs.Failures
import IngestLedger.Proofs.Histories
import IngestLedger.Proofs.Verification

/-!
# The chain that guards a store

Through all the processes that open a store one after another, the chain that was recorded in it
stays as it is, and a process that holds a verified chain holds that one. Before it has verified the
chain, a process leaves the store as it found it, but for the marker of the layout when it is the
first to open it. So whatever is written beside these two rows, a process writes that has verified
the chain of the store.

Main definitions:

* `Session.Verifies`, `Session.HasVerified`: verifying a chain, and having done so.
* `Session.StaysUnverified`: a part of a process before it has verified a chain.
* `Life.IsProcess`: the processes of a life.
* `Life.IsGuarded`: what the chain guards in a life.

Main statements:

* `Session.hasVerified_of_run`: a chain that is held was verified by the process that holds it.
* `Session.IsSound.run`: the verified chain is the one in the store.
* `Session.contents_run_of_unverified`: nothing changes before a chain is verified.
* `Life.isGuarded`: in every life the chain guards the store.
-/

namespace IngestLedger

/-! ### Sessions -/

namespace Session

variable {session : Session} {steps : List Step} {chain : ChainId}

/-- A step that verifies a chain. -/
def Verifies (session : Session) (step : Step) (chain : ChainId) : Prop :=
  ∃ now, step = .call now (.verifyChain chain) ∧
    (session.perform now (.verifyChain chain)).1 = some (.ok .done)

/-- The process at the end of a history has verified a chain. -/
def HasVerified (session : Session) (steps : List Step) (chain : ChainId) : Prop :=
  ∃ before step after, steps = before ++ step :: after ∧ (session.run before).Verifies step chain ∧
    .restart ∉ after

/-- In a history the process goes on and verifies no chain. -/
def StaysUnverified (session : Session) : List Step → Prop
  | [] => True
  | step :: steps => (step ≠ .restart ∧ ∀ chain, ¬ session.Verifies step chain) ∧
    (session.step step).StaysUnverified steps

theorem verifiedChain_start (backend : Backend) (counters : Counters) :
    (start backend counters).2.ledger.verifiedChain = none :=
  (Ledger.sameAround_transact (Ledger.fresh backend counters) _).verifiedChain

theorem verifiedChain_restart (session : Session) :
    session.restart.2.ledger.verifiedChain = none := by
  simp only [restart, ofOpening, Ledger.reopen]
  split
  · exact (Ledger.sameAround_transact (Ledger.fresh _ _) _).verifiedChain
  · rfl

/-- A step keeps the verified chain, unless the process ends or verifies one. -/
theorem verifiedChain_step (session : Session) (step : Step) :
    (session.step step).ledger.verifiedChain = session.ledger.verifiedChain ∨
      step = .restart ∨ ∃ chain, session.Verifies step chain ∧
        (session.step step).ledger.verifiedChain = some chain := by
  cases step with
  | call now call =>
    simp only [Session.step, Verifies, perform]
    split
    · rcases Ledger.verifiedChain_perform session.ledger now call with
        kept | ⟨chain, rfl, answered, verified⟩
      · exact .inl kept
      · exact .inr (.inr ⟨chain, ⟨now, rfl, congrArg some answered⟩, verified⟩)
    · exact .inl rfl
  | disturb faults => exact .inl rfl
  | restart => exact .inr (.inl rfl)

/-- Only a ledger that is open holds a verified chain. -/
theorem isOpen_of_run (none : session.ledger.verifiedChain = none)
    (held : (session.run steps).ledger.verifiedChain = some chain) :
    (session.run steps).isOpen = true := by
  have opens : (session.run steps).ledger.verifiedChain = Option.none ∨
      (session.run steps).isOpen = true := by
    clear held
    induction steps using List.reverseRecOn with
    | nil => exact .inl none
    | append_singleton steps step ih =>
      rw [run_append, run_cons, run_nil]
      cases step with
      | call now call =>
        simp only [Session.step, perform]
        split
        · rename_i isOpen
          exact .inr isOpen
        · exact ih
      | disturb faults => exact ih
      | restart => exact .inl (verifiedChain_restart _)
  rcases opens with empty | isOpen
  · rw [empty] at held
    cases held
  · exact isOpen

/-- A chain that is held was verified by the process that holds it. -/
theorem hasVerified_of_run (none : session.ledger.verifiedChain = none)
    (held : (session.run steps).ledger.verifiedChain = some chain) :
    session.HasVerified steps chain := by
  -- from the end of the history back to the step that verified the chain
  induction steps using List.reverseRecOn with
  | nil =>
    rw [run_nil, none] at held
    cases held
  | append_singleton steps step ih =>
    rw [run_append, run_cons, run_nil] at held
    rcases verifiedChain_step (session.run steps) step with kept | rfl | ⟨other, verifies, verified⟩
    · obtain ⟨before, first, after, rfl, verifies, goes_on⟩ := ih (kept.symm.trans held)
      by_cases restarted : step = .restart
      · rw [restarted, Session.step, verifiedChain_restart] at held
        cases held
      · refine ⟨before, first, after ++ [step], by simp, verifies, fun inside => ?_⟩
        rcases List.mem_append.1 inside with here | here
        · exact goes_on here
        · exact restarted (List.mem_singleton.1 here).symm
    · rw [Session.step, verifiedChain_restart] at held
      cases held
    · obtain rfl := Option.some.inj (verified.symm.trans held)
      exact ⟨steps, step, [], rfl, verifies, List.not_mem_nil⟩

/-- A step keeps the chain that is recorded. -/
theorem get?_chain_step {value : Bytes}
    (h : session.ledger.contents.get? Key.chainBytes = some value) {step : Step}
    (lasts : step = .restart → session.ledger.backend.Lasts) :
    (session.step step).ledger.contents.get? Key.chainBytes = some value := by
  cases step with
  | call now call =>
    simp only [Session.step, perform]
    split
    · exact Ledger.get?_chain_perform h now call
    · exact h
  | disturb faults => exact h
  | restart =>
    have outside : Key.chain ∉ Step.restart.footprint := by simp [Step.footprint]
    exact ((writtenWithin_step session .restart lasts).value?_eq outside).trans h

theorem get?_chain_run {value : Bytes}
    (h : session.ledger.contents.get? Key.chainBytes = some value)
    (lasting : session.AtRestarts Backend.Lasts steps) :
    (session.run steps).ledger.contents.get? Key.chainBytes = some value := by
  induction steps generalizing session with
  | nil => exact h
  | cons step steps ih =>
    obtain ⟨lasts, rest⟩ := lasting
    exact ih (get?_chain_step h lasts) rest

/-- A session whose verified chain is the one in its store. -/
def IsSound (session : Session) : Prop :=
  ∀ chain, session.ledger.verifiedChain = some chain →
    session.ledger.contents.HasRecord Key.chainBytes (ChainRow.mk chain)

theorem IsSound.step (sound : session.IsSound) (wellFormed : session.ledger.contents.IsWellFormed)
    {step : Step} (lasts : step = .restart → session.ledger.backend.Lasts) :
    (session.step step).IsSound := by
  intro chain held
  rcases verifiedChain_step session step with kept | rfl | ⟨other, ⟨now, rfl, answered⟩, verified⟩
  · obtain ⟨value, encoded, stored⟩ := sound chain (kept.symm.trans held)
    exact ⟨value, encoded, get?_chain_step stored lasts⟩
  · rw [Session.step, verifiedChain_restart] at held
    cases held
  · obtain rfl := Option.some.inj (verified.symm.trans held)
    have performed : session.perform now (.verifyChain other) =
        (some (.ok .done), session.step (.call now (.verifyChain other))) := Prod.ext answered rfl
    obtain ⟨_, done, -⟩ := Ledger.answering_eq_ok (perform_ok performed)
    exact Ledger.hasRecord_of_verifyChain wellFormed done

theorem IsSound.run (sound : session.IsSound) (wellFormed : session.ledger.contents.IsWellFormed)
    (lasting : session.AtRestarts Backend.Lasts steps) : (session.run steps).IsSound := by
  induction steps generalizing session with
  | nil => exact sound
  | cons step steps ih =>
    obtain ⟨lasts, rest⟩ := lasting
    have written := writtenWithin_step session step lasts
    exact ih (sound.step wellFormed lasts) (written.isWellFormed wellFormed) rest

/-- A session whose store carries the marker of the layout; until the first opening succeeds, the
store is empty. -/
def IsMarked (session : Session) : Prop :=
  session.ledger.contents.HasRecord Key.layoutBytes LayoutRow.current ∨
    session.ledger.contents = .empty ∧ session.isOpen = false

theorem isMarked_ofOpening {backend : Backend} (counters : Counters)
    (found : backend.contents.HasRecord Key.layoutBytes LayoutRow.current ∨
      backend.contents = .empty) :
    (ofOpening (Ledger.openOn backend counters)).2.IsMarked := by
  rcases found with marked | empty
  · have kept := (Ledger.openOn_of_hasRecord counters marked).1
    refine .inl ?_
    show (Ledger.openOn backend counters).2.backend.contents.HasRecord _ _
    rw [kept]
    exact marked
  · exact (Ledger.openOn_of_empty counters empty).imp_left Store.IsJustMarked.hasRecord

/-- A session stays marked. -/
theorem IsMarked.step (marked : session.IsMarked) {step : Step}
    (lasts : step = .restart → session.ledger.backend.Lasts) : (session.step step).IsMarked := by
  cases step with
  | call now call =>
    simp only [Session.step, perform]
    split
    · rename_i isOpen
      obtain ⟨value, encoded, stored⟩ | ⟨-, notOpen⟩ := marked
      · have outside : Key.layout ∉ call.footprint := fun inside =>
          call.metadata_notMem_tables (Call.table_mem_of_mem_footprint inside)
        exact .inl ⟨value, encoded, (Ledger.value?_perform session.ledger now outside).trans stored⟩
      · rw [isOpen] at notOpen
        cases notOpen
    · exact marked
  | disturb faults => exact marked
  | restart =>
    have found := marked.imp_right And.left
    simp only [Session.step, restart, Ledger.reopen]
    split
    · rename_i again read
      refine isMarked_ofOpening _ ?_
      rw [lasts rfl again read]
      exact found
    · exact found.imp_right fun empty => ⟨empty, rfl⟩

theorem IsMarked.run (marked : session.IsMarked)
    (lasting : session.AtRestarts Backend.Lasts steps) : (session.run steps).IsMarked := by
  induction steps generalizing session with
  | nil => exact marked
  | cons step steps ih =>
    obtain ⟨lasts, rest⟩ := lasting
    exact ih (marked.step lasts) rest

/-- A process that opens the store again marks the layout, if the store is empty, and nothing
else. -/
theorem IsMarked.restart (marked : session.IsMarked) (lasts : session.ledger.backend.Lasts) :
    session.restart.2.ledger.contents = session.ledger.contents ∨
      session.ledger.contents = .empty ∧ session.restart.2.ledger.contents.IsJustMarked := by
  simp only [Session.restart, Ledger.reopen]
  split
  · rename_i again read
    have same : again.contents = session.ledger.contents := lasts again read
    rw [← same]
    rw [IsMarked, ← same] at marked
    rcases marked with carries | ⟨empty, -⟩
    · have kept := (Ledger.openOn_of_hasRecord session.ledger.counters carries).1
      exact .inl (congrArg Backend.contents kept)
    · rcases Ledger.openOn_of_empty session.ledger.counters empty with opened | ⟨still, -⟩
      · exact .inr ⟨empty, opened⟩
      · exact .inl (still.trans empty.symm)
  · exact .inl rfl

/-- Before a process has verified a chain, its steps change nothing in the store. -/
theorem contents_step_of_unverified (none : session.ledger.verifiedChain = none) {step : Step}
    (goes_on : step ≠ .restart) (unverified : ∀ chain, ¬ session.Verifies step chain) :
    (session.step step).ledger.contents = session.ledger.contents := by
  cases step with
  | call now call =>
    by_cases verifying : ∃ chain, call = .verifyChain chain
    · obtain ⟨chain, rfl⟩ := verifying
      refine contents_of_perform (Prod.ext rfl rfl) fun answer answered => ?_
      -- the only answer is that the chain is verified
      refine unverified chain ⟨now, rfl, answered.trans ?_⟩
      obtain ⟨-, -, rfl⟩ := Ledger.answering_eq_ok (perform_ok (Prod.ext answered rfl))
      rfl
    · simp only [Session.step, perform]
      split
      · have unwritten := Ledger.unwritten_of_unverified none now (not_exists.1 verifying)
        exact congrArg Backend.contents unwritten.1
      · rfl
  | disturb faults => rfl
  | restart => exact absurd rfl goes_on

theorem contents_run_of_unverified (none : session.ledger.verifiedChain = none)
    (unverified : session.StaysUnverified steps) :
    (session.run steps).ledger.contents = session.ledger.contents := by
  induction steps generalizing session with
  | nil => rfl
  | cons step steps ih =>
    obtain ⟨⟨goes_on, here⟩, later⟩ := unverified
    refine (ih ?_ later).trans (contents_step_of_unverified none goes_on here)
    rcases verifiedChain_step session step with kept | ended | ⟨chain, verifies, -⟩
    · exact kept.trans none
    · exact absurd ended goes_on
    · exact absurd verifies (here chain)

/-- What is written beside the row of the chain, a process writes that has verified a chain. -/
theorem exists_verifiedChain_of_journal {now : Timestamp} {call : Call} {batch : List Entry}
    (written : (session.step (.call now call)).ledger.journal = session.ledger.journal ++ [batch])
    (beside : ∃ e ∈ batch, e.1 ≠ Key.chainBytes) :
    ∃ chain, session.ledger.verifiedChain = some chain := by
  have grows : (session.step (.call now call)).ledger.journal ≠ session.ledger.journal := by
    rw [written]
    simp
  cases held : session.ledger.verifiedChain with
  | some chain => exact ⟨chain, rfl⟩
  | none =>
    simp only [Session.step, perform] at grows written
    split at grows
    · rename_i isOpen
      rw [if_pos isOpen] at written
      by_cases verifying : ∃ chain, call = .verifyChain chain
      · obtain ⟨chain, rfl⟩ := verifying
        obtain ⟨e, member, other⟩ := beside
        rcases Ledger.journal_verifyChain session.ledger chain with kept | ⟨value, recorded⟩
        · exact absurd kept grows
        · -- the batch is the row of the chain
          have same := List.append_cancel_left (recorded.symm.trans written)
          obtain rfl := (List.cons.inj same).1
          rw [List.mem_singleton.1 member] at other
          exact absurd rfl other
      · exact absurd (Ledger.unwritten_of_unverified held now (not_exists.1 verifying)).2 grows
    · exact absurd rfl grows

end Session

/-! ### Lives -/

/-- The processes of a life: the store that a process finds, the session in which it opens it, and
the steps that follow to the end of the life. -/
inductive Life.IsProcess (life : Life) : Store → Session → List Step → Prop
  | first : IsProcess life life.backend.contents life.first life.steps
  | next {before after : List Step} : life.steps = before ++ .restart :: after →
    IsProcess life (life.first.run before).ledger.contents
      ((life.first.run before).step .restart) after

/-- What the chain guards in a life. -/
structure Life.IsGuarded (life : Life) : Prop where
  /-- Once the chain is recorded, its row stays as it is. -/
  recorded : ∀ before after, life.steps = before ++ after → ∀ value,
    (life.first.run before).ledger.contents.get? Key.chainBytes = some value →
      life.ledger.contents.get? Key.chainBytes = some value
  /-- A process that opens a store marks the layout, if the store is empty, and nothing else. -/
  opening : ∀ found opened rest, life.IsProcess found opened rest →
    opened.ledger.contents = found ∨ found = .empty ∧ opened.ledger.contents.IsJustMarked
  /-- Until a process has verified a chain, it leaves the store as it is. -/
  unverified : ∀ found opened steps later, life.IsProcess found opened (steps ++ later) →
    opened.StaysUnverified steps → (opened.run steps).ledger.contents = opened.ledger.contents
  /-- A chain that is held as verified is the one in the store. -/
  verified : ∀ before after, life.steps = before ++ after → ∀ chain,
    (life.first.run before).ledger.verifiedChain = some chain →
      (life.first.run before).ledger.contents.HasRecord Key.chainBytes (ChainRow.mk chain)
  /-- A call that writes beside the row of the chain is made by a process that has verified the
  chain of the store. -/
  written : ∀ before now call after, life.steps = before ++ .call now call :: after →
    ∀ batch, ((life.first.run before).step (.call now call)).ledger.journal =
      (life.first.run before).ledger.journal ++ [batch] →
    (∃ e ∈ batch, e.1 ≠ Key.chainBytes) →
    ∃ chain, (life.first.run before).ledger.contents.HasRecord Key.chainBytes (ChainRow.mk chain) ∧
      life.first.HasVerified before chain

namespace Life

variable {life : Life} {before after : List Step}

theorem lasting_split (split : life.steps = before ++ after) :
    life.first.AtRestarts Backend.Lasts before ∧
      (life.first.run before).AtRestarts Backend.Lasts after := by
  have lasting := life.lasting
  rw [split] at lasting
  exact Session.atRestarts_append.1 lasting

/-- At every moment of a life, the store is empty and not open, or carries the marker. -/
theorem isMarked (split : life.steps = before ++ after) : (life.first.run before).IsMarked :=
  (Session.isMarked_ofOpening life.counters (.inr life.fresh)).run (lasting_split split).1

/-- At every moment of a life, the verified chain is the one in the store. -/
theorem isSound (split : life.steps = before ++ after) : (life.first.run before).IsSound := by
  have first : life.first.IsSound := fun chain held => by
    rw [Life.first, Session.verifiedChain_start] at held
    cases held
  exact first.run life.isWellFormed_first (lasting_split split).1

theorem IsProcess.opening {found : Store} {opened : Session} {rest : List Step}
    (h : life.IsProcess found opened rest) :
    opened.ledger.contents = found ∨ found = .empty ∧ opened.ledger.contents.IsJustMarked := by
  cases h with
  | first =>
    rcases Ledger.openOn_of_empty life.counters life.fresh with marked | ⟨empty, -⟩
    · exact .inr ⟨life.fresh, marked⟩
    · exact .inl (empty.trans life.fresh.symm)
  | next split => exact (isMarked split).restart ((lasting_split split).2.1 rfl)

theorem IsProcess.verifiedChain {found : Store} {opened : Session} {rest : List Step}
    (h : life.IsProcess found opened rest) : opened.ledger.verifiedChain = none := by
  cases h with
  | first => exact Session.verifiedChain_start _ _
  | next split => exact Session.verifiedChain_restart _

/-- In every life the chain guards the store, through all processes that open it and whatever they
call. -/
theorem isGuarded (life : Life) : life.IsGuarded where
  recorded before after split value stored := by
    rw [ledger, session, split, Session.run_append]
    exact Session.get?_chain_run stored (lasting_split split).2
  opening found opened rest process := process.opening
  unverified found opened steps later process unverified :=
    Session.contents_run_of_unverified process.verifiedChain unverified
  verified before after split chain held := isSound split chain held
  written before now call after split batch written beside := by
    obtain ⟨chain, held⟩ := Session.exists_verifiedChain_of_journal written beside
    exact ⟨chain, isSound split chain held,
      Session.hasVerified_of_run (Session.verifiedChain_start _ _) held⟩

end Life

/-! ### A process that goes on after a refused chain -/

namespace GuardedLife

/-- A link. -/
def event : IdentityEvent := .link ⟨"0x1", "0xab", true, 3⟩

/-- After a restart the link is refused until the chain is verified, and then another chain is
refused. -/
def before : List Step :=
  [.call 1 (.verifyChain 1), .restart, .call 2 (.apply event), .call 3 (.verifyChain 1),
    .call 4 (.verifyChain 2)]

/-- In the end the link is applied. -/
def life : Life := .inMemory (before ++ [.call 5 (.apply event)])

/-- The link was written by a process that has verified the chain of the store, though another chain
was refused since. -/
theorem written_after_mismatch : ∃ chain,
    (life.first.run before).ledger.contents.HasRecord Key.chainBytes (ChainRow.mk chain) ∧
      life.first.HasVerified before chain := by
  have written : ((life.first.run before).step (.call 5 (.apply event))).ledger.journal =
      (life.first.run before).ledger.journal ++ [life.ledger.journal.flatten] := by
    decide +kernel
  have beside : ∃ e ∈ life.ledger.journal.flatten, e.1 ≠ Key.chainBytes := by decide +kernel
  exact life.isGuarded.written before 5 (.apply event) [] rfl _ written beside

end GuardedLife

end IngestLedger
