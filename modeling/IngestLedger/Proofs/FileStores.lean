import IngestLedger.Proofs.StoreFiles
import IngestLedger.Store.Backend
import Mathlib.Data.List.Infix

/-!
# A store in a file and a store in memory

A store that was opened where no file was answers as a store in memory does that was given only the
batches that were written, whichever writes fail and however often it is opened again. Its file
holds what both of them do. Of the disk it is assumed that a save that fails leaves the file as it
was, and that any other one replaces all of it.

Main definitions:

* `StoreStep`, `Backend.act`, `Backend.trace`: what happens to a store, and its answers.
* `Disk.Saves`, `Backend.OnSoundDisk`: what is assumed of the disk.
* `Backend.Mirrors`: a store in a file and a store in memory hold the same, and so does the file.

Main statements:

* `Backend.Mirrors.act`: each step keeps the two stores alike.
* `Backend.file_refines_memory`: the answers and the file of a store through a whole history.
-/

namespace IngestLedger

/-! ### Histories of a store -/

/-- What happens to a store, or around it. -/
inductive StoreStep where
  | write (batch : List Entry)
  | get (key : Bytes)
  | scan (front : Bytes)
  /-- The store is opened again. -/
  | reopen
  /-- The disk is changed by others, and writes begin to fail or to work again. -/
  | disturb (disk : Disk) (failure : Option StoreError)
  deriving DecidableEq

/-- What a store answers to a step. -/
inductive StoreAnswer where
  | written (answer : Except StoreError Unit)
  | value (answer : Except StoreError (Option Bytes))
  | entries (answer : Except StoreError (List Entry))
  | reopened (answer : Except StoreError Unit)
  | disturbed
  deriving DecidableEq

/-- Whether the step counts: it is neither a failed write nor a change around the store. -/
def StoreAnswer.counts : StoreAnswer → Bool
  | written answer => answer.isOk
  | value _ | entries _ | reopened _ => true
  | disturbed => false

/-- The steps of a history that count. -/
def StoreStep.counted (history : List (StoreStep × StoreAnswer)) : List StoreStep :=
  (history.filter fun turn => turn.2.counts).map Prod.fst

/-- The entries that a step writes are short. -/
def StoreStep.IsShort : StoreStep → Prop
  | write batch => ∀ e ∈ batch, e.IsShort
  | get _ | scan _ | reopen | disturb .. => True

instance : (step : StoreStep) → Decidable step.IsShort
  | .write batch => inferInstanceAs (Decidable (∀ e ∈ batch, e.IsShort))
  | .get _ | .scan _ | .reopen | .disturb .. => .isTrue trivial

/-- What reading the file of a store gives. -/
def Disk.storeFile (disk : Disk) (home : Path) : Except DiskError Bytes :=
  disk.read (home.child StoreFile.name)

/-- What is assumed of a save: one that fails leaves the file as it was, and one that does not
replaces all of it. -/
structure Disk.Saves (disk : Disk) (home : Path) (store : Store) : Prop where
  failed : ∀ e after, Backend.save disk home store = (.error e, after) →
    after.storeFile home = disk.storeFile home
  replaced : ∀ after, Backend.save disk home store = (.ok (), after) →
    after.storeFile home = .ok (StoreFile.encode store)

theorem Disk.saves_iff {disk : Disk} {home : Path} {store : Store} : disk.Saves home store ↔
    (Backend.save disk home store).2.storeFile home =
      if (Backend.save disk home store).1.isOk then .ok (StoreFile.encode store)
      else disk.storeFile home := by
  constructor
  · intro saves
    rcases saved : Backend.save disk home store with ⟨_ | _, after⟩
    · exact saves.failed _ after saved
    · exact saves.replaced after saved
  · intro file
    constructor
    · intro e after saved
      rw [saved] at file
      exact file
    · intro after saved
      rw [saved] at file
      exact file

namespace Backend

variable {home : Path} {backend memory after : Backend} {batch : List Entry} {step : StoreStep}
  {steps : List StoreStep}

/-- The answer to a step, and the store afterwards. -/
def act (backend : Backend) : StoreStep → StoreAnswer × Backend
  | .write batch => (.written (backend.write batch).1, (backend.write batch).2)
  | .get key => (.value (backend.get key), backend)
  | .scan front => (.entries (backend.scan front), backend)
  | .reopen =>
    match backend.reload with
    | .ok again => (.reopened (.ok ()), again)
    | .error e => (.reopened (.error e), backend)
  | .disturb disk failure =>
    (.disturbed, { backend with disk, faults := { backend.faults with write := failure } })

/-- The store after a history. -/
def run (backend : Backend) : List StoreStep → Backend
  | [] => backend
  | step :: steps => (backend.act step).2.run steps

/-- The steps of a history with their answers. -/
def trace (backend : Backend) : List StoreStep → List (StoreStep × StoreAnswer)
  | [] => []
  | step :: steps => (step, (backend.act step).1) :: (backend.act step).2.trace steps

/-- The disk does at a step what is assumed of it: a save that is made is as it should be, and
others that change the disk leave the file of the store alone. -/
def ActsSoundly (home : Path) (backend : Backend) : StoreStep → Prop
  | .write batch =>
    backend.faults.write = none → backend.disk.Saves home (backend.contents.insertAll batch)
  | .disturb disk _ => disk.storeFile home = backend.disk.storeFile home
  | .get _ | .scan _ | .reopen => True

/-- The disk does so throughout a history. -/
def OnSoundDisk (home : Path) (backend : Backend) : List StoreStep → Prop
  | [] => True
  | step :: steps => backend.ActsSoundly home step ∧ (backend.act step).2.OnSoundDisk home steps

theorem OnSoundDisk.of_prefix {before later : List StoreStep}
    (h : backend.OnSoundDisk home (before ++ later)) : backend.OnSoundDisk home before := by
  induction before generalizing backend with
  | nil => trivial
  | cons step before ih => exact ⟨h.1, ih h.2⟩

/-! ### Writes of a store in a file -/

theorem write_ok_of_home (kept : backend.home = some home)
    (written : backend.write batch = (.ok (), after)) :
    backend.faults.write = none ∧ ∃ disk,
      save backend.disk home (backend.contents.insertAll batch) = (.ok (), disk) ∧
      after = { backend with contents := backend.contents.insertAll batch, disk } := by
  simp only [write, overwrite, kept] at written
  split at written
  · cases written
  · rename_i works
    split at written
    · rename_i saved
      refine ⟨works, _, saved, ?_⟩
      rw [← (Prod.mk.inj written).2, kept]
    · cases written

theorem write_error_of_home {e : StoreError} (kept : backend.home = some home)
    (refused : backend.write batch = (.error e, after)) :
    after = backend ∨ backend.faults.write = none ∧ ∃ fault disk,
      save backend.disk home (backend.contents.insertAll batch) = (.error fault, disk) ∧
      after = { backend with disk } := by
  simp only [write, overwrite, kept] at refused
  split at refused
  · exact .inl (Prod.mk.inj refused).2.symm
  · rename_i works
    split at refused
    · cases refused
    · rename_i saved
      refine .inr ⟨works, _, _, saved, ?_⟩
      rw [← (Prod.mk.inj refused).2, kept]

/-! ### Two stores that hold the same -/

/-- A store in a file holds short entries, the same as the file, which may be missing while there
are none, and the same as a store in memory. -/
structure Mirrors (home : Path) (backend memory : Backend) : Prop where
  home_eq : backend.home = some home
  faults : backend.faults.get = none ∧ backend.faults.scan = none
  short : ∀ e ∈ backend.contents.entries, e.IsShort
  file : backend.disk.storeFile home = .ok (StoreFile.encode backend.contents) ∨
    backend.disk.storeFile home = .error .notFound ∧ backend.contents = .empty
  memory_eq : memory = { inMemory with contents := backend.contents }

namespace Mirrors

/-- The file is read back as what the store holds. -/
theorem load_eq (h : Mirrors home backend memory) :
    load backend.disk home = .ok backend.contents := by
  have file := h.file
  unfold Disk.storeFile at file
  unfold load
  rcases file with found | ⟨missing, nothing⟩
  · rw [found]
    exact StoreFile.decode_encode h.short
  · rw [missing, nothing]

theorem reload_eq (h : Mirrors home backend memory) : backend.reload = .ok backend := by
  simp only [reload, h.home_eq, h.load_eq]
  rw [← h.home_eq]

theorem contents_eq (h : Mirrors home backend memory) : memory.contents = backend.contents := by
  rw [h.memory_eq]

theorem write_memory (h : Mirrors home backend memory) (batch : List Entry) :
    memory.write batch =
      (.ok (), { inMemory with contents := backend.contents.insertAll batch }) := by
  rw [h.memory_eq]
  rfl

/-- A written batch is in both stores, and in the file. -/
theorem write_ok (h : Mirrors home backend memory) (short : ∀ e ∈ batch, e.IsShort)
    (sound : backend.ActsSoundly home (.write batch))
    (written : backend.write batch = (.ok (), after)) :
    Mirrors home after (memory.write batch).2 := by
  obtain ⟨works, disk, saved, rfl⟩ := write_ok_of_home h.home_eq written
  have replaced := (sound works).replaced disk saved
  refine ⟨h.home_eq, h.faults, fun e member => ?_, .inl replaced, ?_⟩
  · exact (Store.mem_insertAll member).elim (h.short e) (short e)
  · rw [h.write_memory]

/-- A write that fails changes neither store, nor the file. -/
theorem write_error {e : StoreError} (h : Mirrors home backend memory)
    (sound : backend.ActsSoundly home (.write batch))
    (refused : backend.write batch = (.error e, after)) : Mirrors home after memory := by
  rcases write_error_of_home h.home_eq refused with rfl | ⟨works, fault, disk, saved, rfl⟩
  · exact h
  · -- the disk may have changed beside the file, but the file is read as before
    have same := (sound works).failed fault disk saved
    exact ⟨h.home_eq, h.faults, h.short, same ▸ h.file, h.memory_eq⟩

/-- A step that counts is answered alike and keeps the two stores alike, and so does any other step
that only the store in the file takes. -/
theorem act (h : Mirrors home backend memory) (short : step.IsShort)
    (sound : backend.ActsSoundly home step) :
    if (backend.act step).1.counts then
      (memory.act step).1 = (backend.act step).1 ∧
        Mirrors home (backend.act step).2 (memory.act step).2
    else Mirrors home (backend.act step).2 memory := by
  cases step with
  | write batch =>
    cases written : backend.write batch with
    | mk answer after =>
      cases answer with
      | ok =>
        simp only [Backend.act, written, StoreAnswer.counts, Except.isOk, Except.toBool, if_true]
        exact ⟨by rw [h.write_memory], h.write_ok short sound written⟩
      | error e =>
        simp only [Backend.act, written, StoreAnswer.counts, Except.isOk, Except.toBool]
        exact h.write_error sound written
  | get key =>
    refine ⟨?_, h⟩
    simp only [Backend.act, Backend.get, h.faults.1]
    rw [h.memory_eq]
    rfl
  | scan front =>
    refine ⟨?_, h⟩
    simp only [Backend.act, Backend.scan, h.faults.2]
    rw [h.memory_eq]
    rfl
  | reopen =>
    have remembered : memory.reload = .ok memory := by
      rw [h.memory_eq]
      rfl
    simp only [Backend.act, h.reload_eq, remembered]
    exact ⟨trivial, h⟩
  | disturb disk failure =>
    have same : disk.storeFile home = backend.disk.storeFile home := sound
    exact ⟨h.home_eq, h.faults, h.short, same ▸ h.file, h.memory_eq⟩

/-- Opening a store in a file again is answered. -/
theorem act_reopen (h : Mirrors home backend memory) :
    (backend.act .reopen).1 = .reopened (.ok ()) := by
  simp only [Backend.act, h.reload_eq]

/-- Two stores stay alike through a history, of which the store in memory takes the steps that
count, and the store in the file is opened again whenever it is asked for. -/
theorem run (h : Mirrors home backend memory) (short : ∀ step ∈ steps, step.IsShort)
    (sound : backend.OnSoundDisk home steps) :
    memory.trace (StoreStep.counted (backend.trace steps)) =
        (backend.trace steps).filter (fun turn => turn.2.counts) ∧
      (∀ answer, (.reopen, answer) ∈ backend.trace steps → answer = .reopened (.ok ())) ∧
      Mirrors home (backend.run steps) (memory.run (StoreStep.counted (backend.trace steps))) := by
  induction steps generalizing backend memory with
  | nil => exact ⟨rfl, nofun, h⟩
  | cons step steps ih =>
    obtain ⟨shortStep, shortSteps⟩ := List.forall_mem_cons.1 short
    have next := h.act shortStep sound.1
    have first : ∀ answer, (.reopen, answer) = (step, (backend.act step).1) →
        answer = .reopened (.ok ()) := by
      intro answer here
      obtain ⟨rfl, rfl⟩ := Prod.mk.inj here
      exact h.act_reopen
    by_cases counts : (backend.act step).1.counts = true
    · rw [if_pos counts] at next
      obtain ⟨answers, alike⟩ := next
      obtain ⟨traces, openings, mirrors⟩ := ih alike shortSteps sound.2
      have taken : (backend.trace (step :: steps)).filter (fun turn => turn.2.counts) =
          (step, (backend.act step).1) ::
            ((backend.act step).2.trace steps).filter fun turn => turn.2.counts :=
        List.filter_cons_of_pos counts
      rw [StoreStep.counted, taken]
      refine ⟨?_, fun answer member => ?_, mirrors⟩
      · rw [List.map_cons, trace, answers]
        exact congrArg _ traces
      · exact (List.mem_cons.1 member).elim (first answer) (openings answer)
    · rw [if_neg counts] at next
      obtain ⟨traces, openings, mirrors⟩ := ih next shortSteps sound.2
      have left : (backend.trace (step :: steps)).filter (fun turn => turn.2.counts) =
          ((backend.act step).2.trace steps).filter fun turn => turn.2.counts :=
        List.filter_cons_of_neg counts
      rw [StoreStep.counted, left]
      refine ⟨traces, fun answer member => ?_, mirrors⟩
      exact (List.mem_cons.1 member).elim (first answer) (openings answer)

end Mirrors

/-- A store that is opened where no file is. -/
theorem mirrors_of_missing {disk : Disk} (missing : disk.storeFile home = .error .notFound) :
    openFile disk home = .ok { home := some home, disk } ∧
      Mirrors home { home := some home, disk } inMemory := by
  constructor
  · have read : disk.read (home.child StoreFile.name) = .error .notFound := missing
    simp only [openFile, load, read]
  · exact ⟨rfl, ⟨rfl, rfl⟩, nofun, .inr ⟨missing, rfl⟩, rfl⟩

/-- A store that is opened in a directory without its file refines a store in memory. The steps that
count, which are all but failed writes, are answered as a store in memory answers them that takes
only these. The store is opened again whenever it is asked for. At every moment the file is read
back as what the store in memory holds, and the store in the file holds the same. Assumed of the
disk: a save that fails leaves the file as it was, one that does not replaces all of it, and others
leave it alone. -/
theorem file_refines_memory {disk : Disk} (missing : disk.storeFile home = .error .notFound) :
    ∃ opened, openFile disk home = .ok opened ∧
      ∀ steps, (∀ step ∈ steps, step.IsShort) → opened.OnSoundDisk home steps →
        inMemory.trace (StoreStep.counted (opened.trace steps)) =
            (opened.trace steps).filter (fun turn => turn.2.counts) ∧
          (∀ answer, (.reopen, answer) ∈ opened.trace steps → answer = .reopened (.ok ())) ∧
          ∀ before, before <+: steps →
            let memory := inMemory.run (StoreStep.counted (opened.trace before))
            load (opened.run before).disk home = .ok memory.contents ∧
              (opened.run before).contents = memory.contents := by
  obtain ⟨opened, mirrors⟩ := mirrors_of_missing missing
  refine ⟨_, opened, fun steps short sound => ?_⟩
  obtain ⟨traces, openings, -⟩ := mirrors.run short sound
  refine ⟨traces, openings, ?_⟩
  rintro before ⟨later, rfl⟩
  have alike := (mirrors.run (fun step inside => short step (List.mem_append_left _ inside))
    sound.of_prefix).2.2
  refine ⟨?_, alike.contents_eq.symm⟩
  rw [alike.load_eq, alike.contents_eq]

/-- A batch that writes one key twice. -/
def firstBatch : List Entry := [([1], [10]), ([2], []), ([1], [11])]

/-- A disk that keeps the first batch, where a directory may stand in the place of the file that a
save writes beside the old one. -/
def firstDisk (obstructed : Bool) : Disk where
  nodes := (["data", "ledger.db"], .file 0 (StoreFile.encode (Store.empty.insertAll firstBatch))) ::
    (["data"], .directory) :: if obstructed then [(["data", "ledger.tmp"], .directory)] else []
  filesMade := 1

/-- A batch, one that a directory is in the way of, and one that is written while nothing can be. -/
def troubledHistory : List StoreStep :=
  [.write firstBatch, .disturb (firstDisk true) none, .write [([3], [30])], .reopen,
    .disturb (firstDisk false) (some (.io "disk full")), .write [([2], [20])], .get [2], .scan [1]]

/-- The answers to a history with two failed writes, and what a store in memory makes of it. -/
theorem file_refines_memory_troubled :
    ∃ opened, openFile .empty ["data"] = .ok opened ∧
      (opened.trace troubledHistory).map Prod.snd =
        [.written (.ok ()), .disturbed, .written (.error (.io "Is a directory (os error 21)")),
          .reopened (.ok ()), .disturbed, .written (.error (.io "disk full")),
          .value (.ok (some [])), .entries (.ok [([1], [11])])] ∧
      inMemory.trace (StoreStep.counted (opened.trace troubledHistory)) =
        (opened.trace troubledHistory).filter (fun turn => turn.2.counts) ∧
      load (opened.run troubledHistory).disk ["data"] = .ok (Store.empty.insertAll firstBatch) := by
  have missing : Disk.empty.storeFile ["data"] = .error .notFound := by decide +kernel
  obtain ⟨opened, opens, refines⟩ := file_refines_memory missing
  obtain rfl : { home := some ["data"] } = opened :=
    Except.ok.inj (.trans (by decide +kernel) opens)
  have sound : OnSoundDisk ["data"] { home := some ["data"] } troubledHistory :=
    ⟨fun _ => Disk.saves_iff.2 (by decide +kernel), by unfold ActsSoundly; decide +kernel,
      fun _ => Disk.saves_iff.2 (by decide +kernel), trivial,
      by unfold ActsSoundly; decide +kernel, fun works => absurd works (Option.some_ne_none _),
      trivial, trivial, trivial⟩
  obtain ⟨traces, -, moments⟩ := refines troubledHistory (by decide) sound
  refine ⟨_, opens, by decide +kernel, traces, ?_⟩
  rw [(moments troubledHistory (List.prefix_refl _)).1]
  decide +kernel

end Backend

end IngestLedger
