import IngestLedger.Key

/-!
# Counters

The ledger counts what it does in families of counters: checkpoint rows moved, backfills that
reached their end, checks of the chain, identity rows written, and writes that were passed over
because the row was already as new. A counter of a family is told apart by the value of a label.

Main definitions:

* `Counter`: what is counted.
* `Counters`: the number of times each was counted.
-/

namespace IngestLedger

/-- The outcomes of a check of the chain. -/
inductive ChainCheck where
  | initialized
  | verified
  | mismatch
  deriving DecidableEq, Repr

/-- The kinds of run that move a progress row. -/
inductive ProgressKind where
  | live
  | backfill
  deriving DecidableEq, Repr

/-- The tables whose rows are guarded by a version. -/
inductive RowTable where
  | processors
  | backfills
  | accountLinks
  | memberships
  deriving DecidableEq, Repr

/-- What is counted. -/
inductive Counter where
  | advanced (kind : ProgressKind)
  | backfillCompleted
  | chainChecked (outcome : ChainCheck)
  | identityWritten (table : RowTable)
  | staleIgnored (table : RowTable)
  deriving DecidableEq, Repr

/-- The name of the table in a label. -/
def RowTable.label : RowTable → String
  | .processors => "processor_checkpoint"
  | .backfills => "backfill_checkpoint"
  | .accountLinks => "account_auth_key_link"
  | .memberships => "auth_key_public_key_link"

/-- The families of counters. -/
inductive CounterFamily where
  | backfillsCompleted
  | chainChecks
  | advances
  | identityWrites
  | staleIgnored
  deriving DecidableEq, Repr

namespace CounterFamily

/-- All families, in the order of their names. -/
def all : List CounterFamily :=
  [backfillsCompleted, chainChecks, advances, identityWrites, staleIgnored]

/-- The name of the family. -/
def name : CounterFamily → String
  | backfillsCompleted => "ledger_backfills_completed_total"
  | chainChecks => "ledger_chain_verifications_total"
  | advances => "ledger_checkpoint_advances_total"
  | identityWrites => "ledger_identity_rows_written_total"
  | staleIgnored => "ledger_stale_writes_ignored_total"

/-- What the family counts. -/
def help : CounterFamily → String
  | backfillsCompleted => "Backfill runs marked complete"
  | chainChecks => "Chain id initialization and checks"
  | advances => "Checkpoint rows advanced"
  | identityWrites => "Identity link rows upserted"
  | staleIgnored => "Stale writes ignored as replays"

/-- The lines that introduce the family. -/
def header (family : CounterFamily) : List String :=
  ["# HELP " ++ family.name ++ " " ++ family.help, "# TYPE " ++ family.name ++ " counter"]

end CounterFamily

namespace Counter

/-- All counters that can be counted. -/
def all : List Counter :=
  [advanced .live, advanced .backfill, backfillCompleted, chainChecked .initialized,
    chainChecked .verified, chainChecked .mismatch, identityWritten .accountLinks,
    identityWritten .memberships, staleIgnored .processors, staleIgnored .backfills,
    staleIgnored .accountLinks, staleIgnored .memberships]

/-- The family of the counter. -/
def family : Counter → CounterFamily
  | advanced _ => .advances
  | backfillCompleted => .backfillsCompleted
  | chainChecked _ => .chainChecks
  | identityWritten _ => .identityWrites
  | staleIgnored _ => .staleIgnored

/-- The label of the counter and its value. -/
def label? : Counter → Option (String × String)
  | advanced .live => some ("mode", "default")
  | advanced .backfill => some ("mode", "backfill")
  | backfillCompleted => none
  | chainChecked .initialized => some ("outcome", "initialized")
  | chainChecked .verified => some ("outcome", "verified")
  | chainChecked .mismatch => some ("outcome", "mismatch")
  | identityWritten table => some ("table", table.label)
  | staleIgnored table => some ("table", table.label)

/-- The counter as it is named in a listing. -/
def series (counter : Counter) : String :=
  counter.family.name ++
    match counter.label? with
    | none => ""
    | some (label, value) => "\x7b" ++ label ++ "=\"" ++ value ++ "\"\x7d"

end Counter

/-- How often each thing was counted. -/
structure Counters where
  count : Counter → Nat

namespace Counters

/-- Nothing was counted. -/
def zero : Counters := ⟨fun _ => 0⟩

instance : Inhabited Counters := ⟨zero⟩

/-- Count several things, each as often as it stands in the list. -/
def add (counters : Counters) (counted : List Counter) : Counters :=
  ⟨fun c => counters.count c + counted.count c⟩

@[simp] theorem count_add (counters : Counters) (counted : List Counter) (c : Counter) :
    (counters.add counted).count c = counters.count c + counted.count c := rfl

/-- The counters that were counted, with their numbers. -/
def listing (counters : Counters) : List (String × Nat) :=
  (Counter.all.map fun c => (c.series, counters.count c)).filter fun entry => entry.2 ≠ 0

end Counters

end IngestLedger
