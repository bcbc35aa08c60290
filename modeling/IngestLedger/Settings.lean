import IngestLedger.Text.Blank

/-!
# Storage settings

Where a ledger keeps its data, which kind of store backs it, whether writes are forced to the disk
and how long it waits for the lock of its directory. Settings are taken from named variables;
a variable that is not set, or whose value is not understood, leaves the default.

Main definitions:

* `StoreKind.ofText?`, `flag?`: the words that are understood.
* `StorageSettings.ofVariables`: the settings of some variables.
-/

namespace IngestLedger

/-- The kinds of store that settings can name. -/
inductive StoreKind where
  | memory
  | file
  | rocksDb
  deriving DecidableEq, Repr

namespace StoreKind

/-- The kind that a word names. -/
def ofText? (text : String) : Option StoreKind :=
  let word := Text.settingWord text
  if word = "memory" ∨ word = "mem" then some memory
  else if word = "file" then some file
  else if word = "rocksdb" ∨ word = "rocks" then some rocksDb
  else none

/-- Whether the store outlives the process. -/
def isPersistent : StoreKind → Bool
  | memory => false
  | file | rocksDb => true

end StoreKind

/-- The truth value that a word names. -/
def flag? (text : String) : Option Bool :=
  let word := Text.settingWord text
  if word = "1" ∨ word = "true" ∨ word = "yes" ∨ word = "on" then some true
  else if word = "0" ∨ word = "false" ∨ word = "no" ∨ word = "off" then some false
  else none

/-- The number of seconds that a text gives. -/
def seconds? (text : String) : Option Nat :=
  Text.wholeNumber? UInt64.size (Text.trimChars text.toList)

/-- The values of variables, by name. -/
abbrev Variables := String → Option String

/-- Where and how a ledger is stored. -/
structure StorageSettings where
  directory : String
  forceWrites : Bool
  /-- How long to wait for the lock, in milliseconds. -/
  lockTimeout : Nat
  kind : StoreKind
  deriving DecidableEq, Repr

namespace StorageSettings

/-- The settings without any variable. -/
def standard : StorageSettings where
  directory := "./data/ledger"
  forceWrites := true
  lockTimeout := 30 * 1000
  kind := .file

/-- The settings of a store that is only kept in memory. -/
def inMemory : StorageSettings := { standard with kind := .memory }

/-- The settings of some variables. -/
def ofVariables (value? : Variables) : StorageSettings where
  directory := (value? "LEDGER_DATA_DIR").getD standard.directory
  forceWrites := ((value? "LEDGER_SYNC_WRITES").bind flag?).getD standard.forceWrites
  lockTimeout :=
    (((value? "LEDGER_LOCK_TIMEOUT_SECS").bind seconds?).map (· * 1000)).getD standard.lockTimeout
  kind := ((value? "LEDGER_BACKEND").bind StoreKind.ofText?).getD standard.kind

end StorageSettings

end IngestLedger
