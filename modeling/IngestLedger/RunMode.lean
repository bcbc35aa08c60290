import IngestLedger.Text.Blank
import IngestLedger.Version

/-!
# Run modes

The mode of a run decides where a processor starts and which progress row it moves: a live run
moves the row of the processor, a backfill run moves the row of one named backfill, and a testing
run moves none.

Main statements:

* `RunMode.validate`: the settings that are refused, the empty backfill name before a range that
  ends before it begins.
-/

namespace IngestLedger

/-- How a processor runs. -/
inductive RunMode where
  /-- Follow the stream from the last progress, or from `initial` when there is none. -/
  | live (initial : Version)
  /-- Process again under the name `id`, from `initial` up to `ending`; with `overwrite`, earlier
  progress under that name is discarded. -/
  | backfill (id : String) (initial : Version) (ending : Option Version) (overwrite : Bool)
  /-- Replay from `start` up to `ending` without keeping progress. -/
  | testing (start : Version) (ending : Option Version)
  deriving DecidableEq, Repr

namespace RunMode

/-- The mode that follows the stream from its first version. -/
def standard : RunMode := .live 0

/-- The name of the mode. -/
def label : RunMode → String
  | .live .. => "default"
  | .backfill .. => "backfill"
  | .testing .. => "testing"

/-- Whether runs in this mode keep their progress. -/
def keepsProgress : RunMode → Bool
  | .testing .. => false
  | _ => true

/-- Why settings are refused. -/
inductive Invalid where
  | emptyBackfillId
  | endingBeforeStart (start ending : Version)
  deriving DecidableEq, Repr

/-- The reason in words. -/
def Invalid.message : Invalid → String
  | .emptyBackfillId => "Backfill id must not be empty"
  | .endingBeforeStart start ending =>
    s!"Ending version {ending} is before starting version {start}"

/-- Refuse an end below the start. -/
def checkOrder (start : Version) : Option Version → Except Invalid Unit
  | some ending => if ending < start then .error (.endingBeforeStart start ending) else .ok ()
  | none => .ok ()

/-- Refuse a backfill without a name, then a range that ends before it begins. -/
def validate : RunMode → Except Invalid Unit
  | .live _ => .ok ()
  | .backfill id initial ending _ =>
    if (Text.trimChars id.toList).isEmpty then .error .emptyBackfillId
    else checkOrder initial ending
  | .testing start ending => checkOrder start ending

end RunMode

/-- The name under which the progress of a processor's backfill is kept. -/
def backfillAlias (processor id : String) : String := processor ++ "_" ++ id

end IngestLedger
