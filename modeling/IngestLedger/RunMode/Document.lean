import IngestLedger.Json.Printer
import IngestLedger.Json.Record
import IngestLedger.RunMode

/-!
# Run modes in JSON

A run mode is written as a record whose field `type` names the mode and whose other fields are the
settings of that mode. The whole document is kept until the mode is known: what stands beside the
mode must be storable, and its fields are read after the document has been read to its end. An
array gives the mode first and then the settings in their order.

Main definitions:

* `RunMode.ofDocument`: the valid run mode of a document, or what is wrong with it.
* `RunMode.document`: a run mode as it is written.
-/

namespace IngestLedger.RunMode

/-- Why a document gives no valid run mode. -/
inductive DocumentFault where
  | unreadable (fault : Json.Fault)
  | invalid (reason : Invalid)
  deriving DecidableEq, Repr

/-- The text of a document that cannot be read, for a reason in words. -/
def unreadableMessage (reason : String) : String := "Invalid run mode: " ++ reason

/-- The fault in words. -/
def DocumentFault.message : DocumentFault → String
  | .unreadable fault => unreadableMessage fault.message
  | .invalid reason => reason.message

/-- The modes as documents name them. -/
inductive Tag where
  | default
  | backfill
  | testing
  deriving DecidableEq, Repr

/-- The field that names the mode. -/
def tagName : String := "type"

/-- The names of the modes. -/
def tags : List (String × Tag) :=
  [("default", .default), ("backfill", .backfill), ("testing", .testing)]

/-- How deep a setting may nest; the document itself is one level more. -/
def settingDepth : Nat := 126

/-- The mode that a value names. -/
def readTag (value : Json.Value) : Except Json.Fault Tag := do
  let name ← Json.readText value
  match tags.lookup name with
  | some tag => .ok tag
  | none => .error (.unknownVariant name (tags.map Prod.fst))

/-- The mode and the other members of an object, from the given members on. -/
def splitMembers (ending : Json.Ending) :
    (tag : Option Tag) → List (String × Json.Value) →
      Except Json.Fault (Tag × List (String × Json.Value))
  | some tag, [] =>
    match ending with
    | .closed _ => .ok (tag, [])
    | .cut name _ => .error (if name = some tagName then .duplicateField tagName else .malformed)
  | none, [] =>
    match ending with
    | .closed _ => .error (.missingField tagName)
    | .cut _ _ => .error .malformed
  | tag, (name, value) :: members =>
    if name = tagName then
      match tag with
      | some _ => .error (.duplicateField tagName)
      | none =>
        match readTag value with
        | .error fault => .error fault
        | .ok tag => splitMembers ending (some tag) members
    else if value.isStorable settingDepth then
      match splitMembers ending tag members with
      | .error fault => .error fault
      | .ok (tag, rest) => .ok (tag, (name, value) :: rest)
    else .error .malformed

/-- The mode of a document and the outline of its settings. -/
def splitTag : Json.Outline → Except Json.Fault (Tag × Json.Outline)
  | .members list ending =>
    match splitMembers ending none list with
    | .error fault => .error fault
    | .ok (tag, rest) => .ok (tag, .members rest ending)
  | .items [] (.closed _) => .error (.missingField tagName)
  | .items [] (.cut _ _) => .error .malformed
  | .items (first :: rest) ending =>
    match readTag first with
    | .error fault => .error fault
    | .ok tag =>
      match ending with
      | .closed _ =>
        if rest.all (·.isStorable settingDepth) then .ok (tag, .items rest ending)
        else .error .malformed
      | .cut _ _ => .error .malformed

/-- The first version of a run. -/
def initialField : Json.Field Version :=
  { name := "initial_starting_version", read := Json.readUInt64, absent := some 0 }

/-- The last version of a run. -/
def endingField : Json.Field (Option Version) :=
  { name := "ending_version", read := Json.readOptional Json.readUInt64, absent := some none }

/-- The name of a backfill. -/
def backfillIdField : Json.Field String := { name := "backfill_id", read := Json.readText }

/-- Whether earlier progress is discarded. -/
def overwriteField : Json.Field Bool :=
  { name := "overwrite_checkpoint", read := Json.readBool, absent := some false }

/-- The first version of a testing run. -/
def testingStartField : Json.Field Version :=
  { name := "override_starting_version", read := Json.readUInt64 }

/-- The fields of the settings of a mode. -/
def settingProbes : Tag → List Json.Probe
  | .default => [initialField.probe]
  | .backfill =>
    [backfillIdField.probe, initialField.probe, endingField.probe, overwriteField.probe]
  | .testing => [testingStartField.probe, endingField.probe]

/-- The run mode of a record of settings. -/
def ofSettings (record : Json.Record) : Tag → Except Json.Fault RunMode
  | .default => do return .live (← record.get initialField)
  | .backfill => do
    let id ← record.get backfillIdField
    let initial ← record.get initialField
    let ending ← record.get endingField
    let overwrite ← record.get overwriteField
    return .backfill id initial ending overwrite
  | .testing => do
    let start ← record.get testingStartField
    let ending ← record.get endingField
    return .testing start ending

/-- The run mode of a document, valid or not. -/
def read (text : String) : Except Json.Fault RunMode :=
  match Json.outline? text.toList with
  | none => .error .malformed
  | some outline => do
    let (tag, settings) ← splitTag outline
    let probes := settingProbes tag
    let record := settings.record (probes.map Json.Probe.name)
    record.verify probes
    let mode ← ofSettings record tag
    record.finish
    return mode

/-- The valid run mode of a document. -/
def ofDocument (text : String) : Except DocumentFault RunMode :=
  match read text with
  | .error fault => .error (.unreadable fault)
  | .ok mode =>
    match mode.validate with
    | .error reason => .error (.invalid reason)
    | .ok () => .ok mode

/-- The fields that a run mode is written with, the name of the mode first. -/
def fields : RunMode → List (String × Json.Value)
  | .live initial => [(tagName, .text "default"), (initialField.name, .word initial)]
  | .backfill id initial ending overwrite =>
    [(tagName, .text "backfill"), (backfillIdField.name, .text id),
      (initialField.name, .word initial), (endingField.name, .optional .word ending),
      (overwriteField.name, .bool overwrite)]
  | .testing start ending =>
    [(tagName, .text "testing"), (testingStartField.name, .word start),
      (endingField.name, .optional .word ending)]

/-- The document with the given fields in the given order. -/
def documentOf (fields : List (String × Json.Value)) : String :=
  String.ofList (Json.Value.record fields).render

/-- A run mode as it is written. -/
def document (mode : RunMode) : String := documentOf mode.fields

end IngestLedger.RunMode
