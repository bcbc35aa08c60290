import IngestLedger.Json.Reader

/-!
# Records in JSON

A record with known fields is written as an object, in any order of its fields, or as the array of
its fields in their order. It is read member by member: the first member that is wrong decides the
fault, be it a field that stands twice, a value that its field refuses or text that is no JSON.
Fields that are missing are noticed when the record ends, in the order in which they are declared,
and text behind the record last of all. Unknown members are passed over.

Main definitions:

* `Json.Fault`: what is wrong with a document.
* `Json.Outline`: the members of a record as far as they can be read.
* `Json.Field`: a field with the reader of its value.
* `Json.readRecord`: the record of a document.
-/

namespace IngestLedger.Json

/-- What is wrong with a document. -/
inductive Fault where
  | missingField (name : String)
  | duplicateField (name : String)
  | unknownVariant (given : String) (expected : List String)
  /-- A field refuses its value and tells why. -/
  | refused (reason : String)
  /-- The text is no JSON, or a value is not of the kind that its field wants. -/
  | malformed
  deriving DecidableEq, Repr

/-- A name between backquotes. -/
def named (name : String) : String := "\x60" ++ name ++ "\x60"

/-- The variants that a field knows. -/
def expectedOf : List String → String
  | [] => "there are no variants"
  | [a] => "expected " ++ named a
  | [a, b] => "expected " ++ named a ++ " or " ++ named b
  | names => "expected one of " ++ String.intercalate ", " (names.map named)

/-- The fault in words. -/
def Fault.message : Fault → String
  | .missingField name => "missing field " ++ named name
  | .duplicateField name => "duplicate field " ++ named name
  | .unknownVariant given expected =>
    "unknown variant " ++ named given ++ ", " ++ expectedOf expected
  | .refused reason => reason
  | .malformed => "not a document of the expected form"

/-- How the reading of a record ends: at its closing mark, with the characters after it, or at
something unreadable. This may stand in the place of the value of a field, and begin as an object
whose first name can be read. -/
inductive Ending where
  | closed (rest : List Char)
  | cut (name opening : Option String)

/-- The members of a record as far as they can be read; those of an array have no names. -/
inductive Outline where
  | members (list : List (String × Value)) (ending : Ending)
  | items (list : List Value) (ending : Ending)

/-- The first name of an object at the front. -/
def openingName? (chars : List Char) : Option String :=
  match skipBlanks chars with
  | '\x7b' :: rest =>
    match skipBlanks rest with
    | '"' :: rest =>
      match readString rest with
      | some (name, _) => name
      | none => none
    | _ => none
  | _ => none

/-- The members of an object from a name on. -/
def outlineMembers : (fuel : Nat) → List Char → List (String × Value) × Ending
  | 0, _ => ([], .cut none none)
  | fuel + 1, chars =>
    match skipBlanks chars with
    | '"' :: rest =>
      match readString rest with
      | some (some name, rest) =>
        match skipBlanks rest with
        | ':' :: rest =>
          match readValue rest with
          | none => ([], .cut (some name) (openingName? rest))
          | some (value, rest) =>
            match skipBlanks rest with
            | '\x7d' :: rest => ([(name, value)], .closed rest)
            | ',' :: rest =>
              let (members, ending) := outlineMembers fuel rest
              ((name, value) :: members, ending)
            | _ => ([(name, value)], .cut none none)
        | _ => ([], .cut (some name) none)
      | _ => ([], .cut none none)
    | _ => ([], .cut none none)

/-- The items of an array from an item on. -/
def outlineItems : (fuel : Nat) → List Char → List Value × Ending
  | 0, _ => ([], .cut none none)
  | fuel + 1, chars =>
    match readValue chars with
    | none => ([], .cut none (openingName? chars))
    | some (item, rest) =>
      match skipBlanks rest with
      | ']' :: rest => ([item], .closed rest)
      | ',' :: rest =>
        let (items, ending) := outlineItems fuel rest
        (item :: items, ending)
      | _ => ([item], .cut none none)

/-- The outline of a text that begins with an object or an array. -/
def outline? (chars : List Char) : Option Outline :=
  match skipBlanks chars with
  | '\x7b' :: rest =>
    match skipBlanks rest with
    | '\x7d' :: rest => some (.members [] (.closed rest))
    | rest =>
      let (members, ending) := outlineMembers (rest.length + 1) rest
      some (.members members ending)
  | '[' :: rest =>
    match skipBlanks rest with
    | ']' :: rest => some (.items [] (.closed rest))
    | rest =>
      let (items, ending) := outlineItems (rest.length + 1) rest
      some (.items items ending)
  | _ => none

/-- A record whose members have names. `positional` tells that it was written as an array, whose
missing fields are no fault of their own kind. -/
structure Record where
  members : List (String × Value)
  ending : Ending
  positional : Bool

/-- The record of an outline, whose items are named by the fields in order; items beyond the last
field are unreadable. -/
def Outline.record (names : List String) : Outline → Record
  | .members list ending => ⟨list, ending, false⟩
  | .items list ending =>
    let ending :=
      if list.length ≤ names.length then
        match ending with
        | .closed rest => .closed rest
        | .cut _ opening => .cut names[list.length]? opening
      else .cut none none
    ⟨names.zip list, ending, true⟩

/-- A field of a record: its name, the reader of its value, what is wrong with an object in its
place of which only the first name can be read, and what the field is when the record is an object
without it or an array that ends before it. -/
structure Field (α : Type) where
  name : String
  read : Value → Except Fault α
  opening : String → Fault := fun _ => .malformed
  absent : Option α := none
  absentItem : Option α := absent

/-- A field without the type of its value. -/
structure Probe where
  name : String
  check : Value → Except Fault Unit
  opening : String → Fault

/-- Whether a value is good for a field. -/
def Field.probe {α : Type} (field : Field α) : Probe where
  name := field.name
  check value :=
    match field.read value with
    | .ok _ => .ok ()
    | .error fault => .error fault
  opening := field.opening

namespace Record

/-- The first fault of the members from the given ones on, of which the fields `seen` stood
before. -/
def verifyFrom (probes : List Probe) (ending : Ending) :
    (seen : List String) → List (String × Value) → Except Fault Unit
  | seen, [] =>
    match ending with
    | .closed _ => .ok ()
    | .cut none _ => .error .malformed
    | .cut (some name) opening =>
      if seen.contains name then .error (.duplicateField name)
      else
        match probes.find? (·.name = name), opening with
        | some probe, some first => .error (probe.opening first)
        | _, _ => .error .malformed
  | seen, (name, value) :: members =>
    match probes.find? (·.name = name) with
    | none => verifyFrom probes ending seen members
    | some probe =>
      if seen.contains name then .error (.duplicateField name)
      else
        match probe.check value with
        | .error fault => .error fault
        | .ok () => verifyFrom probes ending (name :: seen) members

/-- The first fault of the members. -/
def verify (record : Record) (probes : List Probe) : Except Fault Unit :=
  verifyFrom probes record.ending [] record.members

/-- The value of a field. -/
def get {α : Type} (record : Record) (field : Field α) : Except Fault α :=
  match record.members.lookup field.name with
  | some value => field.read value
  | none =>
    if record.positional then
      match field.absentItem with
      | some value => .ok value
      | none => .error .malformed
    else
      match field.absent with
      | some value => .ok value
      | none => .error (.missingField field.name)

/-- Nothing but blanks may stand behind a record. -/
def finish (record : Record) : Except Fault Unit :=
  match record.ending with
  | .closed rest => if (skipBlanks rest).isEmpty then .ok () else .error .malformed
  | .cut _ _ => .error .malformed

end Record

/-- The value that `build` makes of the record of a text with the given fields. -/
def readRecord {α : Type} (probes : List Probe) (build : Record → Except Fault α) (text : String) :
    Except Fault α :=
  match outline? text.toList with
  | none => .error .malformed
  | some outline => do
    let record := outline.record (probes.map Probe.name)
    record.verify probes
    let value ← build record
    record.finish
    return value

/-- The words of a text value. -/
def readText : Value → Except Fault String
  | .string (some text) => .ok text
  | _ => .error .malformed

/-- A whole number of at most 64 bits, written as plain digits. -/
def readUInt64 : Value → Except Fault UInt64
  | .number (.natural n) => .ok n
  | _ => .error .malformed

/-- A whole number of at most 32 bits, written as plain digits. -/
def readUInt32 : Value → Except Fault UInt32
  | .number (.natural n) => if n < 0x100000000 then .ok n.toUInt32 else .error .malformed
  | _ => .error .malformed

/-- A whole number of at most eight bits, written as plain digits. -/
def readUInt8 : Value → Except Fault UInt8
  | .number (.natural n) => if n < 0x100 then .ok n.toUInt8 else .error .malformed
  | _ => .error .malformed

/-- A truth value. -/
def readBool : Value → Except Fault Bool
  | .bool value => .ok value
  | _ => .error .malformed

/-- A value that may be null. -/
def readOptional {α : Type} (read : Value → Except Fault α) : Value → Except Fault (Option α)
  | .null => .ok none
  | value =>
    match read value with
    | .ok value => .ok (some value)
    | .error fault => .error fault

/-- What is wrong with an object in the place of one of several names. -/
def variantFault {α : Type} (variants : List (String × α)) (name : String) : Fault :=
  match variants.lookup name with
  | some _ => .malformed
  | none => .unknownVariant name (variants.map Prod.fst)

/-- One of several names, as a text or as an object with null under that name. -/
def readVariant {α : Type} (variants : List (String × α)) : Value → Except Fault α
  | .string (some name) | .object [(some name, .null)] =>
    match variants.lookup name with
    | some value => .ok value
    | none => .error (.unknownVariant name (variants.map Prod.fst))
  | .object ((some name, _) :: _) => .error (variantFault variants name)
  | _ => .error .malformed

end IngestLedger.Json
