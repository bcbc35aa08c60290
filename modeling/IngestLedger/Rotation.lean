import IngestLedger.Bytes.Hex
import IngestLedger.Identity
import IngestLedger.Json.Record
import IngestLedger.MultiKey

/-!
# Key rotations

A rotation replaces the authentication key of an account. It carries the new public key, whose
scheme tells how it is built up, and a bitmap of the members that were verified. A rotation turns
into identity events: the old authentication key goes out of use if it differs from the new one,
the new one comes into use, and each member of a multi-part public key becomes a member of the key
set behind the new authentication key.

Main definitions:

* `KeyRotation.isVerified`: the bitmap, highest bit first.
* `KeyRotation.keySet?`: the members of the new public key, where they are recorded.
* `KeyRotation.events`: the identity events of a rotation.
* `KeyRotation.ofDocument`: the rotation of a JSON document.
-/

namespace IngestLedger

/-- How a public key is built up. -/
inductive KeyScheme where
  | ed25519
  | multiEd25519
  | singleKey
  | multiKey
  deriving DecidableEq, Repr

namespace KeyScheme

/-- The scheme of a number. -/
def ofNumber? (n : UInt8) : Option KeyScheme :=
  if n = 0 then some ed25519
  else if n = 1 then some multiEd25519
  else if n = 2 then some singleKey
  else if n = 3 then some multiKey
  else none

/-- The name of the scheme. -/
def name : KeyScheme → String
  | ed25519 => "Ed25519"
  | multiEd25519 => "MultiEd25519"
  | singleKey => "SingleKey"
  | multiKey => "MultiKey"

/-- The refusal of a number without a scheme. -/
def unknownMessage (n : UInt8) : String := s!"unknown public key scheme {n}"

end KeyScheme

/-- The replacement of the authentication key of an account. -/
structure KeyRotation where
  newAuthKey : Bytes
  oldAuthKey : Bytes
  publicKey : Bytes
  scheme : KeyScheme
  verified : Bytes
  deriving DecidableEq, Repr

/-- Why a document gives no rotation. -/
inductive RotationFault where
  | malformed (fault : Json.Fault)
  /-- The length is not that of one or more keys of 32 bytes and one byte more. -/
  | badMultiEd25519 (length : Nat)
  | badMultiKey (fault : MultiKeyFault)
  deriving DecidableEq, Repr

namespace RotationFault

/-- The text for a document that cannot be read, for a reason in words. -/
def malformedMessage (reason : String) : String := "Malformed key rotation payload: " ++ reason

/-- The text for a public key that is no multi-key, for a reason in words. -/
def badMultiKeyMessage (reason : String) : String := "Invalid multi-key public key: " ++ reason

/-- The fault in words. -/
def message : RotationFault → String
  | malformed fault => malformedMessage fault.message
  | badMultiEd25519 length => s!"Invalid multi-ed25519 public key length: {length} bytes"
  | badMultiKey fault => badMultiKeyMessage fault.message

end RotationFault

/-- A member of a public key. -/
structure KeySetMember where
  publicKey : String
  publicKeyType : String
  deriving DecidableEq, Repr

/-- The members of a public key and the type of the signatures they give. -/
structure KeySet where
  members : List KeySetMember
  signatureType : String
  deriving DecidableEq, Repr

namespace KeyRotation

/-- The length of one key in a multi-ed25519 key. -/
def ed25519Length : Nat := 32

/-- The greatest length of the literal of a multi-key whose members are recorded. -/
def maxLiteralLength : Nat := 13000

/-- Whether the member at a position is marked in the bitmap, whose first bit is the highest of its
first byte. -/
def isVerified (rotation : KeyRotation) (position : Nat) : Bool :=
  match rotation.verified[position / 8]? with
  | some byte => byte.toNat.testBit (7 - position % 8)
  | none => false

/-- The positions that are marked in the bitmap. -/
def verifiedPositions (rotation : KeyRotation) : List Nat :=
  (List.range (8 * rotation.verified.length)).filter rotation.isVerified

/-- Whether the literal of the public key is longer than the greatest length that is recorded. -/
def isOversized (rotation : KeyRotation) : Bool :=
  2 + 2 * rotation.publicKey.length > maxLiteralLength

/-- The members of a multi-ed25519 key: as many whole keys as stand before its last byte. -/
def multiEd25519Members (rotation : KeyRotation) : List KeySetMember :=
  let keys := rotation.publicKey.dropLast
  (List.range (keys.length / ed25519Length)).map fun i =>
    ⟨Hex.literal ((keys.drop (ed25519Length * i)).take ed25519Length), "ed25519"⟩

/-- A member of a multi-key. -/
def multiKeyMember? (key : PublicKey) : Option KeySetMember :=
  key.bytes.map fun bytes => ⟨Hex.literal bytes, key.typeName⟩

/-- The members of a multi-key, if the public key is one. -/
def multiKeyMembers? (rotation : KeyRotation) : Option (List KeySetMember) :=
  match MultiKey.ofBytes rotation.publicKey with
  | .ok key => key.members.mapM multiKeyMember?
  | .error _ => none

/-- The key set that is recorded for the public key, if its scheme has members. -/
def keySet? (rotation : KeyRotation) : Option KeySet :=
  match rotation.scheme with
  | .multiEd25519 => some ⟨rotation.multiEd25519Members, "multi_ed25519_signature"⟩
  | .multiKey =>
    if rotation.isOversized then none
    else rotation.multiKeyMembers?.map fun members => ⟨members, "multi_key_signature"⟩
  | .ed25519 | .singleKey => none

/-- The event that puts a member at a position into the key set. -/
def memberEvent (rotation : KeyRotation) (version : Version) (signatureType : String)
    (position : Nat) (member : KeySetMember) : IdentityEvent :=
  .member
    { authKey := Hex.literal rotation.newAuthKey
      publicKey := member.publicKey
      publicKeyType := member.publicKeyType
      accountPublicKey := some (Hex.literal rotation.publicKey)
      used := rotation.isVerified position
      signatureType
      version }

/-- The events of the members of the new public key, in their order. -/
def memberEvents (rotation : KeyRotation) (version : Version) : List IdentityEvent :=
  match rotation.keySet? with
  | none => []
  | some set =>
    set.members.mapIdx (rotation.memberEvent version set.signatureType)

/-- The event that an authentication key comes into use for an account or goes out of use. -/
def linkEvent (account : String) (authKey : Bytes) (used : Bool) (version : Version) :
    IdentityEvent :=
  .link ⟨account, Hex.literal authKey, used, version⟩

/-- The identity events of a rotation of an account. -/
def events (rotation : KeyRotation) (account : String) (version : Version) : List IdentityEvent :=
  (if rotation.oldAuthKey = rotation.newAuthKey then []
    else [linkEvent account rotation.oldAuthKey false version]) ++
  linkEvent account rotation.newAuthKey true version :: rotation.memberEvents version

/-- Refuse a public key that is not built up as its scheme says. An oversized multi-key is not
looked into. -/
def check (rotation : KeyRotation) : Except RotationFault Unit :=
  match rotation.scheme with
  | .multiEd25519 =>
    let length := rotation.publicKey.length
    if length ≤ ed25519Length ∨ (length - 1) % ed25519Length ≠ 0 then
      .error (.badMultiEd25519 length)
    else .ok ()
  | .multiKey =>
    if rotation.isOversized then .ok ()
    else
      match MultiKey.ofBytes rotation.publicKey with
      | .ok _ => .ok ()
      | .error fault => .error (.badMultiKey fault)
  | .ed25519 | .singleKey => .ok ()

/-- A field of bytes, written as a literal. -/
def bytesField (name : String) : Json.Field Bytes where
  name
  read value := do
    let text ← Json.readText value
    match Hex.ofLiteral text with
    | .ok bytes => .ok bytes
    | .error fault => .error (.refused fault.message)

/-- The new authentication key. -/
def newAuthKeyField : Json.Field Bytes := bytesField "new_auth_key"

/-- The old authentication key. -/
def oldAuthKeyField : Json.Field Bytes := bytesField "old_auth_key"

/-- The new public key. -/
def publicKeyField : Json.Field Bytes := bytesField "public_key"

/-- The scheme of the new public key. -/
def schemeField : Json.Field KeyScheme where
  name := "public_key_scheme"
  read value := do
    let n ← Json.readUInt8 value
    match KeyScheme.ofNumber? n with
    | some scheme => .ok scheme
    | none => .error (.refused (KeyScheme.unknownMessage n))

/-- The bitmap of verified members. -/
def verifiedField : Json.Field Bytes := bytesField "verified_public_key_bit_map"

/-- The rotation of a JSON document, whatever its public key. -/
def read (text : String) : Except Json.Fault KeyRotation :=
  Json.readRecord
    [newAuthKeyField.probe, oldAuthKeyField.probe, publicKeyField.probe, schemeField.probe,
      verifiedField.probe]
    (fun record => do
      let newAuthKey ← record.get newAuthKeyField
      let oldAuthKey ← record.get oldAuthKeyField
      let publicKey ← record.get publicKeyField
      let scheme ← record.get schemeField
      let verified ← record.get verifiedField
      return { newAuthKey, oldAuthKey, publicKey, scheme, verified })
    text

/-- The rotation of a JSON document. -/
def ofDocument (text : String) : Except RotationFault KeyRotation :=
  match read text with
  | .error fault => .error (.malformed fault)
  | .ok rotation =>
    match rotation.check with
    | .error fault => .error fault
    | .ok () => .ok rotation

end KeyRotation

end IngestLedger
