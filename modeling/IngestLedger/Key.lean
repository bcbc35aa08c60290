import IngestLedger.Text.Utf8

/-!
# Keys

Rows of several tables share one ordered store. The key of a row is the two-byte tag of its table
and the components that name the row, joined by NUL bytes; a component is therefore neither empty
nor holds a NUL. Rows that share their first component are found by scanning for that component
and the NUL after it.

Main definitions:

* `Key`: what names a row, and `Key.bytes`, the key in the store.
* `Family`: the rows that share a first component, and `Family.bytes`, what their keys begin with.
* `components?`: the components of a key behind what its family begins with.
-/

namespace IngestLedger

/-- The tables of the store. -/
inductive Table where
  | chain
  | metadata
  | processors
  | backfills
  /-- Links from an account to its authentication keys. -/
  | accountLinks
  /-- Index from an authentication key to accounts. -/
  | accountIndex
  /-- Public keys behind an authentication key. -/
  | memberships
  /-- Index from a public key to authentication keys. -/
  | membershipIndex
  deriving DecidableEq, Repr

/-- What the keys of a table begin with. -/
def Table.tag : Table → Bytes
  | .chain => [0x6C, 0x3A]
  | .metadata => [0x6D, 0x3A]
  | .processors => [0x70, 0x3A]
  | .backfills => [0x66, 0x3A]
  | .accountLinks => [0x61, 0x3A]
  | .accountIndex => [0x72, 0x3A]
  | .memberships => [0x6B, 0x3A]
  | .membershipIndex => [0x75, 0x3A]

theorem Table.tag_injective {s t : Table} (h : s.tag = t.tag) : s = t := by
  cases s <;> cases t <;> first | rfl | exact absurd h (by decide)

/-- The roles that a component of a key can have. -/
inductive Role where
  | processorName
  | backfillAlias
  | accountAddress
  | authKey
  | publicKeyType
  | publicKey
  deriving DecidableEq, Repr

/-- The role in words. -/
def Role.label : Role → String
  | .processorName => "processor name"
  | .backfillAlias => "backfill alias"
  | .accountAddress => "account address"
  | .authKey => "auth key"
  | .publicKeyType => "public key type"
  | .publicKey => "public key"

/-- A component of a key. -/
structure Component where
  role : Role
  text : String
  deriving DecidableEq, Repr

/-- Why a component cannot stand in a key. -/
inductive KeyFault where
  | empty (role : Role)
  | containsNul (role : Role)
  deriving DecidableEq, Repr

/-- The fault in words. -/
def KeyFault.message : KeyFault → String
  | .empty role => role.label ++ " is empty"
  | .containsNul role => role.label ++ " contains a NUL byte"

namespace Component

/-- The component as bytes, if it is neither empty nor holds a NUL. -/
def bytes (c : Component) : Except KeyFault Bytes :=
  let bytes := Utf8.encode c.text
  if bytes.isEmpty then .error (.empty c.role)
  else if bytes.contains 0 then .error (.containsNul c.role)
  else .ok bytes

/-- The components joined by NUL bytes; the first bad one is named. -/
def join : List Component → Except KeyFault Bytes
  | [] => .ok []
  | [c] => c.bytes
  | c :: d :: cs =>
    match c.bytes with
    | .error fault => .error fault
    | .ok front =>
      match join (d :: cs) with
      | .error fault => .error fault
      | .ok back => .ok (front ++ 0 :: back)

end Component

/-- What names a row. -/
inductive Key where
  | chain
  | layout
  | processor (name : String)
  | backfill (name : String)
  | accountLink (account authKey : String)
  | accountIndex (authKey account : String)
  | membership (authKey keyType publicKey : String)
  | membershipIndex (publicKey keyType authKey : String)
  deriving DecidableEq, Repr

namespace Key

/-- The table that holds the row. -/
def table : Key → Table
  | chain => .chain
  | layout => .metadata
  | processor .. => .processors
  | backfill .. => .backfills
  | accountLink .. => .accountLinks
  | accountIndex .. => .accountIndex
  | membership .. => .memberships
  | membershipIndex .. => .membershipIndex

/-- The components that name the row in its table. -/
def components : Key → List Component
  | chain | layout => []
  | processor name => [⟨.processorName, name⟩]
  | backfill name => [⟨.backfillAlias, name⟩]
  | accountLink account authKey => [⟨.accountAddress, account⟩, ⟨.authKey, authKey⟩]
  | accountIndex authKey account => [⟨.authKey, authKey⟩, ⟨.accountAddress, account⟩]
  | membership authKey keyType publicKey =>
    [⟨.authKey, authKey⟩, ⟨.publicKeyType, keyType⟩, ⟨.publicKey, publicKey⟩]
  | membershipIndex publicKey keyType authKey =>
    [⟨.publicKey, publicKey⟩, ⟨.publicKeyType, keyType⟩, ⟨.authKey, authKey⟩]

/-- The key of the one row of the chain table. -/
def chainBytes : Bytes := Table.chain.tag ++ Utf8.encode "chain"

/-- The key of the row that tells the layout of the store. -/
def layoutBytes : Bytes := Table.metadata.tag ++ Utf8.encode "layout"

/-- The key in the store: the tag of the table and the components. The two tables of a single row
have a fixed key. -/
def bytes : Key → Except KeyFault Bytes
  | chain => .ok chainBytes
  | layout => .ok layoutBytes
  | key =>
    match Component.join key.components with
    | .error fault => .error fault
    | .ok components => .ok (key.table.tag ++ components)

end Key

/-- The rows of a table that share their first component. -/
inductive Family where
  | linksOfAccount (account : String)
  | accountsOfAuthKey (authKey : String)
  | membersOfAuthKey (authKey : String)
  | authKeysOfPublicKey (publicKey : String)
  deriving DecidableEq, Repr

namespace Family

/-- The table of the rows. -/
def table : Family → Table
  | linksOfAccount _ => .accountLinks
  | accountsOfAuthKey _ => .accountIndex
  | membersOfAuthKey _ => .memberships
  | authKeysOfPublicKey _ => .membershipIndex

/-- The component that the rows share. -/
def shared : Family → Component
  | linksOfAccount account => ⟨.accountAddress, account⟩
  | accountsOfAuthKey authKey => ⟨.authKey, authKey⟩
  | membersOfAuthKey authKey => ⟨.authKey, authKey⟩
  | authKeysOfPublicKey publicKey => ⟨.publicKey, publicKey⟩

/-- What the keys of the rows begin with: the tag, the shared component and a NUL. -/
def bytes (family : Family) : Except KeyFault Bytes :=
  match family.shared.bytes with
  | .error fault => .error fault
  | .ok shared => .ok (family.table.tag ++ shared ++ [0])

end Family

/-- The components of `key` behind `front`, if it begins with that and they are all text. -/
def components? (front key : Bytes) : Option (List String) :=
  match List.isPrefixOf? front key with
  | none => none
  | some rest => (rest.splitOn 0).mapM Utf8.decode?

/-- A key as it is shown in messages: its text, with a slash for each NUL. -/
def displayKey (key : Bytes) : String :=
  String.ofList ((Utf8.lossy key).toList.map fun c => if c = '\x00' then '/' else c)

end IngestLedger
