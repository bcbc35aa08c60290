import IngestLedger.Proofs.RotationDocuments

/-!
# Events of rotations

The events of an accepted rotation are told by its public key alone: the old authentication key
goes out of use if it is another one, the new one comes into use, and each key of the public key
becomes a member, in order. The keys of a multi-ed25519 key are the public key cut into parts of 32
bytes, up to its last byte; those of a multi-key are its members.

Main definitions:

* `KeyRotation.HoldsKeys`: the keys of a public key and the type of the signatures they give.
* `KeyRotation.IsMarked`: the positions that a bitmap marks.

Main statements:

* `KeyRotation.events_of_ofDocument`: the events of an accepted rotation.
-/

namespace IngestLedger

theorem flatten_chunks (bytes : Bytes) (size count : Nat) :
    ((List.range count).map fun i => (bytes.drop (size * i)).take size).flatten =
      bytes.take (size * count) := by
  induction count with
  | zero => simp
  | succ count ih =>
    rw [List.range_succ, List.map_append, List.flatten_append, ih, Nat.mul_succ, List.take_add]
    simp

namespace KeyRotation

section

variable {rotation : KeyRotation} {document : String}

/-! ### Marked positions -/

/-- A bitmap marks a position when it has the byte of the position and there the bit is set, where
the first position of a byte is its highest bit. -/
def IsMarked (bitmap : Bytes) (position : Nat) : Prop :=
  ∃ inside : position / 8 < bitmap.length, bitmap[position / 8].toNat.testBit (7 - position % 8)

instance (bitmap : Bytes) (position : Nat) : Decidable (IsMarked bitmap position) :=
  inferInstanceAs (Decidable (∃ _ : _, _))

theorem isVerified_iff {position : Nat} :
    rotation.isVerified position = true ↔ IsMarked rotation.verified position := by
  unfold isVerified IsMarked
  split
  · rename_i byte found
    obtain ⟨inside, same⟩ := List.getElem?_eq_some_iff.1 found
    simp [inside, same]
  · rename_i none
    have beyond := List.getElem?_eq_none_iff.1 none
    refine ⟨nofun, ?_⟩
    rintro ⟨inside, -⟩
    exact absurd inside (Nat.not_lt.2 beyond)

theorem mem_verifiedPositions_iff {position : Nat} :
    position ∈ rotation.verifiedPositions ↔ IsMarked rotation.verified position := by
  rw [verifiedPositions, List.mem_filter, List.mem_range, isVerified_iff]
  refine ⟨fun h => h.2, fun marked => ⟨?_, marked⟩⟩
  obtain ⟨inside, -⟩ := marked
  omega

/-! ### Keys -/

/-- The keys of a public key with the names of their types, and the type of the signatures they
give. A multi-key whose literal is longer than 13000 characters and a public key of a scheme
without members have none. -/
inductive HoldsKeys (rotation : KeyRotation) : List (Bytes × String) → String → Prop
  | multiEd25519 {keys : List Bytes} {last : UInt8} (scheme : rotation.scheme = .multiEd25519)
    (nonempty : keys ≠ []) (sized : ∀ key ∈ keys, key.length = 32)
    (whole : rotation.publicKey = keys.flatten ++ [last]) :
    HoldsKeys rotation (keys.map fun key => (key, "ed25519")) "multi_ed25519_signature"
  | multiKey {key : MultiKey} {keys : List (Bytes × String)} (scheme : rotation.scheme = .multiKey)
    (short : (Hex.literal rotation.publicKey).length ≤ 13000)
    (decoded : MultiKey.ofBytes rotation.publicKey = .ok key)
    (members : key.members.map (fun member => (member.bytes, member.typeName)) =
      keys.map fun part => (some part.1, part.2)) :
    HoldsKeys rotation keys "multi_key_signature"
  | none {signatureType : String} (scheme : rotation.scheme ≠ .multiEd25519)
    (long : rotation.scheme = .multiKey → 13000 < (Hex.literal rotation.publicKey).length) :
    HoldsKeys rotation [] signatureType

/-- The event that a key at a position becomes a member. -/
def membership (rotation : KeyRotation) (version : Version) (signatureType : String)
    (position : Nat) (key : Bytes × String) : IdentityEvent :=
  .member
    { authKey := Hex.literal rotation.newAuthKey
      publicKey := Hex.literal key.1
      publicKeyType := key.2
      accountPublicKey := some (Hex.literal rotation.publicKey)
      used := decide (IsMarked rotation.verified position)
      signatureType
      version }

/-- A key as a member of a key set. -/
def memberOf (key : Bytes × String) : KeySetMember := ⟨Hex.literal key.1, key.2⟩

theorem memberEvent_memberOf {version : Version} {signatureType : String} {position : Nat}
    {key : Bytes × String} : rotation.memberEvent version signatureType position (memberOf key) =
      rotation.membership version signatureType position key := by
  have used : rotation.isVerified position = decide (IsMarked rotation.verified position) := by
    rw [Bool.eq_iff_iff, isVerified_iff, decide_eq_true_iff]
  rw [memberEvent, membership, used]
  rfl

theorem memberEvents_of_keys {keys : List (Bytes × String)} {signatureType : String}
    (set : rotation.keySet? = some ⟨keys.map memberOf, signatureType⟩) (version : Version) :
    rotation.memberEvents version = keys.mapIdx (rotation.membership version signatureType) := by
  rw [memberEvents_eq set, List.mapIdx_eq_zipIdx_map, List.mapIdx_eq_zipIdx_map, List.zipIdx_map,
    List.map_map]
  exact List.map_congr_left fun _ _ => memberEvent_memberOf

/-- The keys of a well-formed multi-ed25519 key. -/
theorem exists_keys_of_multiEd25519 (scheme : rotation.scheme = .multiEd25519)
    (good : rotation.IsWellFormed) : ∃ keys : List Bytes,
      rotation.HoldsKeys (keys.map fun key => (key, "ed25519")) "multi_ed25519_signature" ∧
      rotation.keySet? = some ⟨(keys.map fun key => (key, "ed25519")).map memberOf,
        "multi_ed25519_signature"⟩ := by
  simp only [IsWellFormed, scheme] at good
  obtain ⟨longer, whole⟩ := good
  -- whole keys and one byte, so nothing is left over when the last byte is taken off
  obtain ⟨count, total⟩ : ∃ count, rotation.publicKey.length = 32 * count + 1 :=
    ⟨rotation.publicKey.length / 32, by omega⟩
  have some_key : rotation.publicKey ≠ [] := by
    rintro none
    rw [none] at longer
    cases longer
  have front : rotation.publicKey.dropLast.length = 32 * count := by
    rw [List.length_dropLast, total, Nat.add_sub_cancel]
  have cut : rotation.publicKey = ((List.range count).map fun i =>
      (rotation.publicKey.dropLast.drop (32 * i)).take 32).flatten ++
        [rotation.publicKey.getLast some_key] := by
    rw [flatten_chunks, ← front, List.take_length, List.dropLast_append_getLast]
  refine ⟨_, .multiEd25519 scheme ?_ ?_ cut, ?_⟩
  · simp only [ne_eq, List.map_eq_nil_iff, List.range_eq_nil]
    omega
  · intro key inside
    obtain ⟨i, bound, rfl⟩ := List.mem_map.1 inside
    rw [List.mem_range] at bound
    rw [List.length_take, List.length_drop, front]
    omega
  · have members : rotation.publicKey.dropLast.length / ed25519Length = count := by
      rw [front, ed25519Length]
      omega
    simp only [keySet?, scheme, multiEd25519Members, members, List.map_map]
    rfl

/-- The keys of a well-formed multi-key that is short enough. -/
theorem exists_keys_of_multiKey (scheme : rotation.scheme = .multiKey)
    (good : rotation.IsWellFormed)
    (short : (Hex.literal rotation.publicKey).length ≤ 13000) : ∃ keys,
      rotation.HoldsKeys keys "multi_key_signature" ∧
      rotation.keySet? = some ⟨keys.map memberOf, "multi_key_signature"⟩ := by
  simp only [IsWellFormed, scheme] at good
  obtain ⟨key, written⟩ := good.resolve_right (Nat.not_lt.2 short)
  have decoded := MultiKey.ofBytes_eq_ok_iff.2 written
  have recorded : rotation.isOversized = false := by
    rw [Bool.eq_false_iff]
    exact fun long => absurd (isOversized_iff.1 long) (Nat.not_lt.2 short)
  refine ⟨key.members.map fun member => (member.bytes.getD [], member.typeName),
    .multiKey scheme short decoded ?_, ?_⟩
  · rw [List.map_map]
    refine List.map_congr_left fun member inside => ?_
    obtain ⟨bytes, known, -⟩ := MultiKey.exists_bytes_of_mem decoded inside
    simp only [Function.comp_apply, known, Option.getD_some]
  · simp only [keySet?, scheme, recorded, (multiKeyMembers?_eq decoded).1, List.map_map,
      Bool.false_eq_true, if_false, Option.map_some]
    rfl

/-- The events of the members of a well-formed public key. -/
theorem exists_holdsKeys (good : rotation.IsWellFormed) : ∃ keys signatureType,
    rotation.HoldsKeys keys signatureType ∧
      ∀ version, rotation.memberEvents version =
        keys.mapIdx (rotation.membership version signatureType) := by
  have none (set : rotation.keySet? = Option.none) (version : Version) :
      rotation.memberEvents version = [] := by
    simp only [memberEvents, set]
  cases scheme : rotation.scheme with
  | ed25519 | singleKey =>
    refine ⟨[], "", .none (by simp [scheme]) (by simp [scheme]), none ?_⟩
    simp only [keySet?, scheme]
  | multiEd25519 =>
    obtain ⟨keys, holds, set⟩ := exists_keys_of_multiEd25519 scheme good
    exact ⟨_, _, holds, memberEvents_of_keys set⟩
  | multiKey =>
    rcases Nat.lt_or_ge 13000 (Hex.literal rotation.publicKey).length with long | short
    · refine ⟨[], "", .none (by simp [scheme]) fun _ => long, none ?_⟩
      simp only [keySet?, scheme, isOversized_iff.2 long, if_true]
    · obtain ⟨keys, holds, set⟩ := exists_keys_of_multiKey scheme good short
      exact ⟨_, _, holds, memberEvents_of_keys set⟩

/-! ### Keys of the store -/

theorem HoldsKeys.mem_typeNames {keys : List (Bytes × String)} {signatureType : String}
    (holds : rotation.HoldsKeys keys signatureType) {key : Bytes × String} (inside : key ∈ keys) :
    key.2 ∈ typeNames := by
  cases holds with
  | multiEd25519 =>
    obtain ⟨bytes, -, rfl⟩ := List.mem_map.1 inside
    exact .head _
  | multiKey _ _ _ members =>
    have part := List.mem_map_of_mem (f := fun part => (some part.1, part.2)) inside
    rw [← members] at part
    obtain ⟨member, -, same⟩ := List.mem_map.1 part
    rw [← (Prod.mk.inj same).2]
    exact typeName_mem member
  | none => cases inside

/-- With an account that can stand in a key, each event of a well-formed rotation has its row and
its index entry. -/
theorem exists_bytes_of_mem_events (good : rotation.IsWellFormed) {account : String}
    (nameable : Nameable account) {version : Version} {event : IdentityEvent}
    (h : event ∈ rotation.events account version) :
    (∃ bytes, event.key.bytes = .ok bytes) ∧ ∃ bytes, event.key.reversed.bytes = .ok bytes := by
  rw [Key.exists_bytes_reversed_iff, and_self, Key.exists_bytes_iff]
  rcases mem_events h with ⟨authKey, used, -, rfl⟩ | h
  · simp [linkEvent, IdentityEvent.key, Key.components, nameable, Hex.nameable_literal]
  · obtain ⟨keys, signatureType, holds, members⟩ := exists_holdsKeys good
    rw [members] at h
    obtain ⟨position, inside, rfl⟩ := List.mem_mapIdx.1 h
    have named := nameable_fits_of_mem_typeNames (holds.mem_typeNames (List.getElem_mem inside))
    simp [membership, IdentityEvent.key, Key.components, named.1, Hex.nameable_literal]

/-! ### The events of an accepted rotation -/

/-- The events of an accepted rotation, and the keys that can be built of them. -/
theorem events_of_ofDocument (accepted : ofDocument document = .ok rotation) (account : String)
    (version : Version) :
    (∃ keys signatureType, rotation.HoldsKeys keys signatureType ∧
      rotation.events account version =
        (if rotation.oldAuthKey = rotation.newAuthKey then []
          else [.link ⟨account, Hex.literal rotation.oldAuthKey, false, version⟩]) ++
        .link ⟨account, Hex.literal rotation.newAuthKey, true, version⟩ ::
          keys.mapIdx (rotation.membership version signatureType)) ∧
    (∀ position, position ∈ rotation.verifiedPositions ↔ IsMarked rotation.verified position) ∧
    (Nameable account → ∀ event ∈ rotation.events account version,
      (∃ bytes, event.key.bytes = .ok bytes) ∧ ∃ bytes, event.key.reversed.bytes = .ok bytes) := by
  have good := isWellFormed_iff.2 (check_of_ofDocument accepted)
  obtain ⟨keys, signatureType, holds, members⟩ := exists_holdsKeys good
  refine ⟨⟨keys, signatureType, holds, ?_⟩, fun position => mem_verifiedPositions_iff,
    fun nameable event => exists_bytes_of_mem_events good nameable⟩
  rw [events, members]
  rfl

/-! ### Oversized keys -/

theorem accountPublicKey_of_mem_events {account : String} {version : Version} {row : Membership}
    (h : .member row ∈ rotation.events account version) :
    row.accountPublicKey = some (Hex.literal rotation.publicKey) := by
  rcases mem_events h with ⟨authKey, used, -, same⟩ | h
  · cases same
  · obtain ⟨signatureType, position, member, same⟩ := exists_of_mem_memberEvents h
    rw [IdentityEvent.member.inj same]

/-- An oversized public key holds keys exactly when it is a multi-ed25519 key. -/
theorem HoldsKeys.ne_nil_iff {keys : List (Bytes × String)} {signatureType : String}
    (holds : rotation.HoldsKeys keys signatureType)
    (long : 13000 < (Hex.literal rotation.publicKey).length) :
    keys ≠ [] ↔ rotation.scheme = .multiEd25519 := by
  cases holds with
  | multiEd25519 scheme nonempty => simp [scheme, nonempty]
  | multiKey _ short => exact absurd long (Nat.not_lt.2 short)
  | none scheme => simp [scheme]

/-- A rotation to an oversized public key puts members into the key set exactly when it is a
multi-ed25519 key. -/
theorem exists_member_iff (good : rotation.IsWellFormed)
    (long : 13000 < (Hex.literal rotation.publicKey).length) (account : String)
    (version : Version) : (∃ row, .member row ∈ rotation.events account version) ↔
      rotation.scheme = .multiEd25519 := by
  obtain ⟨keys, signatureType, holds, members⟩ := exists_holdsKeys good
  rw [← holds.ne_nil_iff long]
  constructor
  · rintro ⟨row, inside⟩ rfl
    rcases mem_events inside with ⟨authKey, used, -, same⟩ | inside
    · cases same
    · rw [members] at inside
      cases inside
  · intro nonempty
    obtain ⟨key, others, rfl⟩ := List.exists_cons_of_ne_nil nonempty
    have first : rotation.membership version signatureType 0 key ∈
        rotation.memberEvents version := by
      rw [members, List.mapIdx_cons]
      exact .head _
    exact ⟨_, List.mem_append_right _ (.tail _ first)⟩

/-- Of the accepted rotations only those to a multi-ed25519 key record an account key of more than
13000 characters. -/
theorem oversized_iff (accepted : ofDocument document = .ok rotation) (account : String)
    (version : Version) :
    ((∃ row key, .member row ∈ rotation.events account version ∧
        row.accountPublicKey = some key ∧ 13000 < key.length) ↔
      rotation.scheme = .multiEd25519 ∧ 13000 < (Hex.literal rotation.publicKey).length) ∧
    (13000 < (Hex.literal rotation.publicKey).length →
      ((∀ event ∈ rotation.events account version, ∃ row, event = .link row) ↔
        rotation.scheme ≠ .multiEd25519)) := by
  have good := isWellFormed_iff.2 (check_of_ofDocument accepted)
  constructor
  · constructor
    · rintro ⟨row, key, inside, whole, long⟩
      rw [accountPublicKey_of_mem_events inside] at whole
      obtain rfl := Option.some.inj whole
      exact ⟨(exists_member_iff good long account version).1 ⟨row, inside⟩, long⟩
    · rintro ⟨scheme, long⟩
      obtain ⟨row, inside⟩ := (exists_member_iff good long account version).2 scheme
      exact ⟨row, _, inside, accountPublicKey_of_mem_events inside, long⟩
  · intro long
    rw [ne_eq, ← exists_member_iff good long account version]
    constructor
    · rintro links ⟨row, inside⟩
      obtain ⟨link, same⟩ := links _ inside
      cases same
    · intro none event inside
      cases event with
      | link row => exact ⟨row, rfl⟩
      | member row => exact absurd ⟨row, inside⟩ none

end

namespace MixedCase

theorem keys_eq {keys : List (Bytes × String)} {signatureType : String}
    (holds : rotation.HoldsKeys keys signatureType) :
    keys = [([0xcd], "ed25519"), ([0xcd], "ed25519")] ∧ signatureType = "multi_key_signature" := by
  cases holds with
  | multiEd25519 scheme => cases scheme
  | @multiKey key keys _ _ decoded members =>
    have known : MultiKey.ofBytes rotation.publicKey =
        .ok ⟨[.ed25519 [0xcd], .ed25519 [0xcd]], 1⟩ := by decide +kernel
    rw [known] at decoded
    obtain rfl := Except.ok.inj decoded
    have parts := congrArg (List.map fun part => (part.1.getD [], part.2)) members
    rw [List.map_map, List.map_map] at parts
    exact ⟨(parts.trans (List.map_id keys)).symm, rfl⟩
  | none _ long => exact absurd (long rfl) (by decide +kernel)

/-- A rotation away from an empty authentication key, to a multi-key that has one key twice. -/
theorem events_eq : ofDocument rotation.document = .ok rotation ∧ rotation.events "0x1" 7 =
    [.link ⟨"0x1", "0x", false, 7⟩, .link ⟨"0x1", "0xab", true, 7⟩,
      .member ⟨"0xab", "0xcd", "ed25519", some "0x020001cd0001cd01", true,
        "multi_key_signature", 7⟩,
      .member ⟨"0xab", "0xcd", "ed25519", some "0x020001cd0001cd01", true,
        "multi_key_signature", 7⟩] ∧
    ∀ event ∈ rotation.events "0x1" 7,
      (∃ bytes, event.key.bytes = .ok bytes) ∧ ∃ bytes, event.key.reversed.bytes = .ok bytes := by
  have accepted := ofDocument_document isWellFormed
  obtain ⟨⟨keys, signatureType, holds, events⟩, -, stored⟩ := events_of_ofDocument accepted "0x1" 7
  refine ⟨accepted, ?_, stored (by decide)⟩
  obtain ⟨rfl, rfl⟩ := keys_eq holds
  rw [events]
  decide +kernel

end MixedCase

namespace OversizedKey

/-- A rotation to the public key of some zero bytes. -/
def rotation (scheme : KeyScheme) (length : Nat) : KeyRotation :=
  ⟨[0xaa], [0xbb], List.replicate length 0, scheme, [0x80]⟩

theorem length_literal (scheme : KeyScheme) (length : Nat) :
    (Hex.literal (rotation scheme length).publicKey).length = 2 + 2 * length := by
  rw [Hex.string_length_literal, rotation, List.length_replicate]

/-- Just beyond the limit a multi-key is accepted unseen, and only links come of it. -/
theorem links_of_multiKey : ∃ document, ofDocument document = .ok (rotation .multiKey 6500) ∧
    ∀ event ∈ (rotation .multiKey 6500).events "0x1" 7, ∃ row, event = .link row := by
  have long : 13000 < (Hex.literal (rotation .multiKey 6500).publicKey).length := by
    rw [length_literal]
    decide
  have accepted : ofDocument (rotation .multiKey 6500).document =
      .ok (rotation .multiKey 6500) := ofDocument_document (.inr long)
  refine ⟨_, accepted, ((oversized_iff accepted "0x1" 7).2 long).2 ?_⟩
  decide

/-- A multi-ed25519 key of 204 keys is accepted, and its 13060 characters are recorded with each of
them. -/
theorem recorded_of_multiEd25519 : ∃ document,
    ofDocument document = .ok (rotation .multiEd25519 6529) ∧
    ∃ row key, .member row ∈ (rotation .multiEd25519 6529).events "0x1" 7 ∧
      row.accountPublicKey = some key ∧ key.length = 13060 := by
  have size : (rotation .multiEd25519 6529).publicKey.length = 6529 := List.length_replicate
  have good : (rotation .multiEd25519 6529).IsWellFormed :=
    ⟨by rw [size]; decide, by rw [size]⟩
  have long := length_literal .multiEd25519 6529
  obtain ⟨row, inside⟩ := (exists_member_iff good (by rw [long]; decide) "0x1" 7).2 rfl
  exact ⟨_, ofDocument_document good, row, _, inside, accountPublicKey_of_mem_events inside, long⟩

end OversizedKey

end KeyRotation

end IngestLedger
