import IngestLedger.Proofs.Coalescing
import IngestLedger.Proofs.MultiKeys
import IngestLedger.Proofs.Records
import IngestLedger.Rotation

/-!
# Key sets of rotations

A rotation that was accepted has a key set when its scheme has members and its public key is short
enough to be recorded. All its events have one version, so of several members with one row the last
one counts.

Main statements:

* `KeyRotation.exists_keySet`: the key set of an accepted rotation.
* `KeyRotation.isLastNewest_memberEvent`: the event of a member at its last position is the one that
  coalescing keeps.
* `KeyRotation.isStorable_of_mem_events`: the events of a rotation can be stored.
-/

namespace IngestLedger

theorem mapM_eq_some_map {α β : Type} {f : α → Option β} {g : α → β} {xs : List α}
    (h : ∀ x ∈ xs, f x = some (g x)) : xs.mapM f = some (xs.map g) := by
  induction xs with
  | nil => rfl
  | cons x xs ih =>
    simp only [List.mapM_cons, h x List.mem_cons_self,
      ih fun y hy => h y (List.mem_cons_of_mem _ hy)]
    rfl

/-- An element of a list at its last position. -/
def IsLastAt {α : Type} (xs : List α) (position : Nat) (x : α) : Prop :=
  xs[position]? = some x ∧ x ∉ xs.drop (position + 1)

instance {α : Type} [DecidableEq α] (xs : List α) (position : Nat) (x : α) :
    Decidable (IsLastAt xs position x) :=
  inferInstanceAs (Decidable (_ ∧ _))

theorem exists_isLastAt {α : Type} {xs : List α} {x : α} (member : x ∈ xs) :
    ∃ position, IsLastAt xs position x := by
  induction xs with
  | nil => cases member
  | cons head tail ih =>
    by_cases inside : x ∈ tail
    · obtain ⟨position, here, last⟩ := ih inside
      exact ⟨position + 1, here, last⟩
    · obtain rfl := (List.mem_cons.1 member).resolve_right inside
      exact ⟨0, rfl, inside⟩

namespace KeyRotation

variable {rotation : KeyRotation} {document account : String} {version : Version} {set : KeySet}

theorem check_of_ofDocument (accepted : ofDocument document = .ok rotation) :
    rotation.check = .ok () := by
  unfold ofDocument at accepted
  split at accepted
  · cases accepted
  · split at accepted
    · cases accepted
    · rename_i checked
      rw [← Except.ok.inj accepted]
      exact checked

/-- The names of the types of members. -/
def typeNames : List String :=
  ["ed25519", "secp256k1_ecdsa", "secp256r1_ecdsa", "keyless", "federated_keyless"]

theorem typeName_mem (key : PublicKey) : key.typeName ∈ typeNames := by
  cases key <;> simp [PublicKey.typeName, typeNames]

/-- A member of the public key: a literal of a part of it, and a type. -/
def IsPart (rotation : KeyRotation) (member : KeySetMember) : Prop :=
  ∃ bytes : Bytes, member.publicKey = Hex.literal bytes ∧
    bytes.length ≤ rotation.publicKey.length ∧ member.publicKeyType ∈ typeNames

theorem isPart_of_mem_multiEd25519Members {member : KeySetMember}
    (inside : member ∈ rotation.multiEd25519Members) : rotation.IsPart member := by
  obtain ⟨i, -, rfl⟩ := List.mem_map.1 inside
  refine ⟨_, rfl, ?_, by simp [typeNames]⟩
  simp only [List.length_take, List.length_drop, List.length_dropLast]
  omega

/-- What a key is recorded as when its bytes are known. -/
def recorded (key : PublicKey) : KeySetMember := ⟨Hex.literal (key.bytes.getD []), key.typeName⟩

/-- The members of a public key that is a multi-key. -/
theorem multiKeyMembers?_eq {key : MultiKey}
    (read : MultiKey.ofBytes rotation.publicKey = .ok key) :
    rotation.multiKeyMembers? = some (key.members.map recorded) ∧
      ∀ member ∈ key.members.map recorded, rotation.IsPart member := by
  constructor
  · simp only [multiKeyMembers?, read]
    refine mapM_eq_some_map fun m inside => ?_
    obtain ⟨bytes, hbytes, -⟩ := MultiKey.exists_bytes_of_mem read inside
    simp only [multiKeyMember?, recorded, hbytes, Option.map_some, Option.getD_some]
  · intro member inside
    obtain ⟨m, hm, rfl⟩ := List.mem_map.1 inside
    obtain ⟨bytes, hbytes, short⟩ := MultiKey.exists_bytes_of_mem read hm
    refine ⟨bytes, ?_, short, typeName_mem m⟩
    simp only [recorded, hbytes, Option.getD_some]

/-- An accepted rotation of a scheme with members has a key set, unless its public key is too long
to be recorded. -/
theorem exists_keySet (accepted : ofDocument document = .ok rotation)
    (scheme : rotation.scheme = .multiEd25519 ∨
      rotation.scheme = .multiKey ∧ rotation.isOversized = false) :
    ∃ set, rotation.keySet? = some set ∧ ∀ member ∈ set.members, rotation.IsPart member := by
  have checked := check_of_ofDocument accepted
  rcases scheme with scheme | ⟨scheme, short⟩
  · simp only [keySet?, scheme]
    exact ⟨_, rfl, fun member => isPart_of_mem_multiEd25519Members⟩
  · simp only [check, scheme, short, Bool.false_eq_true, if_false] at checked
    split at checked
    · rename_i key read
      obtain ⟨members, parts⟩ := multiKeyMembers?_eq read
      simp only [keySet?, scheme, short, members, Bool.false_eq_true, if_false, Option.map_some]
      exact ⟨_, rfl, parts⟩
    · cases checked

/-! ### Events -/

theorem memberEvents_eq (hset : rotation.keySet? = some set) :
    rotation.memberEvents version =
      set.members.mapIdx (rotation.memberEvent version set.signatureType) := by
  simp only [memberEvents, hset]

theorem mem_memberEvents_iff (hset : rotation.keySet? = some set) {event : IdentityEvent} :
    event ∈ rotation.memberEvents version ↔ ∃ position member,
      set.members[position]? = some member ∧
        event = rotation.memberEvent version set.signatureType position member := by
  rw [memberEvents_eq hset, List.mem_mapIdx]
  constructor
  · rintro ⟨position, inside, rfl⟩
    exact ⟨position, _, List.getElem?_eq_getElem inside, rfl⟩
  · rintro ⟨position, member, here, rfl⟩
    obtain ⟨inside, rfl⟩ := List.getElem?_eq_some_iff.1 here
    exact ⟨position, inside, rfl⟩

/-- An event of a rotation is a link of one of its authentication keys or a member. -/
theorem mem_events {event : IdentityEvent} (h : event ∈ rotation.events account version) :
    (∃ authKey used, authKey ∈ [rotation.oldAuthKey, rotation.newAuthKey] ∧
      event = linkEvent account authKey used version) ∨ event ∈ rotation.memberEvents version := by
  simp only [events, List.mem_append, List.mem_cons] at h
  rcases h with h | rfl | h
  · split at h
    · cases h
    · exact .inl ⟨_, false, by simp, List.mem_singleton.1 h⟩
  · exact .inl ⟨_, true, by simp, rfl⟩
  · exact .inr h

/-- An event of a member is one of the key set. -/
theorem exists_of_mem_memberEvents {event : IdentityEvent}
    (h : event ∈ rotation.memberEvents version) : ∃ signatureType position member,
      event = rotation.memberEvent version signatureType position member := by
  unfold memberEvents at h
  split at h
  · cases h
  · obtain ⟨position, -, rfl⟩ := List.mem_mapIdx.1 h
    exact ⟨_, position, _, rfl⟩

/-- All events of a rotation have its version. -/
theorem version_of_mem_events {event : IdentityEvent}
    (h : event ∈ rotation.events account version) : event.version = version := by
  rcases mem_events h with ⟨authKey, used, -, rfl⟩ | h
  · rfl
  · obtain ⟨signatureType, position, member, rfl⟩ := exists_of_mem_memberEvents h
    rfl

/-- Two members with one row are the same member. -/
theorem eq_of_memberEvent_key {signatureType : String} {position other : Nat}
    {member rival : KeySetMember}
    (same : (rotation.memberEvent version signatureType position member).key =
      (rotation.memberEvent version signatureType other rival).key) : member = rival := by
  obtain ⟨publicKey, publicKeyType⟩ := member
  obtain ⟨publicKey', publicKeyType'⟩ := rival
  simp only [memberEvent, IdentityEvent.key, Key.membership.injEq, true_and] at same
  rw [same.1, same.2]

/-- Of the members with one row, the one at the last position counts. -/
theorem isLastNewest_memberEvent (hset : rotation.keySet? = some set) {position : Nat}
    {member : KeySetMember} (last : IsLastAt set.members position member) :
    IsLastNewest (rotation.events account version)
      (rotation.memberEvent version set.signatureType position member) := by
  obtain ⟨here, none_later⟩ := last
  obtain ⟨front, whole⟩ : ∃ front, rotation.events account version =
      front ++ rotation.memberEvents version :=
    ⟨(if rotation.oldAuthKey = rotation.newAuthKey then []
      else [linkEvent account rotation.oldAuthKey false version]) ++
        [linkEvent account rotation.newAuthKey true version], by simp [events]⟩
  have at_position : ∀ i, (rotation.memberEvents version)[i]? =
      set.members[i]?.map (rotation.memberEvent version set.signatureType i) := by
    intro i
    rw [memberEvents_eq hset, List.getElem?_mapIdx]
  have found : (rotation.memberEvents version)[position]? =
      some (rotation.memberEvent version set.signatureType position member) := by
    rw [at_position, here, Option.map_some]
  obtain ⟨inside, event_eq⟩ := List.getElem?_eq_some_iff.1 found
  -- all versions are the same, so only the place in the list counts
  refine ⟨front ++ (rotation.memberEvents version).take position,
    (rotation.memberEvents version).drop (position + 1), ?_, fun other before _ => ?_,
    fun other after same => ?_⟩
  · rw [whole, List.append_assoc, ← event_eq, ← List.drop_eq_getElem_cons inside,
      List.take_append_drop]
  · have earlier : other ∈ rotation.events account version := by
      rw [whole]
      rcases List.mem_append.1 before with before | before
      · exact List.mem_append_left _ before
      · exact List.mem_append_right _ (List.mem_of_mem_take before)
    rw [version_of_mem_events earlier]
    exact UInt64.le_refl _
  · -- an event for the same row further on would be for the same member
    obtain ⟨i, later, rfl⟩ := List.mem_iff_getElem.1 after
    rw [List.getElem_drop] at same
    have there := at_position (position + 1 + i)
    rw [List.getElem?_eq_getElem (by rw [List.length_drop] at later; omega), eq_comm,
      Option.map_eq_some_iff] at there
    obtain ⟨rival, hrival, event_eq'⟩ := there
    rw [← event_eq'] at same
    rw [eq_of_memberEvent_key same, ← List.getElem?_drop] at hrival
    exact absurd (List.mem_of_getElem? hrival) none_later

/-! ### What can be stored -/

theorem nameable_fits_of_mem_typeNames {name : String} (h : name ∈ typeNames) :
    Nameable name ∧ FitsField name :=
  (by decide +kernel : ∀ name ∈ typeNames, Nameable name ∧ FitsField name) name h

theorem fits_signatureType (hset : rotation.keySet? = some set) : FitsField set.signatureType := by
  have known : set.signatureType ∈ ["multi_ed25519_signature", "multi_key_signature"] := by
    unfold keySet? at hset
    split at hset
    · rw [← Option.some.inj hset]
      simp
    · split at hset
      · cases hset
      · obtain ⟨members, -, rfl⟩ := Option.map_eq_some_iff.1 hset
        simp
    · cases hset
    · cases hset
  exact (by decide +kernel : ∀ text ∈ ["multi_ed25519_signature", "multi_key_signature"],
    FitsField text) _ known

/-- The events of a rotation can be stored, when the account can stand in a key and no text is too
long for a record. -/
theorem isStorable_of_mem_events (hset : rotation.keySet? = some set)
    (parts : ∀ member ∈ set.members, rotation.IsPart member) (nameable : Nameable account)
    (fits : FitsField account) (literals : ∀ bytes ∈ [rotation.oldAuthKey, rotation.newAuthKey,
      rotation.publicKey], FitsField (Hex.literal bytes))
    {event : IdentityEvent} (h : event ∈ rotation.events account version) : event.IsStorable := by
  rw [IdentityEvent.isStorable_iff_texts]
  rcases mem_events h with ⟨authKey, used, inside, rfl⟩ | h
  · have fitsKey : FitsField (Hex.literal authKey) := by
      refine literals authKey ?_
      rcases List.mem_pair.1 inside with rfl | rfl <;> simp
    constructor
    · simp [linkEvent, IdentityEvent.key, Key.components, nameable, Hex.nameable_literal]
    · simp [linkEvent, IdentityEvent.texts, fits, fitsKey]
  · obtain ⟨position, member, here, rfl⟩ := (mem_memberEvents_iff hset).1 h
    obtain ⟨bytes, publicKey, short, named⟩ := parts member (List.mem_of_getElem? here)
    obtain ⟨nameableType, fitsType⟩ := nameable_fits_of_mem_typeNames named
    have fitsWhole := literals rotation.publicKey (by simp)
    have fitsPart : FitsField (Hex.literal bytes) := by
      unfold FitsField at fitsWhole ⊢
      rw [Hex.length_literal] at fitsWhole ⊢
      omega
    constructor
    · simp [memberEvent, IdentityEvent.key, Key.components, publicKey, nameableType,
        Hex.nameable_literal]
    · simp [memberEvent, IdentityEvent.texts, publicKey, fitsPart, fitsType, fitsWhole,
        fits_signatureType hset, literals rotation.newAuthKey]

end KeyRotation

end IngestLedger
