import IngestLedger.Proofs.Lookups
import IngestLedger.Proofs.Rotations

/-!
# The signers after a rotation

When the events of a rotation are committed to a ledger that knows no members behind the new
authentication key, the signers of that key are the members that were verified. A member that the
public key lists more than once has one row, in which its last position counts.

Main statements:

* `Ledger.mem_currentSigners_after_rotation`: the signers after a committed rotation.
* `Life.currentSigners_after_rotation`: the rotation of a document can be committed, and then has
  these signers.
-/

namespace IngestLedger

namespace Ledger

variable {ledger after : Ledger} {facts : Facts} {now : Timestamp} {processor account : String}
  {mode : RunMode} {batch : BatchInfo} {outcome : BatchOutcome} {rotation : KeyRotation}
  {set : KeySet} {version : Version}

/-- The facts of the members after a rotation, behind an authentication key without members. -/
theorem fact_after_rotation (hset : rotation.keySet? = some set)
    (no_members : ∀ keyType publicKey,
      facts (.membership (Hex.literal rotation.newAuthKey) keyType publicKey) = none)
    {keyType publicKey : String} {event : IdentityEvent} :
    facts.supersedeAll (coalesce (rotation.events account version))
        (.membership (Hex.literal rotation.newAuthKey) keyType publicKey) = some event ↔
      ∃ position, IsLastAt set.members position ⟨publicKey, keyType⟩ ∧
        event = rotation.memberEvent version set.signatureType position ⟨publicKey, keyType⟩ := by
  have newest : ∀ position, IsLastAt set.members position ⟨publicKey, keyType⟩ →
      facts.supersedeAll (coalesce (rotation.events account version))
        (.membership (Hex.literal rotation.newAuthKey) keyType publicKey) =
      some (rotation.memberEvent version set.signatureType position ⟨publicKey, keyType⟩) := by
    intro position last
    have kept : IsLastNewest (rotation.events account version)
        (rotation.memberEvent version set.signatureType position ⟨publicKey, keyType⟩) :=
      rotation.isLastNewest_memberEvent hset last
    refine (Facts.supersedeAll_coalesce kept).trans (newer_of_fresh fun old held => ?_)
    exact absurd (held.symm.trans (no_members keyType publicKey)) nofun
  constructor
  · intro held
    rcases forall_ne_or_exists_isPicked isTieRule_last (rotation.events account version)
      (.membership (Hex.literal rotation.newAuthKey) keyType publicKey) with none | found
    · rw [Facts.supersedeAll_coalesce_of_forall_ne none, no_members] at held
      cases held
    · obtain ⟨top, htop, row⟩ := found
      -- of the events of the rotation, only those of its members are for such a row
      rcases KeyRotation.mem_events htop.mem with ⟨authKey, used, -, rfl⟩ | inside
      · cases row
      · obtain ⟨i, member, here, rfl⟩ := (KeyRotation.mem_memberEvents_iff hset).1 inside
        obtain ⟨-, rfl, rfl⟩ := Key.membership.inj row
        obtain ⟨position, last⟩ := exists_isLastAt (List.mem_of_getElem? here)
        exact ⟨position, last, Option.some.inj (held.symm.trans (newest position last))⟩
  · rintro ⟨position, last, rfl⟩
    exact newest position last

/-- The signers after a rotation, behind an authentication key without members: the members whose
last position was verified. -/
theorem mem_currentSigners_after_rotation (h : ledger.Shows facts)
    (hset : rotation.keySet? = some set)
    (no_members : ∀ keyType publicKey,
      facts (.membership (Hex.literal rotation.newAuthKey) keyType publicKey) = none)
    (committed : ledger.commitBatch now processor mode batch (rotation.events account version) =
      (.ok outcome, after)) :
    ∃ signers, after.currentSigners (Hex.literal rotation.newAuthKey) = .ok signers ∧
      ∀ text, text ∈ signers ↔ ∃ position member, IsLastAt set.members position member ∧
        rotation.isVerified position = true ∧ member.publicKey = text := by
  have around := sameAround_commitBatch committed
  have shows : after.Shows (facts.supersedeAll (coalesce (rotation.events account version))) :=
    ⟨represents_commitBatch h.represents committed, around.faults ▸ h.gets,
      around.faults ▸ h.scans⟩
  obtain ⟨signers, hsigners, members⟩ :=
    mem_currentSigners shows (Hex.nameable_literal rotation.newAuthKey)
  refine ⟨signers, hsigners, fun text => ?_⟩
  rw [members]
  constructor
  · rintro ⟨row, ⟨fact, same⟩, used, rfl⟩
    rw [same, fact_after_rotation hset no_members] at fact
    obtain ⟨position, last, event⟩ := fact
    have flag : row.used = rotation.isVerified position :=
      congrArg Membership.used (IdentityEvent.member.inj event)
    exact ⟨position, _, last, flag ▸ used, rfl⟩
  · rintro ⟨position, ⟨publicKey, keyType⟩, last, verified, rfl⟩
    have fact : facts.supersedeAll (coalesce (rotation.events account version))
        (.membership (Hex.literal rotation.newAuthKey) keyType publicKey) =
          some (rotation.memberEvent version set.signatureType position ⟨publicKey, keyType⟩) :=
      (fact_after_rotation hset no_members).2 ⟨position, last, rfl⟩
    exact ⟨⟨_, publicKey, keyType, _, _, _, _⟩, ⟨fact, rfl⟩, verified, rfl⟩

end Ledger

/-- The signers after a committed rotation, at the end of a life that knows no members behind its
new authentication key. -/
theorem Life.mem_currentSigners_after_rotation {life : Life} {now : Timestamp}
    {processor account : String} {mode : RunMode} {batch : BatchInfo} {outcome : BatchOutcome}
    {rotation : KeyRotation} {set : KeySet} {version : Version} {after : Ledger}
    (works : life.ledger.backend.Works) (hset : rotation.keySet? = some set)
    (no_members : ∀ event, life.ledger.contents.Holds event →
      event.key.family? ≠ some (.membersOfAuthKey (Hex.literal rotation.newAuthKey)))
    (committed : life.ledger.commitBatch now processor mode batch
      (rotation.events account version) = (.ok outcome, after)) :
    ∃ signers, after.currentSigners (Hex.literal rotation.newAuthKey) = .ok signers ∧
      ∀ text, text ∈ signers ↔ ∃ position member, IsLastAt set.members position member ∧
        rotation.isVerified position = true ∧ member.publicKey = text := by
  obtain ⟨facts, represents, -⟩ := life.exists_represents
  have free : ∀ keyType publicKey,
      facts (.membership (Hex.literal rotation.newAuthKey) keyType publicKey) = none :=
    fun _ _ => represents.eq_none_of_family no_members rfl
  exact Ledger.mem_currentSigners_after_rotation ⟨represents, works.gets, works.scans⟩ hset free
    committed

/-- The rotation of a document, of a scheme with members and with a public key that is short enough
to be recorded, can be committed to a ledger that has verified its chain and knows no members behind
the new authentication key. Its signers are then the members whose last position was verified. -/
theorem Life.currentSigners_after_rotation (life : Life) {document : String}
    {rotation : KeyRotation} (account : String) (version : Version) (now : Timestamp)
    (processor : String) (start : Version) (ending : Option Version) (batch : BatchInfo)
    (accepted : KeyRotation.ofDocument document = .ok rotation)
    (scheme : rotation.scheme = .multiEd25519 ∨
      rotation.scheme = .multiKey ∧ rotation.isOversized = false)
    (verified : life.ledger.verifiedChain.isSome) (works : life.ledger.backend.Works)
    (nameable : Nameable account) (fits : FitsField account)
    (literals : ∀ bytes ∈ [rotation.oldAuthKey, rotation.newAuthKey, rotation.publicKey],
      FitsField (Hex.literal bytes))
    (no_members : ∀ event, life.ledger.contents.Holds event →
      event.key.family? ≠ some (.membersOfAuthKey (Hex.literal rotation.newAuthKey))) :
    ∃ set outcome after signers, rotation.keySet? = some set ∧
      life.ledger.commitBatch now processor (.testing start ending) batch
        (rotation.events account version) = (.ok outcome, after) ∧
      after.currentSigners (Hex.literal rotation.newAuthKey) = .ok signers ∧
      ∀ text, text ∈ signers ↔ ∃ position member, IsLastAt set.members position member ∧
        rotation.isVerified position = true ∧ member.publicKey = text := by
  obtain ⟨set, hset, parts⟩ := KeyRotation.exists_keySet accepted scheme
  obtain ⟨facts, represents, -⟩ := life.exists_represents
  obtain ⟨outcome, after, committed⟩ := Ledger.exists_commitBatch_testing represents verified works
    fun _ member => KeyRotation.isStorable_of_mem_events hset parts nameable fits literals member
  obtain ⟨signers, hsigners, members⟩ :=
    Life.mem_currentSigners_after_rotation works hset no_members committed
  exact ⟨set, outcome, after, signers, hset, committed, hsigners, members⟩

/-! ### Multi-keys of two members -/

namespace TwoMembers

/-- A ledger that has only verified its chain. -/
def life : Life := .inMemory [.call 0 (.verifyChain 1)]

theorem works_life : life.ledger.backend.Works where
  gets := by decide +kernel
  scans := by decide +kernel
  writes := Backend.exists_write_ok (by decide +kernel) (by decide +kernel)

theorem not_holds_life (event : IdentityEvent) : ¬ life.ledger.contents.Holds event := by
  intro holds
  have delivered : life.delivered = [] := by decide +kernel
  have member := Life.mem_delivered_of_holds holds
  rw [delivered] at member
  cases member

/-- A rotation to two different keys, of which the first was verified. -/
def different : KeyRotation where
  newAuthKey := [0xaa]
  oldAuthKey := [0xbb]
  publicKey := [2, 0, 1, 0xcd, 0, 1, 0xce, 1]
  scheme := .multiKey
  verified := [0x80]

def differentDocument : String :=
  "\x7b\"new_auth_key\":\"0xaa\",\"old_auth_key\":\"0xbb\"," ++
  "\"public_key\":\"0x020001cd0001ce01\",\"public_key_scheme\":3,\"verified_public_key_bit_map\":\"0x80\"\x7d"

theorem keySet?_different : different.keySet? =
    some ⟨[⟨"0xcd", "ed25519"⟩, ⟨"0xce", "ed25519"⟩], "multi_key_signature"⟩ := by
  decide +kernel

/-- The verified key is a signer and the other one is not. -/
theorem currentSigners_after_different : ∃ outcome after signers,
    life.ledger.commitBatch 1 "p" (.testing 0 none) ⟨0, 5, none⟩ (different.events "0x1" 5) =
      (.ok outcome, after) ∧
    after.currentSigners "0xaa" = .ok signers ∧ "0xcd" ∈ signers ∧ "0xce" ∉ signers := by
  have accepted : KeyRotation.ofDocument differentDocument = .ok different := by decide +kernel
  obtain ⟨set, outcome, after, signers, hset, committed, hsigners, members⟩ :=
    life.currentSigners_after_rotation "0x1" 5 1 "p" 0 none ⟨0, 5, none⟩ accepted
      (.inr ⟨rfl, by decide⟩) (by decide +kernel) works_life (by decide) (by decide +kernel)
      (by decide +kernel) fun event holds => absurd holds (not_holds_life event)
  rw [keySet?_different] at hset
  obtain rfl := Option.some.inj hset
  refine ⟨outcome, after, signers, committed, hsigners, (members _).2 ?_, fun inside => ?_⟩
  · exact ⟨0, ⟨"0xcd", "ed25519"⟩, by decide, by decide, rfl⟩
  · obtain ⟨position, member, ⟨here, -⟩, verified, name⟩ := (members _).1 inside
    rcases position with _ | _ | position
    · obtain rfl := Option.some.inj here
      exact absurd name (by decide)
    · exact absurd verified (by decide)
    · cases here

/-- A rotation to one key twice, of which the first was verified. -/
def repeated : KeyRotation := { different with publicKey := [2, 0, 1, 0xcd, 0, 1, 0xcd, 1] }

def repeatedDocument : String :=
  "\x7b\"new_auth_key\":\"0xaa\",\"old_auth_key\":\"0xbb\"," ++
  "\"public_key\":\"0x020001cd0001cd01\",\"public_key_scheme\":3,\"verified_public_key_bit_map\":\"0x80\"\x7d"

theorem keySet?_repeated : repeated.keySet? =
    some ⟨[⟨"0xcd", "ed25519"⟩, ⟨"0xcd", "ed25519"⟩], "multi_key_signature"⟩ := by
  decide +kernel

/-- The key at the first position was verified, and is no signer. -/
theorem verified_key_is_no_signer :
    KeyRotation.ofDocument repeatedDocument = .ok repeated ∧ repeated.scheme = .multiKey ∧
    repeated.isOversized = false ∧ life.ledger.verifiedChain.isSome ∧
    (∀ event, ¬ life.ledger.contents.Holds event) ∧
    ∃ outcome after signers,
      life.ledger.commitBatch 1 "p" (.testing 0 none) ⟨0, 5, none⟩ (repeated.events "0x1" 5) =
        (.ok outcome, after) ∧
      after.currentSigners (Hex.literal repeated.newAuthKey) = .ok signers ∧
      ∃ set member, repeated.keySet? = some set ∧ set.members[0]? = some member ∧
        repeated.isVerified 0 = true ∧ member.publicKey ∉ signers := by
  have answer : (life.ledger.commitBatch 1 "p" (.testing 0 none) ⟨0, 5, none⟩
      (repeated.events "0x1" 5)).1 = .ok ⟨.skipped, 3, 0⟩ := by decide +kernel
  obtain ⟨signers, hsigners, members⟩ := Life.mem_currentSigners_after_rotation works_life
    keySet?_repeated (fun event holds => absurd holds (not_holds_life event)) (Prod.ext answer rfl)
  refine ⟨by decide +kernel, rfl, by decide, by decide +kernel, not_holds_life, _, _, signers,
    Prod.ext answer rfl, hsigners, _, _, keySet?_repeated, rfl, by decide, fun inside => ?_⟩
  obtain ⟨position, member, last, verified, -⟩ := (members _).1 inside
  rcases position with _ | _ | position
  · obtain rfl := Option.some.inj last.1
    exact absurd last (by decide)
  · exact absurd verified (by decide)
  · cases last.1

end TwoMembers

end IngestLedger
