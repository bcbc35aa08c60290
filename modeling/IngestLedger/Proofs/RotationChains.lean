import IngestLedger.Proofs.Lookups
import IngestLedger.Proofs.Rotations
import Mathlib.Data.List.Chain

/-!
# Chains of rotations

Rotations of one account, each of which begins at the authentication key that the one before it led
to, are committed in the order of their versions, rotations of one version in one batch. A rotation
takes only its own old key out of use; that no earlier key stays in use comes of the chain. Between
batches a link wins because it is newer, and within a batch, on one version, because it comes later.

Main definitions:

* `RotationBatch`, `Ledger.commitRotations`: batches of rotations that are committed one by one.
* `Facts.Uses`: the one authentication key in use for an account.

Main statements:

* `Facts.Uses.rotate`: what one rotation does to the key in use.
* `Ledger.commitRotations_ok`: the facts after batches of rotations.
* `Life.last_key_in_force`: after a chain of rotations, the last authentication key is in use for
  the account, and no other one is.
-/

namespace IngestLedger

/-- Rotations of an account with their versions, and the batch they are committed in. -/
structure RotationBatch where
  now : Timestamp
  processor : String
  mode : RunMode
  batch : BatchInfo
  rotations : List (KeyRotation × Version)

/-- The identity events of rotations of an account, in order. -/
def rotationEvents (account : String) (rotations : List (KeyRotation × Version)) :
    List IdentityEvent :=
  rotations.flatMap fun rotation => rotation.1.events account rotation.2

/-- Commit batches of rotations of an account, as long as they are answered. -/
def Ledger.commitRotations (ledger : Ledger) (account : String) : List RotationBatch → Option Ledger
  | [] => some ledger
  | batch :: batches =>
    match ledger.commitBatch batch.now batch.processor batch.mode batch.batch
        (rotationEvents account batch.rotations) with
    | (.ok _, after) => after.commitRotations account batches
    | (.error _, _) => none

section Events

variable {account : String} {rotations others : List (KeyRotation × Version)}

theorem rotationEvents_append : rotationEvents account (rotations ++ others) =
    rotationEvents account rotations ++ rotationEvents account others :=
  List.flatMap_append

theorem exists_version_of_mem {event : IdentityEvent}
    (member : event ∈ rotationEvents account rotations) :
    ∃ rotation ∈ rotations, event.version = rotation.2 := by
  obtain ⟨rotation, inside, here⟩ := List.mem_flatMap.1 member
  exact ⟨rotation, inside, KeyRotation.version_of_mem_events here⟩

/-- Rotations in the order of their versions give events in the order of theirs. -/
theorem pairwise_rotationEvents (ordered : rotations.Pairwise fun a b => a.2 ≤ b.2) :
    (rotationEvents account rotations).Pairwise fun a b => a.version ≤ b.version := by
  refine List.pairwise_flatMap.2 ⟨fun rotation _ => ?_, ordered.imp fun {a b} le x hx y hy => ?_⟩
  · refine List.pairwise_of_forall_mem_list fun x hx y hy => ?_
    rw [KeyRotation.version_of_mem_events hx, KeyRotation.version_of_mem_events hy]
    exact UInt64.le_refl _
  · rw [KeyRotation.version_of_mem_events hx, KeyRotation.version_of_mem_events hy]
    exact le

end Events

/-! ### The key in use -/

namespace Facts

/-- The authentication key in use for an account: no other one is, and none if there is no such
key. -/
def Uses (facts : Facts) (account : String) (current : Option String) : Prop :=
  ∀ authKey, (∃ link : AccountLink,
    facts (.accountLink account authKey) = some (.link link) ∧ link.used = true) ↔
      current = some authKey

variable {facts : Facts} {account : String} {current : Option String}

/-- The links of an account after a rotation. -/
theorem link_after_rotation (facts : Facts) (rotation : KeyRotation) (account : String)
    (version : Version) (authKey : String) :
    facts.overwriteAll (rotation.events account version) (.accountLink account authKey) =
      if authKey = Hex.literal rotation.newAuthKey then
        some (KeyRotation.linkEvent account rotation.newAuthKey true version)
      else if authKey = Hex.literal rotation.oldAuthKey then
        some (KeyRotation.linkEvent account rotation.oldAuthKey false version)
      else facts (.accountLink account authKey) := by
  -- members stand in other rows than links
  have members : ∀ event ∈ rotation.memberEvents version,
      event.key ≠ .accountLink account authKey := by
    intro event member
    obtain ⟨signatureType, position, part, rfl⟩ := KeyRotation.exists_of_mem_memberEvents member
    exact nofun
  have row : ∀ key used, (KeyRotation.linkEvent account key used version).key =
      .accountLink account (Hex.literal key) := fun _ _ => rfl
  rw [KeyRotation.events, overwriteAll_append, overwriteAll_cons,
    overwriteAll_of_forall_ne members]
  by_cases new : authKey = Hex.literal rotation.newAuthKey
  · rw [if_pos new, new]
    exact if_pos rfl
  · rw [if_neg new, overwrite_of_ne (by rw [row]; simpa using Ne.symm new)]
    by_cases same : rotation.oldAuthKey = rotation.newAuthKey
    · rw [if_pos same, overwriteAll_nil, if_neg (same ▸ new)]
    · rw [if_neg same, overwriteAll_cons, overwriteAll_nil]
      by_cases old : authKey = Hex.literal rotation.oldAuthKey
      · rw [if_pos old, old]
        exact if_pos rfl
      · rw [if_neg old, overwrite_of_ne (by rw [row]; simpa using Ne.symm old)]

/-- A rotation away from the key in use brings its new key into use, and leaves no other one in
use. -/
theorem Uses.rotate (uses : facts.Uses account current) {rotation : KeyRotation}
    (leaves : ∀ authKey ∈ current, authKey = Hex.literal rotation.oldAuthKey) (version : Version) :
    (facts.overwriteAll (rotation.events account version)).Uses account
      (some (Hex.literal rotation.newAuthKey)) := by
  intro authKey
  rw [link_after_rotation]
  by_cases new : authKey = Hex.literal rotation.newAuthKey
  · rw [if_pos new]
    exact iff_of_true ⟨_, rfl, rfl⟩ (congrArg some new.symm)
  · rw [if_neg new]
    refine iff_of_false ?_ fun same => new (Option.some.inj same).symm
    rintro ⟨link, fact, used⟩
    split at fact
    · obtain rfl := IdentityEvent.link.inj (Option.some.inj fact)
      cases used
    · rename_i other
      exact other (leaves authKey ((uses authKey).1 ⟨link, fact, used⟩))

/-- A chain of rotations leaves its last key in use, and no other one. -/
theorem Uses.rotateAll (uses : facts.Uses account none)
    {rotations : List (KeyRotation × Version)}
    (chained : rotations.IsChain fun a b => b.1.oldAuthKey = a.1.newAuthKey) :
    (facts.overwriteAll (rotationEvents account rotations)).Uses account
      (rotations.getLast?.map fun last => Hex.literal last.1.newAuthKey) := by
  induction rotations using List.reverseRecOn with
  | nil => exact uses
  | append_singleton rotations rotation ih =>
    obtain ⟨before, -, joins⟩ := List.isChain_append.1 chained
    rw [rotationEvents_append, overwriteAll_append, List.getLast?_concat]
    have single : rotationEvents account [rotation] = rotation.1.events account rotation.2 :=
      List.flatMap_singleton ..
    rw [single]
    refine (ih before).rotate (fun authKey current => ?_) rotation.2
    obtain ⟨previous, last, rfl⟩ := Option.map_eq_some_iff.1 current
    rw [joins previous last rotation rfl]

end Facts

/-! ### Batches -/

namespace Ledger

variable {ledger after : Ledger} {facts : Facts} {account : String} {batches : List RotationBatch}

/-- Rotations that are committed in the order of their versions, those of one version in one batch,
overwrite every row that holds nothing as new as them. -/
theorem commitRotations_ok (h : ledger.contents.Represents facts)
    (ordered : (batches.flatMap RotationBatch.rotations).Pairwise fun a b => a.2 ≤ b.2)
    (apart : batches.Pairwise fun a b => ∀ r ∈ a.rotations, ∀ s ∈ b.rotations, r.2 ≠ s.2)
    (committed : ledger.commitRotations account batches = some after) :
    after.backend.faults = ledger.backend.faults ∧ ∃ facts' : Facts,
      after.contents.Represents facts' ∧ ∀ key,
        (∀ old, facts key = some old → ∀ batch ∈ batches, ∀ r ∈ batch.rotations,
          old.version < r.2) →
        facts' key = facts.overwriteAll
          (rotationEvents account (batches.flatMap RotationBatch.rotations)) key := by
  induction batches generalizing ledger facts with
  | nil =>
    obtain rfl := Option.some.inj committed
    exact ⟨rfl, facts, h, fun _ _ => rfl⟩
  | cons batch batches ih =>
    rw [commitRotations] at committed
    split at committed
    · rename_i outcome between answered
      obtain ⟨apart_first, apart⟩ := List.pairwise_cons.1 apart
      rw [List.flatMap_cons] at ordered
      obtain ⟨ordered_first, ordered, across⟩ := List.pairwise_append.1 ordered
      obtain ⟨faults, facts', represents, later⟩ :=
        ih (represents_commitBatch h answered) ordered apart committed
      refine ⟨faults.trans (sameAround_commitBatch answered).faults, facts', represents,
        fun key older => ?_⟩
      have first : facts.supersedeAll (coalesce (rotationEvents account batch.rotations)) key =
          facts.overwriteAll (rotationEvents account batch.rotations) key := by
        refine Facts.supersedeAll_coalesce_eq_overwriteAll (pairwise_rotationEvents ordered_first)
          fun old held event member => ?_
        obtain ⟨rotation, inside, version⟩ := exists_version_of_mem member
        rw [version]
        exact older old held batch List.mem_cons_self rotation inside
      -- what the row holds after the first batch is older than the rotations to come
      have older_between : ∀ old,
          facts.supersedeAll (coalesce (rotationEvents account batch.rotations)) key = some old →
            ∀ other ∈ batches, ∀ r ∈ other.rotations, old.version < r.2 := by
        intro old held other hother r hr
        rw [first] at held
        rcases Facts.overwriteAll_eq_some held with written | kept
        · obtain ⟨rotation, inside, version⟩ := exists_version_of_mem written
          have le : rotation.2 ≤ r.2 :=
            across rotation inside r (List.mem_flatMap.2 ⟨other, hother, hr⟩)
          have ne : rotation.2 ≠ r.2 := apart_first other hother rotation inside r hr
          rw [version]
          exact UInt64.lt_of_le_of_ne le ne
        · exact older old kept other (List.mem_cons_of_mem _ hother) r hr
      rw [later key older_between, List.flatMap_cons, rotationEvents_append,
        Facts.overwriteAll_append]
      exact Facts.overwriteAll_congr first
    · cases committed

/-! ### Lookups -/

theorem nameable_of_accountsOf {authKey : String} {accounts : List String}
    (answered : ledger.accountsOf authKey = .ok accounts) : Nameable authKey := by
  obtain ⟨keys, indexed, -⟩ := bind_eq_ok_iff.1 answered
  obtain ⟨⟨front, entries⟩, scanned, -⟩ := bind_eq_ok_iff.1 indexed
  obtain ⟨front', hfamily, -⟩ := bind_eq_ok_iff.1 scanned
  rw [familyBytes_eq_ok_iff] at hfamily
  exact (Key.bytes_eq_ok_iff_of_family.1 hfamily).1

variable {authKey : String}

/-- The links of an account, one of which is in use. -/
theorem authKeyLinks_of_uses (h : ledger.Shows facts) (nameable : Nameable account)
    (uses : facts.Uses account (some authKey)) : ∃ links link,
      ledger.authKeyLinks account = .ok links ∧ links.filter AccountLink.used = [link] ∧
      link.authKey = authKey := by
  obtain ⟨links, hlinks, members⟩ := mem_authKeyLinks h nameable
  obtain ⟨link, fact, used⟩ := (uses authKey).2 rfl
  obtain ⟨rfl, rfl⟩ := Key.accountLink.inj (h.represents.key_eq fact)
  refine ⟨links, link, hlinks, ?_, rfl⟩
  have distinct : (links.filter AccountLink.used).Nodup :=
    (nodup_authKeyLinks h hlinks).sublist List.filter_sublist
  refine List.perm_singleton.1 ?_
  refine (List.perm_ext_iff_of_nodup distinct (by simp)).2 fun other => ?_
  rw [List.mem_filter, members, List.mem_singleton]
  constructor
  · rintro ⟨⟨fact', same⟩, used'⟩
    rw [same] at fact'
    have key := (uses other.authKey).1 ⟨other, fact', used'⟩
    rw [← Option.some.inj key, fact] at fact'
    exact (IdentityEvent.link.inj (Option.some.inj fact')).symm
  · rintro rfl
    exact ⟨⟨fact, rfl⟩, used⟩

theorem currentAuthKey?_of_uses (h : ledger.Shows facts) (nameable : Nameable account)
    (uses : facts.Uses account (some authKey)) :
    ledger.currentAuthKey? account = .ok (some authKey) := by
  obtain ⟨links, link, hlinks, inUse, rfl⟩ := authKeyLinks_of_uses h nameable uses
  simp only [currentAuthKey?, hlinks, bind, Except.bind, inUse]
  rfl

/-- An account is found under the authentication key in use alone. -/
theorem mem_accountsOf_of_uses (h : ledger.Shows facts) {current : Option String}
    (uses : facts.Uses account current) (nameable : Nameable authKey) :
    ∃ accounts, ledger.accountsOf authKey = .ok accounts ∧
      (account ∈ accounts ↔ current = some authKey) := by
  obtain ⟨accounts, haccounts, members⟩ := mem_accountsOf h nameable
  refine ⟨accounts, haccounts, ?_⟩
  rw [members, ← uses]
  constructor
  · rintro ⟨link, ⟨fact, rfl⟩, used, rfl⟩
    exact ⟨link, fact, used⟩
  · rintro ⟨link, fact, used⟩
    obtain ⟨rfl, rfl⟩ := Key.accountLink.inj (h.represents.key_eq fact)
    exact ⟨link, ⟨fact, rfl⟩, used, rfl⟩

end Ledger

/-- After a chain of rotations of an account without links, whatever the schemes and keys, the last
authentication key is the current one of the account, one link of the account is in use, and the
account is found under that key and no other one. -/
theorem Life.last_key_in_force (life : Life) {account : String} {batches : List RotationBatch}
    {last : KeyRotation} {version : Version} {after : Ledger} (nameable : Nameable account)
    (gets : life.ledger.backend.faults.get = none) (scans : life.ledger.backend.faults.scan = none)
    (no_links : ∀ event, life.ledger.contents.Holds event →
      event.key.family? ≠ some (.linksOfAccount account))
    (chained : (batches.flatMap RotationBatch.rotations).IsChain
      fun a b => b.1.oldAuthKey = a.1.newAuthKey)
    (ordered : (batches.flatMap RotationBatch.rotations).Pairwise fun a b => a.2 ≤ b.2)
    (apart : batches.Pairwise fun a b => ∀ r ∈ a.rotations, ∀ s ∈ b.rotations, r.2 ≠ s.2)
    (ends : (batches.flatMap RotationBatch.rotations).getLast? = some (last, version))
    (committed : life.ledger.commitRotations account batches = some after) :
    after.currentAuthKey? account = .ok (some (Hex.literal last.newAuthKey)) ∧
    (∃ links link, after.authKeyLinks account = .ok links ∧
      links.filter AccountLink.used = [link]) ∧
    (∀ authKey, Nameable authKey → ∃ accounts, after.accountsOf authKey = .ok accounts) ∧
    ∀ authKey, (∃ accounts, after.accountsOf authKey = .ok accounts ∧ account ∈ accounts) ↔
      authKey = Hex.literal last.newAuthKey := by
  obtain ⟨facts, represents, -⟩ := life.exists_represents
  have free : ∀ authKey, facts (.accountLink account authKey) = none :=
    fun _ => represents.eq_none_of_family no_links rfl
  obtain ⟨faults, facts', represents', overwritten⟩ :=
    Ledger.commitRotations_ok represents ordered apart committed
  have shows : after.Shows facts' := ⟨represents', faults ▸ gets, faults ▸ scans⟩
  have unused : facts.Uses account none := by
    intro authKey
    refine iff_of_false ?_ nofun
    rintro ⟨link, fact, -⟩
    rw [free] at fact
    cases fact
  have uses : facts'.Uses account (some (Hex.literal last.newAuthKey)) := by
    have rotated := unused.rotateAll chained
    rw [ends] at rotated
    intro authKey
    rw [overwritten _ fun old held => absurd held (by rw [free]; exact nofun)]
    exact rotated authKey
  obtain ⟨links, link, hlinks, inUse, -⟩ := Ledger.authKeyLinks_of_uses shows nameable uses
  refine ⟨Ledger.currentAuthKey?_of_uses shows nameable uses, ⟨links, link, hlinks, inUse⟩,
    fun authKey named => ?_, fun authKey => ⟨?_, ?_⟩⟩
  · obtain ⟨accounts, haccounts, -⟩ := Ledger.mem_accountsOf_of_uses shows uses named
    exact ⟨accounts, haccounts⟩
  · rintro ⟨accounts, answered, member⟩
    obtain ⟨accounts', haccounts, found⟩ := Ledger.mem_accountsOf_of_uses shows uses
      (Ledger.nameable_of_accountsOf answered)
    obtain rfl := Except.ok.inj (answered.symm.trans haccounts)
    exact (Option.some.inj (found.1 member)).symm
  · rintro rfl
    obtain ⟨accounts, haccounts, found⟩ := Ledger.mem_accountsOf_of_uses shows uses
      (Hex.nameable_literal last.newAuthKey)
    exact ⟨accounts, haccounts, found.2 rfl⟩

/-! ### There and back again -/

namespace Returning

/-- A ledger that has only verified its chain. -/
def life : Life := .inMemory [.call 0 (.verifyChain 1)]

def rotation (oldAuthKey newAuthKey : Bytes) : KeyRotation where
  newAuthKey
  oldAuthKey
  publicKey := []
  scheme := .ed25519
  verified := []

/-- An account leaves a key and returns to it in one version; later it rotates to the same key, and
to the other one again. -/
def batches : List RotationBatch :=
  [⟨1, "p", .live 0, ⟨0, 5, none⟩,
      [(rotation [0xbb] [0xaa], 5), (rotation [0xaa] [0xbb], 5)]⟩,
    ⟨2, "p", .live 0, ⟨6, 9, none⟩,
      [(rotation [0xbb] [0xbb], 7), (rotation [0xbb] [0xaa], 9)]⟩]

/-- The key of the last rotation is in use, and the other one is not. -/
theorem last_key_of_batches : ∃ after, life.ledger.commitRotations "0x1" batches = some after ∧
    after.currentAuthKey? "0x1" = .ok (some "0xaa") ∧
    ∃ accounts, after.accountsOf "0xbb" = .ok accounts ∧ "0x1" ∉ accounts := by
  have delivered : life.delivered = [] := by decide +kernel
  obtain ⟨after, committed⟩ : ∃ after, life.ledger.commitRotations "0x1" batches = some after :=
    Option.isSome_iff_exists.1 (by decide +kernel)
  obtain ⟨current, -, answered, found⟩ := life.last_key_in_force (by decide : Nameable "0x1")
    (by decide +kernel) (by decide +kernel)
    (fun event holds => absurd (Life.mem_delivered_of_holds holds)
      (by rw [delivered]; exact List.not_mem_nil))
    (by decide) (by decide) (by decide)
    (rfl : (batches.flatMap RotationBatch.rotations).getLast? =
      some (rotation [0xbb] [0xaa], 9)) committed
  have literal : Hex.literal [0xaa] = "0xaa" := by decide +kernel
  obtain ⟨accounts, haccounts⟩ := answered "0xbb" (by decide)
  refine ⟨after, committed, literal ▸ current, accounts, haccounts, fun member => ?_⟩
  have same : "0xbb" = Hex.literal [0xaa] := (found "0xbb").1 ⟨accounts, haccounts, member⟩
  rw [literal] at same
  exact absurd same (by decide)

end Returning

end IngestLedger
