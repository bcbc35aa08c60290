import IngestLedger.Identity
import IngestLedger.Ledger.Basic

/-!
# Identity tables

Two tables hold the newest fact for each link of an account to an authentication key and for each
public key behind an authentication key. A fact replaces the stored one only when it is newer. An
index entry is written with each row, so that rows are also found from their last component; the
row decides whether what the index names is in use.

Main definitions:

* `Ledger.apply`: apply one identity event.
* `Ledger.currentAuthKey?`, `Ledger.currentSigners`: what is in use now.
* `Ledger.accountsOf`, `Ledger.authKeysOf`: the way back through the indexes.
-/

namespace IngestLedger

/-- What applying an identity event has done. -/
inductive ApplyOutcome where
  | applied
  | stale
  deriving DecidableEq, Repr

/-- How many events of a batch were applied, and how many were stale. -/
structure ApplyTally where
  applied : Nat
  stale : Nat
  deriving DecidableEq, Repr

/-- One more event in a tally. -/
def ApplyTally.add (tally : ApplyTally) : ApplyOutcome → ApplyTally
  | .applied => { tally with applied := tally.applied + 1 }
  | .stale => { tally with stale := tally.stale + 1 }

namespace Ledger

/-- What applying a link changes. -/
def planLink (ledger : Ledger) (row : AccountLink) :
    Except LedgerError (ApplyOutcome × Changes) := do
  let key ← keyBytes (.accountLink row.account row.authKey)
  let index ← keyBytes (.accountIndex row.authKey row.account)
  let stored ← ledger.readRow AccountLink key
  if stored.any fun old => row.version ≤ old.version then
    return (.stale, .count (.staleIgnored .accountLinks))
  else
    let value ← Record.encode row
    return (.applied, ⟨[(key, value), (index, [])], [.identityWritten .accountLinks]⟩)

/-- What applying a membership changes. -/
def planMember (ledger : Ledger) (row : Membership) :
    Except LedgerError (ApplyOutcome × Changes) := do
  let key ← keyBytes (.membership row.authKey row.publicKeyType row.publicKey)
  let index ← keyBytes (.membershipIndex row.publicKey row.publicKeyType row.authKey)
  let stored ← ledger.readRow Membership key
  if stored.any fun old => row.version ≤ old.version then
    return (.stale, .count (.staleIgnored .memberships))
  else
    let value ← Record.encode row
    return (.applied, ⟨[(key, value), (index, [])], [.identityWritten .memberships]⟩)

/-- What applying an event changes. -/
def planEvent (ledger : Ledger) : IdentityEvent → Except LedgerError (ApplyOutcome × Changes)
  | .link row => ledger.planLink row
  | .member row => ledger.planMember row

/-- What applying events of different rows changes. -/
def planEvents (ledger : Ledger) : List IdentityEvent → Except LedgerError (ApplyTally × Changes)
  | [] => .ok (⟨0, 0⟩, .nothing)
  | event :: events => do
    let (outcome, changes) ← ledger.planEvent event
    let (tally, rest) ← ledger.planEvents events
    return (tally.add outcome, changes ++ rest)

/-- Apply one event. -/
def apply (ledger : Ledger) (event : IdentityEvent) : Except LedgerError ApplyOutcome × Ledger :=
  ledger.transact do
    let _ ← ledger.ensureVerified
    ledger.planEvent event

/-- The links of an account, in the order of their keys. -/
def authKeyLinks (ledger : Ledger) (account : String) : Except LedgerError (List AccountLink) :=
  ledger.fetchAll AccountLink (.linksOfAccount account)

/-- The public keys behind an authentication key, in the order of their keys. -/
def keySet (ledger : Ledger) (authKey : String) : Except LedgerError (List Membership) :=
  ledger.fetchAll Membership (.membersOfAuthKey authKey)

/-- Whether a link is at most as new as another one, the greater key being the newer of two links
of one version. -/
def isAtMostAsNew (a b : AccountLink) : Bool :=
  a.version < b.version || (a.version = b.version && a.authKey ≤ b.authKey)

/-- The newest of some links. -/
def newest? : List AccountLink → Option AccountLink
  | [] => none
  | link :: links =>
    some (links.foldl (fun best link => if isAtMostAsNew best link then link else best) link)

/-- The newest authentication key that is in use for an account. -/
def currentAuthKey? (ledger : Ledger) (account : String) : Except LedgerError (Option String) := do
  let links ← ledger.authKeyLinks account
  return (newest? (links.filter AccountLink.used)).map AccountLink.authKey

/-- Texts in ascending order, each once. -/
def sortedSet (texts : List String) : List String :=
  (texts.mergeSort fun a b => a ≤ b).eraseDups

/-- The public keys in use behind an authentication key. -/
def currentSigners (ledger : Ledger) (authKey : String) : Except LedgerError (List String) := do
  let members ← ledger.keySet authKey
  return sortedSet ((members.filter Membership.used).map Membership.publicKey)

/-- The components behind the shared one of the keys of an index; keys that are no text are passed
over. -/
def indexed (ledger : Ledger) (family : Family) : Except LedgerError (List (List String)) := do
  let (front, entries) ← ledger.scanFamily family
  return entries.filterMap fun entry => components? front entry.1

/-- The account that an index key leads to, if its link is in use. -/
def accountThrough (ledger : Ledger) (authKey : String) :
    List String → Except LedgerError (Option String)
  | [account] => do
    let link ← ledger.fetch AccountLink (.accountLink account authKey)
    return (link.filter AccountLink.used).map AccountLink.account
  | _ => .ok none

/-- The authentication key that an index key leads to, if its membership is in use. -/
def authKeyThrough (ledger : Ledger) (publicKey : String) :
    List String → Except LedgerError (Option String)
  | [keyType, authKey] => do
    let member ← ledger.fetch Membership (.membership authKey keyType publicKey)
    return (member.filter Membership.used).map Membership.authKey
  | _ => .ok none

/-- The accounts for which an authentication key is in use. -/
def accountsOf (ledger : Ledger) (authKey : String) : Except LedgerError (List String) := do
  let keys ← ledger.indexed (.accountsOfAuthKey authKey)
  let accounts ← keys.mapM (ledger.accountThrough authKey)
  return sortedSet (accounts.filterMap id)

/-- The authentication keys behind which a public key is in use. -/
def authKeysOf (ledger : Ledger) (publicKey : String) : Except LedgerError (List String) := do
  let keys ← ledger.indexed (.authKeysOfPublicKey publicKey)
  let authKeys ← keys.mapM (ledger.authKeyThrough publicKey)
  return sortedSet (authKeys.filterMap id)

end Ledger

end IngestLedger
