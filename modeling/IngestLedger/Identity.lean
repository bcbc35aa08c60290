import IngestLedger.Key
import IngestLedger.Row

/-!
# Identity events

Transactions tell which authentication keys an account uses and which public keys stand behind an
authentication key. An event of either kind proposes a row. A batch of events is coalesced before
it is applied: of the events for one row, the last one of the greatest version is kept, in the
place of the first.

Main definitions:

* `IdentityEvent.key`: the row that an event is for.
* `coalesce`: one event for each row of a batch.
-/

namespace IngestLedger

/-- A fact about keys, read from a transaction. -/
inductive IdentityEvent where
  | link (row : AccountLink)
  | member (row : Membership)
  deriving DecidableEq, Repr

namespace IdentityEvent

/-- The transaction that the fact was read from. -/
def version : IdentityEvent → Version
  | link row => row.version
  | member row => row.version

/-- The row that the event is for. -/
def key : IdentityEvent → Key
  | link row => .accountLink row.account row.authKey
  | member row => .membership row.authKey row.publicKeyType row.publicKey

/-- Put an event among events of different rows: it replaces the event of its row unless that one
is newer, and comes last when its row is new. -/
def place (event : IdentityEvent) : List IdentityEvent → List IdentityEvent
  | [] => [event]
  | kept :: rest =>
    if kept.key = event.key then (if kept.version ≤ event.version then event else kept) :: rest
    else kept :: place event rest

end IdentityEvent

/-- One event for each row, in the order in which the rows first occur: the last event among those
of the greatest version. -/
def coalesce (events : List IdentityEvent) : List IdentityEvent :=
  events.foldl (fun kept event => event.place kept) []

end IngestLedger
