/-!
# Runs of code points

A property of characters is given by the runs of code points that have it, and these by their
boundaries: the code points at which the answer changes, in ascending order. The first boundary
begins a run that has the property.

Main definition:

* `inRuns`: whether a code point lies in one of the runs.
-/

namespace IngestLedger.Text

/-- Whether a code point lies in one of the runs with the given boundaries: an odd number of them
stand at or below it. -/
def inRuns (code : Nat) : List Nat → Bool
  | [] => false
  | boundary :: boundaries => if code < boundary then false else !inRuns code boundaries

end IngestLedger.Text
