/-!
# Versions, ranges and batches

Transactions are numbered by versions. A processor works over an inclusive range of versions,
which may be open at its upper end, and commits them in batches. A clock tells the second at
which a row is written.
-/

namespace IngestLedger

/-- The number of a transaction in the ordered stream. -/
abbrev Version := UInt64

/-- The identifier of the network whose transactions are ingested. -/
abbrev ChainId := UInt64

/-- Seconds since the epoch. -/
abbrev Timestamp := UInt64

namespace Version

/-- The greatest version. -/
def greatest : Version := 0xFFFFFFFFFFFFFFFF

/-- The version after this one; the greatest version is its own successor. -/
def next (version : Version) : Version :=
  if version = greatest then greatest else version + 1

theorem toNat_greatest : greatest.toNat = 0xFFFFFFFFFFFFFFFF := by decide

theorem toNat_next (version : Version) :
    (next version).toNat = min (version.toNat + 1) greatest.toNat := by
  unfold next
  have bound : version.toNat < 2 ^ 64 := version.toNat_lt
  split
  · rename_i top
    subst top
    decide
  · rename_i below
    have proper : version.toNat ≠ greatest.toNat := fun h => below (UInt64.toNat.inj h)
    rw [UInt64.toNat_add, UInt64.toNat_one]
    rw [toNat_greatest] at proper ⊢
    omega

/-- The greatest version is before no other, so none comes after it. -/
theorem lt_next_iff {version last : Version} :
    version < next last ↔ version ≤ last ∧ version ≠ greatest := by
  have bound : last.toNat < 2 ^ 64 := last.toNat_lt
  have bound' : version.toNat < 2 ^ 64 := version.toNat_lt
  have top : version ≠ greatest ↔ version.toNat ≠ greatest.toNat :=
    not_congr ⟨fun h => h ▸ rfl, UInt64.toNat.inj⟩
  rw [UInt64.lt_iff_toNat_lt, UInt64.le_iff_toNat_le, top, toNat_next, toNat_greatest]
  omega

end Version

/-- The versions from `first` on, up to and including `last` when that is set. -/
structure VersionRange where
  first : Version
  last : Option Version
  deriving DecidableEq, Repr

namespace VersionRange

/-- All versions from `first` on. -/
def onward (first : Version) : VersionRange := ⟨first, none⟩

/-- The versions from `first` to `last`. -/
def between (first last : Version) : VersionRange := ⟨first, some last⟩

/-- Whether nothing is left to process. -/
def isExhausted (range : VersionRange) : Bool :=
  match range.last with
  | some last => range.first > last
  | none => false

/-- Whether a version lies in the range. -/
def contains (range : VersionRange) (version : Version) : Bool :=
  range.first ≤ version &&
    match range.last with
    | some last => version ≤ last
    | none => true

theorem isExhausted_iff (range : VersionRange) :
    range.isExhausted = true ↔ ∀ version, range.contains version = false := by
  obtain ⟨first, last⟩ := range
  cases last with
  | none =>
    constructor
    · intro h; exact absurd h (by simp [isExhausted])
    · intro h
      have := h first
      simp [contains] at this
  | some last =>
    constructor
    · intro h version
      simp only [isExhausted, gt_iff_lt, decide_eq_true_eq] at h
      by_cases below : first ≤ version
      · have : ¬ version ≤ last := UInt64.not_le.2 (UInt64.lt_of_lt_of_le h below)
        simp [contains, this]
      · simp [contains, below]
    · intro h
      have := h first
      simpa [contains, isExhausted] using this

end VersionRange

/-- One batch of processed transactions: its first and last version, and the time of the last
transaction when that is known. -/
structure BatchInfo where
  first : Version
  last : Version
  timestamp : Option Timestamp
  deriving DecidableEq, Repr

namespace BatchInfo

/-- The number of versions in the batch; a batch that ends before it begins counts as one. -/
def length (batch : BatchInfo) : UInt64 :=
  (if batch.first ≤ batch.last then batch.last - batch.first else 0) + 1

/-- A batch is never empty. -/
def isEmpty (_ : BatchInfo) : Bool := false

end BatchInfo

/-- A clock that is set by hand and counts on from the greatest time at zero. -/
structure Clock where
  now : Timestamp
  deriving DecidableEq, Repr

namespace Clock

/-- Put the clock to a time. -/
def set (_ : Clock) (time : Timestamp) : Clock := ⟨time⟩

/-- Let time pass. -/
def advance (clock : Clock) (seconds : UInt64) : Clock := ⟨clock.now + seconds⟩

end Clock

end IngestLedger
