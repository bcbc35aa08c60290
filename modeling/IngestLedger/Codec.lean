import IngestLedger.Text.Utf8

/-!
# Codecs

A codec writes a value as bytes and reads a value from the front of a byte string. Writing may be
refused, when a length does not fit the field that holds it; reading names its fault. Codecs are
built from smaller ones by pairing and by translating values, and exactness is kept by each step.

Main definitions:

* `Codec`: a writer and a reader of one format.
* `Codec.Exact`: the reader takes a value off a byte string exactly when the string starts with
  that value as the writer writes it.
* `Codec.pair`, `Codec.via`, `Codec.lengthPrefixed`, `Codec.text`, `Codec.option`,
  `Codec.repeated`, `Codec.counted`: the ways to combine formats.
-/

namespace IngestLedger

/-- A writer of `α` as bytes and a reader of `α` from the front of a byte string, whose faults are
of type `ε`. -/
structure Codec (ε α : Type) where
  encode : α → Option Bytes
  decode : Bytes → Except ε (α × Bytes)

namespace Codec

variable {ε α β : Type}

/-- Reading takes off the front exactly what writing puts there. -/
def Exact (c : Codec ε α) : Prop :=
  ∀ bytes value rest,
    c.decode bytes = .ok (value, rest) ↔
      ∃ front, c.encode value = some front ∧ bytes = front ++ rest

/-- A value read back from its own bytes, whatever follows them. -/
theorem Exact.decode_append {c : Codec ε α} (exact : c.Exact) {value : α} {front : Bytes}
    (written : c.encode value = some front) (rest : Bytes) :
    c.decode (front ++ rest) = .ok (value, rest) :=
  (exact _ _ _).2 ⟨front, written, rfl⟩

/-- A whole byte string as one value, with nothing after it. -/
def decodeAll (c : Codec ε α) (trailing : ε) (bytes : Bytes) : Except ε α :=
  match c.decode bytes with
  | .ok (value, []) => .ok value
  | .ok (_, _ :: _) => .error trailing
  | .error fault => .error fault

theorem bind_append_eq_some_iff {x y : Option Bytes} {whole : Bytes} :
    (do let front ← x; let back ← y; return front ++ back) = some whole ↔
      ∃ front back, x = some front ∧ y = some back ∧ whole = front ++ back := by
  simp only [Option.bind_eq_bind, Option.bind_eq_some_iff, Option.pure_def, Option.some.injEq]
  constructor
  · rintro ⟨front, written, back, written', rfl⟩
    exact ⟨front, back, written, written', rfl⟩
  · rintro ⟨front, back, written, written', rfl⟩
    exact ⟨front, written, back, written', rfl⟩

/-- Two parts that are each written under a condition. -/
theorem bind_append_eq_some_iff_and {x y : Option Bytes} {p q : Prop} {front back : Bytes}
    (hx : ∀ bytes, x = some bytes ↔ p ∧ bytes = front)
    (hy : ∀ bytes, y = some bytes ↔ q ∧ bytes = back) (whole : Bytes) :
    (do let front ← x; let back ← y; return front ++ back) = some whole ↔
      (p ∧ q) ∧ whole = front ++ back := by
  rw [bind_append_eq_some_iff]
  constructor
  · rintro ⟨_, _, written, written', rfl⟩
    obtain ⟨hp, rfl⟩ := (hx _).1 written
    obtain ⟨hq, rfl⟩ := (hy _).1 written'
    exact ⟨⟨hp, hq⟩, rfl⟩
  · rintro ⟨⟨hp, hq⟩, rfl⟩
    exact ⟨_, _, (hx _).2 ⟨hp, rfl⟩, (hy _).2 ⟨hq, rfl⟩, rfl⟩

/-- One format after another. -/
def pair (first : Codec ε α) (second : Codec ε β) : Codec ε (α × β) where
  encode value := do
    let front ← first.encode value.1
    let back ← second.encode value.2
    return front ++ back
  decode bytes :=
    match first.decode bytes with
    | .error fault => .error fault
    | .ok (a, rest) =>
      match second.decode rest with
      | .error fault => .error fault
      | .ok (b, rest) => .ok ((a, b), rest)

theorem pair_exact {first : Codec ε α} {second : Codec ε β} (h₁ : first.Exact) (h₂ : second.Exact) :
    (first.pair second).Exact := by
  rintro bytes ⟨a, b⟩ rest
  constructor
  · intro h
    simp only [pair] at h
    split at h
    · exact absurd h (by simp)
    · rename_i a' middle read₁
      split at h
      · exact absurd h (by simp)
      · rename_i b' rest' read₂
        simp only [Except.ok.injEq, Prod.mk.injEq] at h
        obtain ⟨⟨rfl, rfl⟩, rfl⟩ := h
        obtain ⟨front, written₁, rfl⟩ := (h₁ _ _ _).1 read₁
        obtain ⟨back, written₂, rfl⟩ := (h₂ _ _ _).1 read₂
        exact ⟨front ++ back, by simp [pair, written₁, written₂], by simp⟩
  · rintro ⟨whole, written, rfl⟩
    obtain ⟨front, back, written₁, written₂, rfl⟩ := bind_append_eq_some_iff.1 written
    simp [pair, h₁.decode_append written₁, h₂.decode_append written₂]

/-- The same bytes, read as values of another type. -/
def via (c : Codec ε α) (into : β → α) (of : α → β) : Codec ε β where
  encode value := c.encode (into value)
  decode bytes :=
    match c.decode bytes with
    | .error fault => .error fault
    | .ok (value, rest) => .ok (of value, rest)

theorem via_exact {c : Codec ε α} {into : β → α} {of : α → β} (h : c.Exact)
    (of_into : ∀ b, of (into b) = b) (into_of : ∀ a, into (of a) = a) : (c.via into of).Exact := by
  intro bytes value rest
  constructor
  · intro read
    simp only [via] at read
    split at read
    · exact absurd read (by simp)
    · rename_i a middle inner
      simp only [Except.ok.injEq, Prod.mk.injEq] at read
      obtain ⟨rfl, rfl⟩ := read
      obtain ⟨front, written, rfl⟩ := (h _ _ _).1 inner
      exact ⟨front, by simpa [via, into_of] using written, rfl⟩
  · rintro ⟨front, written, rfl⟩
    simp [via, h.decode_append written, of_into]

/-- A number below `256 ^ width` in `width` little-endian digits. -/
def natLE (width : Nat) (short : ε) : Codec ε Nat where
  encode n := if n < Nat.pow 256 width then some (Bytes.ofNatLE width n) else none
  decode bytes :=
    match Bytes.takeExact width bytes with
    | none => .error short
    | some (digits, rest) => .ok (Bytes.toNatLE digits, rest)

theorem natLE_exact (width : Nat) (short : ε) : (natLE width short).Exact := by
  intro bytes n rest
  constructor
  · intro read
    simp only [natLE] at read
    split at read
    · exact absurd read (by simp)
    · rename_i digits rest' split
      simp only [Except.ok.injEq, Prod.mk.injEq] at read
      obtain ⟨rfl, rfl⟩ := read
      obtain ⟨rfl, rfl⟩ := Bytes.takeExact_eq_some_iff.1 split
      refine ⟨digits, ?_, rfl⟩
      simp only [natLE, if_pos (Bytes.toNatLE_lt digits), Bytes.ofNatLE_toNatLE]
  · rintro ⟨front, written, rfl⟩
    simp only [natLE, Option.ite_none_right_eq_some, Option.some.injEq] at written
    obtain ⟨small, rfl⟩ := written
    have split := Bytes.takeExact_append (Bytes.ofNatLE width n) rest
    rw [Bytes.length_ofNatLE] at split
    simp [natLE, split, Bytes.toNatLE_ofNatLE small]

/-- A word in the `width` little-endian digits of its value. -/
def word (width : Nat) (toNat : α → Nat) (ofNat : Nat → α) (short : ε) : Codec ε α where
  encode value := some (Bytes.ofNatLE width (toNat value))
  decode bytes :=
    match Bytes.takeExact width bytes with
    | none => .error short
    | some (digits, rest) => .ok (ofNat (Bytes.toNatLE digits), rest)

theorem word_exact {width : Nat} {toNat : α → Nat} {ofNat : Nat → α} (short : ε)
    (small : ∀ a, toNat a < Nat.pow 256 width) (ofNat_toNat : ∀ a, ofNat (toNat a) = a)
    (toNat_ofNat : ∀ n, n < Nat.pow 256 width → toNat (ofNat n) = n) :
    (word width toNat ofNat short).Exact := by
  intro bytes value rest
  constructor
  · intro read
    simp only [word] at read
    split at read
    · exact absurd read (by simp)
    · rename_i digits rest' split
      simp only [Except.ok.injEq, Prod.mk.injEq] at read
      obtain ⟨rfl, rfl⟩ := read
      obtain ⟨rfl, rfl⟩ := Bytes.takeExact_eq_some_iff.1 split
      refine ⟨digits, ?_, rfl⟩
      simp only [word, toNat_ofNat _ (Bytes.toNatLE_lt digits), Bytes.ofNatLE_toNatLE]
  · rintro ⟨front, written, rfl⟩
    simp only [word, Option.some.injEq] at written
    subst written
    have split := Bytes.takeExact_append (Bytes.ofNatLE width (toNat value)) rest
    rw [Bytes.length_ofNatLE] at split
    simp only [word, split, Bytes.toNatLE_ofNatLE (small value), ofNat_toNat]

/-- A 64-bit number in eight little-endian digits. -/
def uint64 (short : ε) : Codec ε UInt64 := word 8 UInt64.toNat Nat.toUInt64 short

theorem uint64_exact (short : ε) : (uint64 short).Exact :=
  word_exact short UInt64.toNat_lt (fun _ => by simp) fun _ small =>
    by simpa using Nat.mod_eq_of_lt small

/-- A 32-bit number in four little-endian digits. -/
def uint32 (short : ε) : Codec ε UInt32 := word 4 UInt32.toNat Nat.toUInt32 short

theorem uint32_exact (short : ε) : (uint32 short).Exact :=
  word_exact short UInt32.toNat_lt (fun _ => by simp) fun _ small =>
    by simpa using Nat.mod_eq_of_lt small

/-- One byte. -/
def byte (short : ε) : Codec ε UInt8 where
  encode b := some [b]
  decode
    | [] => .error short
    | b :: rest => .ok (b, rest)

theorem byte_exact (short : ε) : (byte short).Exact := by
  intro bytes b rest
  cases bytes with
  | nil => simp [byte]
  | cons head tail => simp [byte]

/-- Exactly `count` bytes as they are. -/
def raw (count : Nat) (short : ε) : Codec ε Bytes where
  encode bytes := if bytes.length = count then some bytes else none
  decode bytes :=
    match Bytes.takeExact count bytes with
    | none => .error short
    | some (front, rest) => .ok (front, rest)

theorem raw_exact (count : Nat) (short : ε) : (raw count short).Exact := by
  intro bytes front rest
  constructor
  · intro read
    simp only [raw] at read
    split at read
    · exact absurd read (by simp)
    · rename_i front' rest' split
      simp only [Except.ok.injEq, Prod.mk.injEq] at read
      obtain ⟨rfl, rfl⟩ := read
      obtain ⟨rfl, sized⟩ := Bytes.takeExact_eq_some_iff.1 split
      exact ⟨front', by simp [raw, sized], rfl⟩
  · rintro ⟨whole, written, rfl⟩
    simp only [raw, Option.ite_none_right_eq_some, Option.some.injEq] at written
    obtain ⟨rfl, rfl⟩ := written
    simp [raw, Bytes.takeExact_append]

/-- A length, then that many bytes as they are. -/
def lengthPrefixed (length : Codec ε Nat) (short : ε) : Codec ε Bytes where
  encode bytes := do
    let front ← length.encode bytes.length
    return front ++ bytes
  decode bytes :=
    match length.decode bytes with
    | .error fault => .error fault
    | .ok (count, rest) =>
      match Bytes.takeExact count rest with
      | none => .error short
      | some (front, rest) => .ok (front, rest)

theorem lengthPrefixed_exact {length : Codec ε Nat} (short : ε) (h : length.Exact) :
    (lengthPrefixed length short).Exact := by
  intro bytes value rest
  constructor
  · intro read
    simp only [lengthPrefixed] at read
    split at read
    · exact absurd read (by simp)
    · rename_i count middle counted
      split at read
      · exact absurd read (by simp)
      · rename_i front' rest' split
        simp only [Except.ok.injEq, Prod.mk.injEq] at read
        obtain ⟨rfl, rfl⟩ := read
        obtain ⟨rfl, rfl⟩ := Bytes.takeExact_eq_some_iff.1 split
        obtain ⟨front, written, rfl⟩ := (h _ _ _).1 counted
        exact ⟨front ++ front', by simp [lengthPrefixed, written], by simp⟩
  · rintro ⟨whole, written, rfl⟩
    simp only [lengthPrefixed, Option.bind_eq_bind, Option.bind_eq_some_iff, Option.pure_def,
      Option.some.injEq] at written
    obtain ⟨front, written, rfl⟩ := written
    simp [lengthPrefixed, h.decode_append written, Bytes.takeExact_append]

/-- A text as its UTF-8 bytes; `bad` tells what is wrong with bytes that are those of no text. -/
def text (bytes : Codec ε Bytes) (bad : Bytes → ε) : Codec ε String where
  encode text := bytes.encode (Utf8.encode text)
  decode input :=
    match bytes.decode input with
    | .error fault => .error fault
    | .ok (front, rest) =>
      match Utf8.decode? front with
      | some text => .ok (text, rest)
      | none => .error (bad front)

theorem text_exact {bytes : Codec ε Bytes} (bad : Bytes → ε) (h : bytes.Exact) :
    (bytes.text bad).Exact := by
  intro input value rest
  constructor
  · intro read
    simp only [text] at read
    split at read
    · exact absurd read (by simp)
    · rename_i front rest' readBytes
      split at read
      · rename_i value' decoded
        simp only [Except.ok.injEq, Prod.mk.injEq] at read
        obtain ⟨rfl, rfl⟩ := read
        obtain rfl := Utf8.decode?_eq_some_iff.1 decoded
        exact (h _ _ _).1 readBytes
      · exact absurd read (by simp)
  · rintro ⟨front, written, rfl⟩
    simp only [text] at written
    simp only [text, h.decode_append written, Utf8.decode?_encode]

/-- A byte that is one for true and zero for false. -/
def bool (short : ε) (bad : UInt8 → ε) : Codec ε Bool where
  encode value := some [if value then 1 else 0]
  decode
    | [] => .error short
    | b :: rest => if b = 0 then .ok (false, rest) else if b = 1 then .ok (true, rest)
      else .error (bad b)

theorem bool_exact (short : ε) (bad : UInt8 → ε) : (bool short bad).Exact := by
  intro bytes value rest
  cases bytes with
  | nil => simp [bool]
  | cons b tail =>
    by_cases zero : b = 0
    · cases value <;> simp [bool, zero]
    · by_cases one : b = 1
      · cases value <;> simp [bool, one]
      · cases value <;> simp [bool, zero, one]

/-- A byte that tells whether a value follows, and the value if one does. -/
def option (c : Codec ε α) (short : ε) (bad : UInt8 → ε) : Codec ε (Option α) where
  encode
    | none => some [0]
    | some value => (c.encode value).map (1 :: ·)
  decode
    | [] => .error short
    | b :: rest =>
      if b = 0 then .ok (none, rest)
      else if b = 1 then
        match c.decode rest with
        | .error fault => .error fault
        | .ok (value, rest) => .ok (some value, rest)
      else .error (bad b)

theorem option_exact {c : Codec ε α} (short : ε) (bad : UInt8 → ε) (h : c.Exact) :
    (c.option short bad).Exact := by
  intro bytes value rest
  constructor
  · intro read
    cases bytes with
    | nil => exact absurd read (by simp [option])
    | cons b tail =>
      simp only [option] at read
      split at read
      · rename_i zero
        simp only [Except.ok.injEq, Prod.mk.injEq] at read
        obtain ⟨rfl, rfl⟩ := read
        exact ⟨[0], by simp [option], by simp [zero]⟩
      · split at read
        · rename_i one
          split at read
          · exact absurd read (by simp)
          · rename_i inner rest' readInner
            simp only [Except.ok.injEq, Prod.mk.injEq] at read
            obtain ⟨rfl, rfl⟩ := read
            obtain ⟨front, written, rfl⟩ := (h _ _ _).1 readInner
            exact ⟨1 :: front, by simp [option, written], by simp [one]⟩
        · exact absurd read (by simp)
  · rintro ⟨whole, written, rfl⟩
    cases value with
    | none =>
      simp only [option, Option.some.injEq] at written
      subst written
      simp [option]
    | some inner =>
      simp only [option, Option.map_eq_some_iff] at written
      obtain ⟨front, written, rfl⟩ := written
      simp [option, h.decode_append written]

/-- Exactly `count` values one after another. -/
def repeated (c : Codec ε α) : Nat → Codec ε (List α)
  | 0 => { encode := fun values => if values.isEmpty then some [] else none
           decode := fun bytes => .ok ([], bytes) }
  | count + 1 =>
    { encode := fun
        | [] => none
        | value :: values => do
          let front ← c.encode value
          let back ← (repeated c count).encode values
          return front ++ back
      decode := fun bytes =>
        match c.decode bytes with
        | .error fault => .error fault
        | .ok (value, rest) =>
          match (repeated c count).decode rest with
          | .error fault => .error fault
          | .ok (values, rest) => .ok (value :: values, rest) }

theorem length_of_repeated_encode {c : Codec ε α} {count : Nat} {values : List α} {bytes : Bytes}
    (written : (repeated c count).encode values = some bytes) : values.length = count := by
  induction count generalizing values bytes with
  | zero => cases values with
    | nil => rfl
    | cons => simp [repeated] at written
  | succ count ih => cases values with
    | nil => simp [repeated] at written
    | cons value values =>
      obtain ⟨_, back, -, writtenBack, -⟩ := bind_append_eq_some_iff.1 written
      simp [ih writtenBack]

theorem repeated_exact {c : Codec ε α} (h : c.Exact) (count : Nat) : (repeated c count).Exact := by
  induction count with
  | zero =>
    intro bytes values rest
    cases values with
    | nil =>
      simp only [repeated, Except.ok.injEq, Prod.mk.injEq, true_and, List.isEmpty_nil, if_true,
        Option.some.injEq, exists_eq_left', List.nil_append]
    | cons => simp [repeated]
  | succ count ih =>
    intro bytes values rest
    constructor
    · intro read
      simp only [repeated] at read
      split at read
      · exact absurd read (by simp)
      · rename_i value middle readHead
        split at read
        · exact absurd read (by simp)
        · rename_i tail rest' readTail
          simp only [Except.ok.injEq, Prod.mk.injEq] at read
          obtain ⟨rfl, rfl⟩ := read
          obtain ⟨front, written, rfl⟩ := (h _ _ _).1 readHead
          obtain ⟨back, writtenBack, rfl⟩ := (ih _ _ _).1 readTail
          exact ⟨front ++ back, by simp [repeated, written, writtenBack], by simp⟩
    · rintro ⟨whole, written, rfl⟩
      cases values with
      | nil => simp [repeated] at written
      | cons value values =>
        obtain ⟨front, back, writtenHead, writtenBack, rfl⟩ := bind_append_eq_some_iff.1 written
        simp [repeated, h.decode_append writtenHead, ih.decode_append writtenBack]

/-- A count, then that many values. -/
def counted (length : Codec ε Nat) (c : Codec ε α) : Codec ε (List α) where
  encode values := do
    let front ← length.encode values.length
    let back ← (repeated c values.length).encode values
    return front ++ back
  decode bytes :=
    match length.decode bytes with
    | .error fault => .error fault
    | .ok (count, rest) => (repeated c count).decode rest

theorem counted_exact {length : Codec ε Nat} {c : Codec ε α} (hlength : length.Exact)
    (h : c.Exact) : (counted length c).Exact := by
  intro bytes values rest
  constructor
  · intro read
    simp only [counted] at read
    split at read
    · exact absurd read (by simp)
    · rename_i count middle readCount
      obtain ⟨front, written, rfl⟩ := (hlength _ _ _).1 readCount
      obtain ⟨back, writtenBack, rfl⟩ := (repeated_exact h count _ _ _).1 read
      have sized := length_of_repeated_encode writtenBack
      subst sized
      exact ⟨front ++ back, by simp [counted, written, writtenBack], by simp⟩
  · rintro ⟨whole, written, rfl⟩
    obtain ⟨front, back, writtenCount, writtenBack, rfl⟩ := bind_append_eq_some_iff.1 written
    simp [counted, hlength.decode_append writtenCount,
      (repeated_exact h _).decode_append writtenBack]

end Codec

end IngestLedger
