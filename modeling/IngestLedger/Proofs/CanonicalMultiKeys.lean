import IngestLedger.Proofs.MultiKeys

/-!
# The one form of a multi-key

A multi-key is written piece by piece: its lengths and the numbers of its schemes in base-128
digits, and all else as it is. Zeros behind the digits of a number would leave its value, so there
are many ways to write one multi-key; only the shortest of them is read, and only as a whole.

Main definitions:

* `Uleb128.shortest`, `Uleb128.Writes`: the shortest digits of a number, and any digits of it.
* `MultiKey.pieces`: the pieces that a multi-key is written in.
* `Codec.Spells`: a format writes a value in given pieces, and reads no longer form of them.

Main statements:

* `MultiKey.codec_spells`: the format of multi-keys spells their pieces.
* `MultiKey.ofBytes_canonical`: what is read as a multi-key is its one form.
* `PublicKey.eq_of_bytes`: members with one type and the same bytes are the same.
-/

namespace IngestLedger

/-! ### The digits of a number -/

namespace Uleb128

/-- The shortest digits of a number. -/
def shortest (n : Nat) : Bytes :=
  if n < 128 then [n.toUInt8] else (n % 128 + 128).toUInt8 :: shortest (n / 128)

/-- Bytes that write a number: every digit but the last has its high bit set, and zeros may stand
behind the shortest digits. -/
inductive Writes : Nat → Bytes → Prop
  | last {byte : UInt8} (low : byte.toNat < 128) : Writes byte.toNat [byte]
  | more {byte : UInt8} {n : Nat} {digits : Bytes} (high : 128 ≤ byte.toNat)
      (later : Writes n digits) : Writes (byte.toNat - 128 + 128 * n) (byte :: digits)

theorem encodeDigits_eq (limit n : Nat) : encodeDigits (limit + 1) n =
    if n < Nat.pow 128 (limit + 1) then some (shortest n) else none := by
  induction limit generalizing n with
  | zero =>
    rw [encodeDigits, shortest]
    by_cases small : n < 128
    · rw [if_pos small, if_pos small, if_pos small]
    · rw [if_neg small, encodeDigits, if_neg small]
      rfl
  | succ limit ih =>
    have room : 128 ≤ Nat.pow 128 (limit + 1 + 1) :=
      Nat.le_self_pow (Nat.succ_ne_zero _) 128
    rw [encodeDigits, shortest, ih]
    by_cases small : n < 128
    · rw [if_pos small, if_pos small, if_pos (Nat.lt_of_lt_of_le small room)]
    · have shift : n / 128 < Nat.pow 128 (limit + 1) ↔ n < Nat.pow 128 (limit + 1 + 1) :=
        Nat.div_lt_iff_lt_mul (by decide)
      rw [if_neg small, if_neg small]
      simp only [shift]
      split <;> rfl

theorem encode32_eq (n : Nat) :
    encode32 n = if n < UInt32.size then some (shortest n) else none := by
  unfold encode32
  split
  · rename_i small
    rw [encodeDigits_eq, if_pos (Nat.lt_trans small (by decide))]
  · rfl

/-- The shortest digits of a number are digits of it. -/
theorem writes_shortest (n : Nat) : Writes n (shortest n) := by
  fun_induction shortest n with
  | case1 n small =>
    have value : n.toUInt8.toNat = n := UInt8.toNat_ofNat_of_lt' (Nat.lt_trans small (by decide))
    have low : n.toUInt8.toNat < 128 := by omega
    simpa only [value] using Writes.last low
  | case2 n big ih =>
    have value : (n % 128 + 128).toUInt8.toNat = n % 128 + 128 :=
      UInt8.toNat_ofNat_of_lt' (Nat.add_lt_add_right (Nat.mod_lt n (by decide)) 128)
    have high : 128 ≤ (n % 128 + 128).toUInt8.toNat := by omega
    have whole : (n % 128 + 128).toUInt8.toNat - 128 + 128 * (n / 128) = n := by omega
    simpa only [whole] using Writes.more high ih

/-- Whatever digits a number has, it is read as that number if at all. -/
theorem Writes.eq_of_decodeDigits {n found limit : Nat} {digits rest rest' : Bytes} {first : Bool}
    (h : Writes n digits) (read : decodeDigits limit first (digits ++ rest) = .ok (found, rest')) :
    found = n ∧ rest' = rest := by
  induction h generalizing limit found first rest' with
  | last low =>
    cases limit with
    | zero => cases read
    | succ limit =>
      simp only [List.singleton_append, decodeDigits, if_pos low] at read
      split at read
      · cases read
      · obtain ⟨rfl, rfl⟩ := Prod.mk.inj (Except.ok.inj read)
        exact ⟨rfl, rfl⟩
  | more high _ ih =>
    cases limit with
    | zero => cases read
    | succ limit =>
      simp only [List.cons_append, decodeDigits, if_neg (Nat.not_lt.2 high)] at read
      split at read
      · cases read
      · rename_i later
        obtain ⟨rfl, rfl⟩ := ih later
        obtain ⟨rfl, rfl⟩ := Prod.mk.inj (Except.ok.inj read)
        exact ⟨rfl, rfl⟩

/-- Only the shortest digits of a number are read. -/
theorem Writes.eq_shortest_of_decode32 {n found : Nat} {digits rest rest' : Bytes}
    (h : Writes n digits) (read : decode32 (digits ++ rest) = .ok (found, rest')) :
    found = n ∧ rest' = rest ∧ digits = shortest n := by
  obtain ⟨front, written, whole⟩ := decode32_eq_ok_iff.1 read
  have same : found = n ∧ rest' = rest := by
    unfold decode32 at read
    split at read
    · cases read
    · rename_i digitsRead
      split at read
      · obtain ⟨rfl, rfl⟩ := Prod.mk.inj (Except.ok.inj read)
        exact h.eq_of_decodeDigits digitsRead
      · cases read
  obtain ⟨rfl, rfl⟩ := same
  rw [encode32_eq, Option.ite_none_right_eq_some] at written
  exact ⟨rfl, rfl, (List.append_cancel_right whole).trans (Option.some.inj written.2).symm⟩

end Uleb128

/-! ### Pieces -/

namespace MultiKey

/-- What stands in a multi-key: the length of a sequence, the number of a scheme, or bytes as they
are. -/
inductive Piece where
  | length (n : Nat)
  | scheme (tag : Nat)
  | plain (bytes : Bytes)
  deriving DecidableEq, Repr

/-- The shortest form of a piece. -/
def Piece.shortest : Piece → Bytes
  | .length n | .scheme n => Uleb128.shortest n
  | .plain bytes => bytes

/-- Bytes that write a piece, with any digits if it is a number. -/
def Piece.IsWrittenAs : Piece → Bytes → Prop
  | .length n, part | .scheme n, part => Uleb128.Writes n part
  | .plain bytes, part => part = bytes

theorem Piece.isWrittenAs_shortest (piece : Piece) : piece.IsWrittenAs piece.shortest := by
  cases piece with
  | length n | scheme n => exact Uleb128.writes_shortest n
  | plain bytes => rfl

/-- The lengths among pieces are not too great. -/
def Fit (pieces : List Piece) : Prop := ∀ n, .length n ∈ pieces → n ≤ maxLength

end MultiKey

open MultiKey (Piece Fit)

/-- The pieces of a byte string: its length and its bytes. -/
def MultiKey.bytesPieces (bytes : Bytes) : List Piece := [.length bytes.length, .plain bytes]

/-- The pieces of a keyless key. -/
def KeylessKey.pieces (key : KeylessKey) : List Piece :=
  MultiKey.bytesPieces (Utf8.encode key.issuer) ++ MultiKey.bytesPieces key.commitment

/-- The pieces of a federated key. -/
def FederatedKey.pieces (key : FederatedKey) : List Piece :=
  .plain key.address :: key.keyless.pieces

/-- The pieces of a member: the number of its scheme and its key. -/
def PublicKey.pieces : PublicKey → List Piece
  | ed25519 key => .scheme 0 :: MultiKey.bytesPieces key
  | secp256k1 key => .scheme 1 :: MultiKey.bytesPieces key
  | secp256r1 key => .scheme 2 :: MultiKey.bytesPieces key
  | keyless key => .scheme 3 :: key.pieces
  | federated key => .scheme 4 :: key.pieces

/-- The pieces of a multi-key: the number of its members, the members, and the number of
signatures. -/
def MultiKey.pieces (key : MultiKey) : List Piece :=
  .length key.members.length :: key.members.flatMap PublicKey.pieces ++ [.plain [key.required]]

/-- The address of a member has 32 bytes, if it has one. -/
def PublicKey.IsSized : PublicKey → Prop
  | federated key => key.address.length = 32
  | _ => True

instance : (m : PublicKey) → Decidable m.IsSized
  | .federated key => inferInstanceAs (Decidable (key.address.length = 32))
  | .ed25519 _ | .secp256k1 _ | .secp256r1 _ | .keyless _ => .isTrue trivial

/-- The addresses in a multi-key have 32 bytes each. -/
def MultiKey.IsSized (key : MultiKey) : Prop := ∀ m ∈ key.members, m.IsSized

instance (key : MultiKey) : Decidable key.IsSized :=
  inferInstanceAs (Decidable (∀ m ∈ key.members, m.IsSized))

/-! ### Formats that spell pieces -/

/-- A format writes a value as the shortest forms of some pieces, unless a length among them is too
great; of all forms of these pieces it reads no other one, and it reads that as the value. -/
structure Codec.Spells {α : Type} (c : Codec MultiKeyFault α) (value : α) (pieces : List Piece) :
    Prop where
  encode_eq_some_iff : ∀ bytes, c.encode value = some bytes ↔
    Fit pieces ∧ bytes = pieces.flatMap Piece.shortest
  shortest_of_decode : ∀ (forms : List (Piece × Bytes)) (rest : Bytes) (found : α) (rest' : Bytes),
    forms.map Prod.fst = pieces → (∀ f ∈ forms, f.1.IsWrittenAs f.2) →
    c.decode (forms.flatMap Prod.snd ++ rest) = .ok (found, rest') →
    found = value ∧ rest' = rest ∧ ∀ f ∈ forms, f.2 = f.1.shortest

namespace MultiKey

theorem fit_append {pieces others : List Piece} :
    Fit (pieces ++ others) ↔ Fit pieces ∧ Fit others := by
  simp only [Fit, List.mem_append]
  constructor
  · intro fit
    exact ⟨fun n inside => fit n (.inl inside), fun n inside => fit n (.inr inside)⟩
  · rintro ⟨front, back⟩ n (inside | inside)
    · exact front n inside
    · exact back n inside

/-- Only the shortest digits of a number are read. -/
theorem shortest_of_number {n found : Nat} {digits rest rest' : Bytes}
    (h : Uleb128.Writes n digits) (read : number.decode (digits ++ rest) = .ok (found, rest')) :
    found = n ∧ rest' = rest ∧ digits = Uleb128.shortest n := by
  simp only [number] at read
  split at read
  · rename_i digitsRead
    exact h.eq_shortest_of_decode32 (Except.ok.inj read ▸ digitsRead)
  · cases read

theorem scheme_spells {tag : Nat} (small : tag < UInt32.size) :
    number.Spells tag [.scheme tag] where
  encode_eq_some_iff bytes := by
    simp [number, Uleb128.encode32_eq, small, Fit, Piece.shortest, eq_comm]
  shortest_of_decode forms rest found rest' pieces written read := by
    obtain ⟨⟨_, digits⟩, rfl, rfl⟩ := List.map_eq_singleton_iff.1 pieces
    rw [List.flatMap_singleton] at read
    obtain ⟨rfl, rfl, short⟩ := shortest_of_number (written _ List.mem_cons_self) read
    exact ⟨rfl, rfl, List.forall_mem_singleton.2 short⟩

theorem length_spells (n : Nat) : length.Spells n [.length n] where
  encode_eq_some_iff bytes := by
    have room : n ≤ maxLength → n < UInt32.size := fun fit => Nat.lt_of_le_of_lt fit (by decide)
    simp only [length, number, Uleb128.encode32_eq, Fit, List.mem_singleton, Piece.length.injEq,
      forall_eq, List.flatMap_singleton, Piece.shortest, Option.ite_none_right_eq_some,
      Option.some.injEq]
    constructor
    · rintro ⟨fit, -, rfl⟩
      exact ⟨fit, rfl⟩
    · rintro ⟨fit, rfl⟩
      exact ⟨fit, room fit, rfl⟩
  shortest_of_decode forms rest found rest' pieces written read := by
    obtain ⟨⟨_, digits⟩, rfl, rfl⟩ := List.map_eq_singleton_iff.1 pieces
    simp only [List.flatMap_singleton, length] at read
    split at read
    · cases read
    · rename_i numberRead
      split at read
      · obtain ⟨rfl, rfl⟩ := Prod.mk.inj (Except.ok.inj read)
        obtain ⟨rfl, rfl, short⟩ := shortest_of_number (written _ List.mem_cons_self) numberRead
        exact ⟨rfl, rfl, List.forall_mem_singleton.2 short⟩
      · cases read

theorem plain_spells_raw {bytes : Bytes} {count : Nat} (sized : bytes.length = count)
    (short : MultiKeyFault) : (Codec.raw count short).Spells bytes [.plain bytes] where
  encode_eq_some_iff whole := by
    simp [Codec.raw, sized, Fit, Piece.shortest, eq_comm]
  shortest_of_decode forms rest found rest' pieces written read := by
    obtain ⟨⟨_, part⟩, rfl, rfl⟩ := List.map_eq_singleton_iff.1 pieces
    obtain rfl : part = bytes := written _ List.mem_cons_self
    subst sized
    simp only [List.flatMap_singleton, Codec.raw, Bytes.takeExact_append, Except.ok.injEq,
      Prod.mk.injEq] at read
    exact ⟨read.1.symm, read.2.symm, List.forall_mem_singleton.2 rfl⟩

theorem byte_spells (b : UInt8) (short : MultiKeyFault) :
    (Codec.byte short).Spells b [.plain [b]] where
  encode_eq_some_iff whole := by
    simp [Codec.byte, Fit, Piece.shortest, eq_comm]
  shortest_of_decode forms rest found rest' pieces written read := by
    obtain ⟨⟨_, part⟩, rfl, rfl⟩ := List.map_eq_singleton_iff.1 pieces
    obtain rfl : part = [b] := written _ List.mem_cons_self
    simp only [List.flatMap_singleton, List.singleton_append, Codec.byte, Except.ok.injEq,
      Prod.mk.injEq] at read
    exact ⟨read.1.symm, read.2.symm, List.forall_mem_singleton.2 rfl⟩

end MultiKey

namespace Codec

open MultiKey (fit_append)

variable {α β : Type} {pieces others : List Piece}

theorem Spells.via {c : Codec MultiKeyFault α} {b : β} (into : β → α) (of : α → β)
    (h : c.Spells (into b) pieces) (of_into : of (into b) = b) :
    (c.via into of).Spells b pieces where
  encode_eq_some_iff := h.encode_eq_some_iff
  shortest_of_decode forms rest found rest' same written read := by
    simp only [Codec.via] at read
    split at read
    · cases read
    · rename_i inner
      obtain ⟨rfl, rfl, short⟩ := h.shortest_of_decode _ _ _ _ same written inner
      obtain ⟨rfl, rfl⟩ := Prod.mk.inj (Except.ok.inj read)
      exact ⟨of_into, rfl, short⟩

/-- One format after another, which may depend on what was read first. -/
theorem Spells.andThen {head : Codec MultiKeyFault β} {next whole : Codec MultiKeyFault α} {b : β}
    {value : α} (h₁ : head.Spells b pieces) (h₂ : next.Spells value others)
    (encodes : whole.encode value = do
      let front ← head.encode b
      let back ← next.encode value
      return front ++ back)
    (starts : ∀ input found rest, whole.decode input = .ok (found, rest) →
      ∃ b' rest', head.decode input = .ok (b', rest'))
    (decodes : ∀ input rest, head.decode input = .ok (b, rest) →
      whole.decode input = next.decode rest) :
    whole.Spells value (pieces ++ others) where
  encode_eq_some_iff bytes := by
    rw [encodes, fit_append, List.flatMap_append]
    exact bind_append_eq_some_iff_and h₁.encode_eq_some_iff h₂.encode_eq_some_iff bytes
  shortest_of_decode forms rest found rest' same written read := by
    obtain ⟨front, back, rfl, same, same'⟩ := List.map_eq_append_iff.1 same
    obtain ⟨written, written'⟩ := List.forall_mem_append.1 written
    rw [List.flatMap_append, List.append_assoc] at read
    obtain ⟨b', middle, readHead⟩ := starts _ _ _ read
    obtain ⟨rfl, rfl, short⟩ := h₁.shortest_of_decode _ _ _ _ same written readHead
    rw [decodes _ _ readHead] at read
    obtain ⟨rfl, rfl, short'⟩ := h₂.shortest_of_decode _ _ _ _ same' written' read
    exact ⟨rfl, rfl, List.forall_mem_append.2 ⟨short, short'⟩⟩

theorem Spells.pair {first : Codec MultiKeyFault α} {second : Codec MultiKeyFault β} {a : α} {b : β}
    (h₁ : first.Spells a pieces) (h₂ : second.Spells b others) :
    (first.pair second).Spells (a, b) (pieces ++ others) := by
  refine h₁.andThen (h₂.via Prod.snd (Prod.mk a) rfl) rfl ?_ ?_
  · intro input found rest read
    simp only [Codec.pair] at read
    split at read
    · cases read
    · rename_i readFirst
      exact ⟨_, _, readFirst⟩
  · intro input rest read
    simp only [Codec.pair, Codec.via, read]

/-- Some values one after another. -/
theorem Spells.repeated {c : Codec MultiKeyFault α} {pieces : α → List Piece} {values : List α}
    (h : ∀ value ∈ values, c.Spells value (pieces value)) :
    (repeated c values.length).Spells values (values.flatMap pieces) := by
  induction values with
  | nil =>
    refine ⟨fun bytes => ?_, fun forms rest found rest' same written read => ?_⟩
    · have nothing : (Codec.repeated c 0).encode [] = some bytes ↔ bytes = [] := by
        rw [eq_comm (a := bytes)]
        exact Option.some_inj
      simp [nothing, Fit]
    · obtain rfl := List.map_eq_nil_iff.1 same
      obtain ⟨rfl, rfl⟩ := Prod.mk.inj (Except.ok.inj read)
      exact ⟨rfl, rfl, nofun⟩
  | cons value values ih =>
    obtain ⟨head, tail⟩ := List.forall_mem_cons.1 h
    refine head.andThen ((ih tail).via List.tail (List.cons value) rfl) rfl ?_ ?_
    · intro input found rest read
      simp only [List.length_cons, Codec.repeated] at read
      split at read
      · cases read
      · rename_i readHead
        exact ⟨_, _, readHead⟩
    · intro input rest read
      simp only [List.length_cons, Codec.repeated, Codec.via, read]
      cases (Codec.repeated c values.length).decode rest <;> rfl

end Codec

namespace MultiKey

/-- The number of values, and then the values. -/
theorem spells_counted {α : Type} {c : Codec MultiKeyFault α} {pieces : α → List Piece}
    {values : List α} (h : ∀ value ∈ values, c.Spells value (pieces value)) :
    (Codec.counted length c).Spells values (.length values.length :: values.flatMap pieces) := by
  refine (length_spells values.length).andThen (Codec.Spells.repeated h) rfl ?_ ?_
  · intro input found rest read
    simp only [Codec.counted] at read
    split at read
    · cases read
    · rename_i readLength
      exact ⟨_, _, readLength⟩
  · intro input rest read
    simp only [Codec.counted, read]

theorem bytes_spells (value : Bytes) : bytes.Spells value (bytesPieces value) := by
  refine (length_spells value.length).andThen (plain_spells_raw rfl .endOfBytes) ?_ ?_ ?_
  · have all : (Codec.raw value.length MultiKeyFault.endOfBytes).encode value = some value :=
      if_pos rfl
    rw [all]
    rfl
  · intro input found rest read
    simp only [bytes, Codec.lengthPrefixed] at read
    split at read
    · cases read
    · rename_i readLength
      exact ⟨_, _, readLength⟩
  · intro input rest read
    simp only [bytes, Codec.lengthPrefixed, Codec.raw, read]

theorem text_spells (value : String) : text.Spells value (bytesPieces (Utf8.encode value)) where
  encode_eq_some_iff := (bytes_spells _).encode_eq_some_iff
  shortest_of_decode forms rest found rest' same written read := by
    simp only [text, Codec.text] at read
    split at read
    · cases read
    · rename_i readBytes
      obtain ⟨rfl, rfl, short⟩ := (bytes_spells _).shortest_of_decode _ _ _ _ same written readBytes
      rw [Utf8.decode?_encode] at read
      obtain ⟨rfl, rfl⟩ := Prod.mk.inj (Except.ok.inj read)
      exact ⟨rfl, rfl, short⟩

theorem keyless_spells (key : KeylessKey) : keyless.Spells key key.pieces := by
  have fields := (text_spells key.issuer).pair (bytes_spells key.commitment)
  exact fields.via (fun key : KeylessKey => (key.issuer, key.commitment)) _ rfl

theorem federated_spells {key : FederatedKey} (sized : key.address.length = 32) :
    federated.Spells key key.pieces := by
  have fields := (plain_spells_raw sized .endOfBytes).pair (keyless_spells key.keyless)
  exact fields.via (fun key : FederatedKey => (key.address, key.keyless)) _ rfl

/-- The number of a scheme, and then a key of that scheme. -/
theorem spells_tagged {α : Type} {c : Codec MultiKeyFault α} {scheme : α → PublicKey}
    {tag : Nat} {key : α} {pieces : List Piece} (h : c.Spells key pieces)
    (small : tag < UInt32.size)
    (encodes : member.encode (scheme key) = tagged tag (c.encode key))
    (decodes : ∀ input rest, number.decode input = .ok (tag, rest) →
      member.decode input = readKey c scheme rest) :
    member.Spells (scheme key) (.scheme tag :: pieces) := by
  refine (scheme_spells small).andThen (h.via (fun _ => key) scheme rfl) encodes ?_ ?_
  · intro input found rest read
    simp only [member] at read
    split at read
    · cases read
    · rename_i readNumber
      exact ⟨_, _, readNumber⟩
  · intro input rest read
    simp only [decodes input rest read, readKey, Codec.via]
    cases c.decode rest <;> rfl

theorem member_spells {key : PublicKey} (sized : key.IsSized) : member.Spells key key.pieces := by
  cases key with
  | ed25519 key =>
    exact spells_tagged (bytes_spells key) (by decide) rfl
      fun _ _ read => by simp only [member, read]
  | secp256k1 key =>
    exact spells_tagged (bytes_spells key) (by decide) rfl
      fun _ _ read => by simp only [member, read]
  | secp256r1 key =>
    exact spells_tagged (bytes_spells key) (by decide) rfl
      fun _ _ read => by simp only [member, read]
  | keyless key =>
    exact spells_tagged (keyless_spells key) (by decide) rfl
      fun _ _ read => by simp only [member, read]
  | federated key =>
    exact spells_tagged (federated_spells sized) (by decide) rfl
      fun _ _ read => by simp only [member, read]

/-- The format of multi-keys spells their pieces. -/
theorem codec_spells {key : MultiKey} (sized : key.IsSized) : codec.Spells key key.pieces := by
  have members := spells_counted fun m inside => member_spells (sized m inside)
  have fields := members.pair (byte_spells key.required .endOfBytes)
  exact fields.via (fun key : MultiKey => (key.members, key.required)) _ rfl

end MultiKey

/-! ### Members -/

namespace PublicKey

theorem eq_of_encode {α : Type} {c : Codec MultiKeyFault α} (exact : c.Exact) {a b : α}
    {whole : Bytes} (ha : c.encode a = some whole) (hb : c.encode b = some whole) : a = b := by
  have reads := exact.decode_append ha []
  rw [exact.decode_append hb []] at reads
  exact (Prod.mk.inj (Except.ok.inj reads)).1.symm

/-- Members of one type with the same bytes are the same. -/
theorem eq_of_bytes {m n : PublicKey} {bytes : Bytes} (type : m.typeName = n.typeName)
    (hm : m.bytes = some bytes) (hn : n.bytes = some bytes) : m = n := by
  cases m <;> cases n <;> simp only [typeName, String.reduceEq] at type
  · exact congrArg ed25519 (Option.some.inj (hm.trans hn.symm))
  · exact congrArg secp256k1 (Option.some.inj (hm.trans hn.symm))
  · exact congrArg secp256r1 (Option.some.inj (hm.trans hn.symm))
  · exact congrArg keyless (eq_of_encode MultiKey.keyless_exact hm hn)
  · exact congrArg federated (eq_of_encode MultiKey.federated_exact hm hn)

/-- Only members with addresses of 32 bytes are written. -/
theorem isSized_of_encode {m : PublicKey} {whole : Bytes}
    (written : MultiKey.member.encode m = some whole) : m.IsSized := by
  cases m with
  | federated key =>
    obtain ⟨_, back, -, keyed, -⟩ := MultiKey.tagged_eq_some_iff.1 written
    obtain ⟨_, _, address, -, -⟩ := Codec.bind_append_eq_some_iff.1 keyed
    exact (Option.ite_none_right_eq_some.1 address).1
  | _ => trivial

end PublicKey

namespace MultiKey

theorem encode_eq_some_iff {key : MultiKey} {input : Bytes} : key.encode = some input ↔
    key.IsSized ∧ (∀ n, .length n ∈ key.pieces → n ≤ maxLength) ∧
      input = key.pieces.flatMap Piece.shortest := by
  constructor
  · intro written
    obtain ⟨_, _, members, -, -⟩ := Codec.bind_append_eq_some_iff.1 written
    have sized : key.IsSized := fun m inside => by
      obtain ⟨part, writtenPart, -⟩ := Codec.exists_encode_of_mem_counted members inside
      exact PublicKey.isSized_of_encode writtenPart
    exact ⟨sized, ((codec_spells sized).encode_eq_some_iff input).1 written⟩
  · rintro ⟨sized, written⟩
    exact ((codec_spells sized).encode_eq_some_iff input).2 written

/-- Bytes behind a multi-key are refused. -/
theorem ofBytes_append {key : MultiKey} {input trailing : Bytes} (read : ofBytes input = .ok key)
    (more : trailing ≠ []) : ofBytes (input ++ trailing) = .error .remainingBytes := by
  have written : codec.encode key = some input := ofBytes_eq_ok_iff.1 read
  obtain ⟨b, bs, rfl⟩ := List.exists_cons_of_ne_nil more
  simp only [ofBytes, Codec.decodeAll, codec_exact.decode_append written]

/-- Of all forms of the pieces of a multi-key only the shortest is read. -/
theorem shortest_of_ofBytes {key found : MultiKey} (sized : key.IsSized)
    {forms : List (Piece × Bytes)} (pieces : forms.map Prod.fst = key.pieces)
    (written : ∀ f ∈ forms, f.1.IsWrittenAs f.2)
    (read : ofBytes (forms.flatMap Prod.snd) = .ok found) : ∀ f ∈ forms, f.2 = f.1.shortest := by
  have front := codec_exact.decode_append (ofBytes_eq_ok_iff.1 read) []
  exact ((codec_spells sized).shortest_of_decode forms [] _ _ pieces written front).2.2

/-- What is read as a multi-key is its one form: it is read exactly off the bytes that it is written
as. It is written, if its addresses have 32 bytes and no length is too great, as the shortest forms
of its pieces. So no two byte strings are read as one multi-key, bytes behind it are refused, and so
is every form of its pieces with a number that is longer than it need be. Members of one type with
the same bytes are the same. -/
theorem ofBytes_canonical :
    (∀ input key, ofBytes input = .ok key ↔ key.encode = some input) ∧
    (∀ input (key : MultiKey), key.encode = some input ↔ key.IsSized ∧
      (∀ n, .length n ∈ key.pieces → n ≤ maxLength) ∧
        input = key.pieces.flatMap Piece.shortest) ∧
    (∀ input other key, ofBytes input = .ok key → ofBytes other = .ok key → input = other) ∧
    (∀ input trailing key, ofBytes input = .ok key → trailing ≠ [] →
      ofBytes (input ++ trailing) = .error .remainingBytes) ∧
    (∀ (key : MultiKey) (forms : List (Piece × Bytes)), key.IsSized →
      forms.map Prod.fst = key.pieces → (∀ f ∈ forms, f.1.IsWrittenAs f.2) →
      (∃ f ∈ forms, f.2 ≠ f.1.shortest) →
      ∃ fault, ofBytes (forms.flatMap Prod.snd) = .error fault) ∧
    ∀ (m n : PublicKey) bytes, m.typeName = n.typeName → m.bytes = some bytes →
      n.bytes = some bytes → m = n := by
  refine ⟨fun _ _ => ofBytes_eq_ok_iff, fun _ _ => encode_eq_some_iff, ?_,
    fun _ _ _ read more => ofBytes_append read more, ?_,
    fun _ _ _ type hm hn => PublicKey.eq_of_bytes type hm hn⟩
  · intro input other key read read'
    exact Option.some.inj ((ofBytes_eq_ok_iff.1 read).symm.trans (ofBytes_eq_ok_iff.1 read'))
  · rintro key forms sized pieces written ⟨f, inside, longer⟩
    cases read : ofBytes (forms.flatMap Prod.snd) with
    | error fault => exact ⟨fault, rfl⟩
    | ok found => exact absurd (shortest_of_ofBytes sized pieces written read f inside) longer

/-- A key of two bytes, and a key of a person known to an issuer. -/
def ofTwoSchemes : MultiKey := ⟨[.ed25519 [0xCD, 0xEF], .keyless ⟨"iss", [7]⟩], 1⟩

/-- The bytes of a multi-key, these bytes with one behind them, and these bytes with a zero behind
the digit of the first length. -/
theorem ofBytes_ofTwoSchemes :
    ofBytes [2, 0, 2, 0xCD, 0xEF, 3, 3, 105, 115, 115, 1, 7, 1] = .ok ofTwoSchemes ∧
    ofBytes [2, 0, 2, 0xCD, 0xEF, 3, 3, 105, 115, 115, 1, 7, 1, 0xFF] = .error .remainingBytes ∧
    ∃ fault, ofBytes [0x82, 0, 0, 2, 0xCD, 0xEF, 3, 3, 105, 115, 115, 1, 7, 1] = .error fault := by
  obtain ⟨reads, -, -, trailing, longer, -⟩ := ofBytes_canonical
  have read : ofBytes [2, 0, 2, 0xCD, 0xEF, 3, 3, 105, 115, 115, 1, 7, 1] = .ok ofTwoSchemes :=
    (reads _ _).2 (by decide)
  refine ⟨read, trailing _ [0xFF] _ read (by decide), ?_⟩
  have zero : Uleb128.Writes 0 [0] := .last (by decide : (0 : UInt8).toNat < 128)
  have digits : Uleb128.Writes 2 [0x82, 0] := .more (by decide : 128 ≤ (0x82 : UInt8).toNat) zero
  refine longer ofTwoSchemes
    ((.length 2, [0x82, 0]) :: ofTwoSchemes.pieces.tail.map fun piece => (piece, piece.shortest))
    (by decide) (by decide) ?_ ⟨_, List.mem_cons_self, by simp [Piece.shortest, Uleb128.shortest]⟩
  refine List.forall_mem_cons.2 ⟨digits, fun f inside => ?_⟩
  obtain ⟨piece, -, rfl⟩ := List.mem_map.1 inside
  exact piece.isWrittenAs_shortest

end MultiKey

end IngestLedger
