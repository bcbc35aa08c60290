import IngestLedger.Key
import Mathlib.Data.List.Basic

/-!
# Laws of keys

A key in the store tells which row it is for: its tag names the table, and its components are
recovered by splitting what follows at the NUL bytes. A key begins with what the keys of a family
begin with exactly when its row is in that family.

Main statements:

* `Key.bytes_injective`: two rows with the same key are the same row.
* `Key.isPrefixOf_family_iff`: the rows that a scan for a family finds.
* `Key.components?_eq`: the components behind the shared one.
-/

namespace IngestLedger

/-! ### Texts that can stand in a key -/

namespace Utf8

theorem encode_eq_flatMap (text : String) :
    encode text = text.toList.flatMap String.utf8EncodeChar := by
  unfold encode
  rw [← String.utf8Encode_toList, List.utf8Encode, List.data_toByteArray, List.toList_toArray]

@[simp] theorem encode_eq_nil_iff {text : String} : encode text = [] ↔ text = "" := by
  rw [encode_eq_flatMap, List.flatMap_eq_nil_iff]
  constructor
  · intro none
    refine String.toList_eq_nil_iff.1 (List.eq_nil_iff_forall_not_mem.2 fun c hc => ?_)
    exact String.utf8EncodeChar_ne_nil (none c hc)
  · rintro rfl c hc
    simp at hc

theorem zero_eq_ofNat_iff {n : Nat} : (0 : UInt8) = UInt8.ofNat n ↔ n % 256 = 0 := by
  rw [← UInt8.toNat_inj, UInt8.toNat_ofNat', UInt8.toNat_zero, eq_comm]

/-- Only the NUL character is written with a zero byte. -/
theorem zero_mem_utf8EncodeChar_iff {c : Char} :
    (0 : UInt8) ∈ String.utf8EncodeChar c ↔ c = '\x00' := by
  have nul : c = '\x00' ↔ c.val.toNat = 0 := by
    rw [← Char.val_inj, ← UInt32.toNat_inj]
    rfl
  have bound : c.val.toNat < 2 ^ 32 := c.val.toNat_lt
  rw [nul]
  -- one case for each length; every byte but that of a single one has its high bit set
  unfold String.utf8EncodeChar
  dsimp only
  split
  · simp only [List.mem_singleton, zero_eq_ofNat_iff]
    omega
  · split
    · simp only [List.mem_cons, List.not_mem_nil, or_false, zero_eq_ofNat_iff]
      omega
    · split
      · simp only [List.mem_cons, List.not_mem_nil, or_false, zero_eq_ofNat_iff]
        omega
      · simp only [List.mem_cons, List.not_mem_nil, or_false, zero_eq_ofNat_iff]
        omega

theorem zero_mem_encode_iff {text : String} : 0 ∈ encode text ↔ '\x00' ∈ text.toList := by
  simp only [encode_eq_flatMap, List.mem_flatMap, zero_mem_utf8EncodeChar_iff]
  constructor
  · rintro ⟨c, member, rfl⟩
    exact member
  · intro member
    exact ⟨_, member, rfl⟩

theorem mapM_decode?_encode (texts : List String) :
    (texts.map encode).mapM decode? = some texts := by
  rw [List.mapM_map]
  induction texts with
  | nil => rfl
  | cons text texts ih => simp [ih]

end Utf8

/-- A text that can stand in a key: it is not empty and holds no NUL. -/
def Nameable (text : String) : Prop := text ≠ "" ∧ '\x00' ∉ text.toList

instance (text : String) : Decidable (Nameable text) :=
  inferInstanceAs (Decidable (_ ∧ _))

namespace Component

theorem bytes_eq_ok_iff {c : Component} {bytes : Bytes} :
    c.bytes = .ok bytes ↔ Nameable c.text ∧ bytes = Utf8.encode c.text := by
  unfold Component.bytes Nameable
  dsimp only
  rw [← Utf8.zero_mem_encode_iff]
  split
  · rename_i empty
    rw [List.isEmpty_iff, Utf8.encode_eq_nil_iff] at empty
    simp [empty]
  · rename_i nonempty
    rw [List.isEmpty_iff, Utf8.encode_eq_nil_iff] at nonempty
    split
    · rename_i nul
      simp [List.contains_iff_mem.1 nul]
    · rename_i nul
      rw [List.contains_iff_mem] at nul
      simp [nonempty, nul, eq_comm]

/-- Components are joined exactly when each can stand in a key. -/
theorem join_eq_ok_iff {cs : List Component} {bytes : Bytes} :
    join cs = .ok bytes ↔ (∀ c ∈ cs, Nameable c.text) ∧
      bytes = [0].intercalate (cs.map fun c => Utf8.encode c.text) := by
  induction cs generalizing bytes with
  | nil => simp [join, eq_comm]
  | cons c cs ih =>
    cases cs with
    | nil => simp [join, bytes_eq_ok_iff]
    | cons d cs =>
      rw [List.forall_mem_cons, List.map_cons, List.intercalate_cons_of_ne_nil (by simp)]
      simp only [join]
      cases front : c.bytes with
      | error fault =>
        refine iff_of_false nofun fun ⟨⟨good, _⟩, _⟩ => ?_
        rw [bytes_eq_ok_iff.2 ⟨good, rfl⟩] at front
        cases front
      | ok first =>
        obtain ⟨good, rfl⟩ := bytes_eq_ok_iff.1 front
        cases back : join (d :: cs) with
        | error fault =>
          refine iff_of_false nofun fun ⟨⟨_, all⟩, _⟩ => ?_
          rw [ih.2 ⟨all, rfl⟩] at back
          cases back
        | ok rest =>
          obtain ⟨all, rfl⟩ := ih.1 back
          rw [Except.ok.injEq, List.append_assoc, List.singleton_append]
          exact ⟨fun same => ⟨⟨good, all⟩, same.symm⟩, fun same => same.2.symm⟩

/-- Splitting at the NUL bytes gives the components back. -/
theorem splitOn_of_join {cs : List Component} {bytes : Bytes} (h : join cs = .ok bytes)
    (some_component : cs ≠ []) : bytes.splitOn 0 = cs.map fun c => Utf8.encode c.text := by
  obtain ⟨nameable, rfl⟩ := join_eq_ok_iff.1 h
  refine List.splitOn_intercalate 0 (fun part member => ?_) (by simpa using some_component)
  obtain ⟨c, inside, rfl⟩ := List.mem_map.1 member
  exact fun zero => (nameable c inside).2 (Utf8.zero_mem_encode_iff.1 zero)

end Component

/-! ### Keys of rows -/

theorem Table.length_tag (table : Table) : table.tag.length = 2 := by
  cases table <;> rfl

namespace Key

theorem bytes_eq_ok {key : Key} {bytes : Bytes} (h : key.bytes = .ok bytes) :
    ∃ rest, bytes = key.table.tag ++ rest ∧
      (key.components ≠ [] → Component.join key.components = .ok rest) := by
  cases key with
  | chain => exact ⟨_, (Except.ok.inj h).symm, fun h => absurd rfl h⟩
  | layout => exact ⟨_, (Except.ok.inj h).symm, fun h => absurd rfl h⟩
  | _ =>
    simp only [Key.bytes] at h
    split at h
    · cases h
    · rename_i rest joined
      exact ⟨rest, (Except.ok.inj h).symm, fun _ => joined⟩

/-- A row has a key exactly when each of its components can stand in one. -/
theorem exists_bytes_iff {key : Key} :
    (∃ bytes, key.bytes = .ok bytes) ↔ ∀ c ∈ key.components, Nameable c.text := by
  constructor
  · rintro ⟨bytes, h⟩
    obtain ⟨rest, -, joined⟩ := bytes_eq_ok h
    intro c member
    exact (Component.join_eq_ok_iff.1 (joined (List.ne_nil_of_mem member))).1 c member
  · intro nameable
    have joined := Component.join_eq_ok_iff.2 ⟨nameable, rfl⟩
    cases key with
    | chain => exact ⟨_, rfl⟩
    | layout => exact ⟨_, rfl⟩
    | _ => exact ⟨_, by simp only [Key.bytes, joined]; rfl⟩

/-- The front of a key tells the table. -/
theorem tag_isPrefixOf_iff {key : Key} {bytes : Bytes} (h : key.bytes = .ok bytes)
    {table : Table} : table.tag.isPrefixOf bytes = true ↔ key.table = table := by
  obtain ⟨rest, rfl, -⟩ := bytes_eq_ok h
  rw [List.isPrefixOf_iff_prefix]
  constructor
  · rintro ⟨others, same⟩
    have lengths : table.tag.length = key.table.tag.length := by
      rw [Table.length_tag, Table.length_tag]
    exact Table.tag_injective (List.append_inj_left same lengths).symm
  · rintro rfl
    exact ⟨rest, rfl⟩

theorem eq_of_table_of_components {j k : Key} (table : j.table = k.table)
    (components : j.components.map (fun c => Utf8.encode c.text) =
      k.components.map fun c => Utf8.encode c.text) : j = k := by
  cases j <;> cases k <;> simp only [Key.table, reduceCtorEq] at table <;>
    simp only [Key.components, List.map_cons, List.map_nil, List.cons.injEq, and_true] at components
  · rfl
  · rfl
  · rw [Utf8.encode_injective components]
  · rw [Utf8.encode_injective components]
  · rw [Utf8.encode_injective components.1, Utf8.encode_injective components.2]
  · rw [Utf8.encode_injective components.1, Utf8.encode_injective components.2]
  · rw [Utf8.encode_injective components.1, Utf8.encode_injective components.2.1,
      Utf8.encode_injective components.2.2]
  · rw [Utf8.encode_injective components.1, Utf8.encode_injective components.2.1,
      Utf8.encode_injective components.2.2]

/-- Two rows with the same key are the same row. -/
theorem bytes_injective {j k : Key} {bytes : Bytes} (hj : j.bytes = .ok bytes)
    (hk : k.bytes = .ok bytes) : j = k := by
  have table : j.table = k.table :=
    ((tag_isPrefixOf_iff hj).1 ((tag_isPrefixOf_iff hk).2 rfl))
  obtain ⟨rest, rfl, joined⟩ := bytes_eq_ok hj
  obtain ⟨other, same, joined'⟩ := bytes_eq_ok hk
  rw [table] at same
  obtain rfl := List.append_cancel_left same
  refine eq_of_table_of_components table ?_
  by_cases some_component : j.components = []
  · have none : k.components = [] := by
      cases j <;> cases k <;> simp_all [Key.table, Key.components]
    rw [some_component, none]
  · have some' : k.components ≠ [] := by
      cases j <;> cases k <;> simp_all [Key.table, Key.components]
    rw [← Component.splitOn_of_join (joined some_component) some_component,
      ← Component.splitOn_of_join (joined' some') some']

/-! ### Families -/

/-- The family of a row, in the tables that are scanned. -/
def family? : Key → Option Family
  | accountLink account _ => some (.linksOfAccount account)
  | accountIndex authKey _ => some (.accountsOfAuthKey authKey)
  | membership authKey _ _ => some (.membersOfAuthKey authKey)
  | membershipIndex publicKey _ _ => some (.authKeysOfPublicKey publicKey)
  | _ => none

theorem family?_eq_some_iff {key : Key} {family : Family} :
    key.family? = some family ↔ key.table = family.table ∧
      (key.components.map Component.text).head? = some family.shared.text := by
  cases key <;> cases family <;>
    simp [family?, Key.table, Family.table, Key.components, Family.shared]

/-- A row of a family has a component behind the shared one. -/
theorem components_of_family? {key : Key} {family : Family} (h : key.family? = some family) :
    ∃ d cs, key.components = family.shared :: d :: cs := by
  cases key <;> cases family <;> simp_all [family?, Key.components, Family.shared]

theorem bytes_eq_ok_iff_of_family {family : Family} {front : Bytes} :
    family.bytes = .ok front ↔ Nameable family.shared.text ∧
      front = family.table.tag ++ (Utf8.encode family.shared.text ++ [0]) := by
  unfold Family.bytes
  split
  · rename_i fault bad
    refine iff_of_false nofun fun ⟨good, _⟩ => ?_
    rw [Component.bytes_eq_ok_iff.2 ⟨good, rfl⟩] at bad
    cases bad
  · rename_i shared joined
    obtain ⟨good, rfl⟩ := Component.bytes_eq_ok_iff.1 joined
    rw [Except.ok.injEq, List.append_assoc]
    exact ⟨fun same => ⟨good, same.symm⟩, fun same => same.2.symm⟩

/-- The key of a row of a family: the front of the family and the other components. -/
theorem bytes_of_family? {key : Key} {family : Family} {bytes front : Bytes}
    (hkey : key.bytes = .ok bytes) (hfamily : family.bytes = .ok front)
    (h : key.family? = some family) :
    ∃ rest, bytes = front ++ rest ∧ Component.join key.components.tail = .ok rest := by
  obtain ⟨rest, rfl, joined⟩ := bytes_eq_ok hkey
  obtain ⟨d, cs, parts⟩ := components_of_family? h
  obtain ⟨-, rfl⟩ := bytes_eq_ok_iff_of_family.1 hfamily
  rw [parts] at joined ⊢
  obtain ⟨nameable, rfl⟩ := Component.join_eq_ok_iff.1 (joined (List.cons_ne_nil _ _))
  refine ⟨[0].intercalate ((d :: cs).map fun c => Utf8.encode c.text), ?_, ?_⟩
  · rw [(family?_eq_some_iff.1 h).1, List.map_cons, List.intercalate_cons_of_ne_nil (by simp)]
    simp only [List.append_assoc]
  · exact Component.join_eq_ok_iff.2
      ⟨fun c member => nameable c (List.mem_cons_of_mem _ member), rfl⟩

/-- The keys that begin with the front of a family are those of its rows. -/
theorem isPrefixOf_family_iff {key : Key} {family : Family} {bytes front : Bytes}
    (hkey : key.bytes = .ok bytes) (hfamily : family.bytes = .ok front) :
    front.isPrefixOf bytes = true ↔ key.family? = some family := by
  constructor
  · intro h
    obtain ⟨good, rfl⟩ := bytes_eq_ok_iff_of_family.1 hfamily
    obtain ⟨others, rfl⟩ := List.isPrefixOf_iff_prefix.1 h
    rw [List.append_assoc, List.append_assoc, List.singleton_append] at hkey
    have table : key.table = family.table :=
      (tag_isPrefixOf_iff hkey).1 (List.isPrefixOf_iff_prefix.2 ⟨_, rfl⟩)
    obtain ⟨rest, whole, joined⟩ := bytes_eq_ok hkey
    rw [table] at whole
    obtain rfl := List.append_cancel_left whole
    have some_component : key.components ≠ [] := by
      cases key <;> cases family <;> simp_all [Key.table, Family.table, Key.components]
    -- the first component is what stands before the first NUL
    have split := Component.splitOn_of_join (joined some_component) some_component
    have nul : (0 : UInt8) ∉ Utf8.encode family.shared.text :=
      fun zero => good.2 (Utf8.zero_mem_encode_iff.1 zero)
    rw [List.splitOn_append_cons_self_of_not_mem nul] at split
    refine family?_eq_some_iff.2 ⟨table, ?_⟩
    cases parts : key.components with
    | nil => exact absurd parts some_component
    | cons c cs =>
      rw [parts, List.map_cons, List.cons.injEq] at split
      rw [List.map_cons, List.head?_cons, Utf8.encode_injective split.1]
  · intro h
    obtain ⟨rest, rfl, -⟩ := bytes_of_family? hkey hfamily h
    exact List.isPrefixOf_iff_prefix.2 ⟨rest, rfl⟩

/-- Behind the front of its family, a key holds the other components of its row. -/
theorem components?_eq {key : Key} {family : Family} {bytes front : Bytes}
    (hkey : key.bytes = .ok bytes) (hfamily : family.bytes = .ok front)
    (h : key.family? = some family) :
    components? front bytes = some (key.components.tail.map Component.text) := by
  obtain ⟨rest, rfl, joined⟩ := bytes_of_family? hkey hfamily h
  have others : key.components.tail ≠ [] := by
    obtain ⟨d, cs, parts⟩ := components_of_family? h
    simp [parts]
  have behind : List.isPrefixOf? front (front ++ rest) = some rest :=
    List.isPrefixOf?_eq_some_iff_append_eq.2 rfl
  simp only [components?, behind, Component.splitOn_of_join joined others]
  have texts := Utf8.mapM_decode?_encode (key.components.tail.map Component.text)
  rw [List.map_map] at texts
  exact texts

end Key

end IngestLedger
