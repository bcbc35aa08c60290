import IngestLedger.Proofs.Keys
import IngestLedger.Proofs.Writing

/-!
# The layout of keys

Keys of eight tables lie in one store. A row has a key of its own, unless a component that names it
is empty or holds a NUL. A scan for a component finds the rows of its table that have it first and
no others, and the other components of what it finds are read off the keys.

Main definitions:

* `Component.fault?`: what is wrong with a component.

Main statements:

* `Component.join_eq_error_iff`: what cannot be joined is refused for its first bad component.
* `Ledger.isPrefixOf_keyBytes_iff`: the scans that find a row.
* `Ledger.keyBytes_unambiguous`: no key stands for two rows, and none is found by a foreign scan.
-/

namespace IngestLedger

/-! ### Components that are refused -/

namespace Component

/-- What is wrong with a component, if anything is. -/
def fault? (c : Component) : Option KeyFault :=
  if c.text = "" then some (.empty c.role)
  else if '\x00' ∈ c.text.toList then some (.containsNul c.role)
  else none

theorem fault?_eq_none_iff {c : Component} : c.fault? = none ↔ Nameable c.text := by
  unfold fault? Nameable
  by_cases empty : c.text = ""
  · simp [empty]
  · by_cases nul : '\x00' ∈ c.text.toList
    · simp [empty, nul]
    · simp [empty, nul]

theorem bytes_eq_error_iff {c : Component} {fault : KeyFault} :
    c.bytes = .error fault ↔ c.fault? = some fault := by
  unfold Component.bytes fault?
  simp only [List.isEmpty_iff, Utf8.encode_eq_nil_iff, List.contains_iff_mem,
    Utf8.zero_mem_encode_iff]
  by_cases empty : c.text = ""
  · simp [empty]
  · by_cases nul : '\x00' ∈ c.text.toList
    · simp [empty, nul]
    · simp [empty, nul]

/-- What cannot be joined is refused for its first bad component. -/
theorem join_eq_error_iff {cs : List Component} {fault : KeyFault} :
    join cs = .error fault ↔ cs.findSome? fault? = some fault := by
  induction cs with
  | nil => simp [join]
  | cons c cs ih =>
    cases cs with
    | nil =>
      rw [join, bytes_eq_error_iff, List.findSome?_cons]
      cases c.fault? <;> simp
    | cons d cs =>
      rw [List.findSome?_cons]
      simp only [join]
      cases front : c.bytes with
      | error found =>
        rw [bytes_eq_error_iff.1 front]
        simp
      | ok first =>
        -- the first component is good, so the fault is one of the others
        rw [fault?_eq_none_iff.2 (bytes_eq_ok_iff.1 front).1, ← ih]
        cases join (d :: cs) with
        | error found => simp
        | ok rest => simp

/-- There is a fault exactly when a component is empty or holds a NUL. -/
theorem exists_fault_iff {cs : List Component} :
    (∃ fault, cs.findSome? fault? = some fault) ↔
      ∃ c ∈ cs, c.text = "" ∨ '\x00' ∈ c.text.toList := by
  have bad (c : Component) : c.fault?.isSome ↔ c.text = "" ∨ '\x00' ∈ c.text.toList := by
    rw [← Option.ne_none_iff_isSome, ne_eq, fault?_eq_none_iff, Nameable, not_and_or, not_not,
      not_not]
  rw [← Option.isSome_iff_exists, List.findSome?_isSome_iff]
  exact exists_congr fun c => and_congr_right fun _ => bad c

end Component

/-! ### Keys of rows -/

theorem Key.bytes_eq_error_iff {key : Key} {fault : KeyFault} :
    key.bytes = .error fault ↔ key.components.findSome? Component.fault? = some fault := by
  rw [← Component.join_eq_error_iff]
  cases key with
  | chain => simp [Key.bytes, components, Component.join]
  | layout => simp [Key.bytes, components, Component.join]
  | _ =>
    simp only [Key.bytes]
    split
    · rename_i joined
      rw [joined]
    · rename_i joined
      rw [joined]
      simp

namespace Ledger

variable {key : Key} {family : Family} {bytes : Bytes} {e : LedgerError}

theorem keyBytes_eq_error_iff : keyBytes key = .error e ↔
    ∃ fault, key.components.findSome? Component.fault? = some fault ∧
      e = .invalidKey fault.message := by
  simp only [← Key.bytes_eq_error_iff, keyBytes]
  cases key.bytes with
  | error fault => simp [eq_comm]
  | ok bytes => simp

/-- The scans that find a row: the key begins with what the keys of a family begin with exactly when
the row is of its table and has its component first. -/
theorem isPrefixOf_keyBytes_iff (hkey : keyBytes key = .ok bytes) :
    (∃ front, familyBytes family = .ok front ∧ front <+: bytes) ↔
      key.table = family.table ∧
        (key.components.map Component.text).head? = some family.shared.text := by
  have built := keyBytes_eq_ok_iff.1 hkey
  rw [← Key.family?_eq_some_iff]
  constructor
  · rintro ⟨front, hfront, begins⟩
    exact (Key.isPrefixOf_family_iff built (familyBytes_eq_ok_iff.1 hfront)).1
      (List.isPrefixOf_iff_prefix.2 begins)
  · intro inside
    obtain ⟨d, cs, parts⟩ := Key.components_of_family? inside
    have good := Key.exists_bytes_iff.1 ⟨bytes, built⟩ family.shared
      (parts ▸ List.mem_cons_self)
    have hfront := Key.bytes_eq_ok_iff_of_family.2 ⟨good, rfl⟩
    exact ⟨_, familyBytes_eq_ok_iff.2 hfront,
      List.isPrefixOf_iff_prefix.1 ((Key.isPrefixOf_family_iff built hfront).2 inside)⟩

/-- Keys are unambiguous. A key is refused, for its first bad component, exactly when a component is
empty or holds a NUL; rows with the same key are the same row; a scan finds exactly the rows of its
table with its component first, and the other components are read off what it finds. -/
theorem keyBytes_unambiguous (key : Key) :
    ((∃ e, keyBytes key = .error e) ↔
      ∃ c ∈ key.components, c.text = "" ∨ '\x00' ∈ c.text.toList) ∧
    (∀ e, keyBytes key = .error e → ∃ fault,
      key.components.findSome? Component.fault? = some fault ∧ e = .invalidKey fault.message) ∧
    (∀ other bytes, keyBytes key = .ok bytes → keyBytes other = .ok bytes → key = other) ∧
    ∀ bytes family, keyBytes key = .ok bytes →
      ((∃ front, familyBytes family = .ok front ∧ front <+: bytes) ↔
        key.table = family.table ∧
          (key.components.map Component.text).head? = some family.shared.text) ∧
      ∀ front, familyBytes family = .ok front → front <+: bytes →
        components? front bytes = some (key.components.tail.map Component.text) := by
  refine ⟨?_, fun e refused => keyBytes_eq_error_iff.1 refused, fun other bytes hkey hother => ?_,
    fun bytes family hkey => ⟨isPrefixOf_keyBytes_iff hkey, fun front hfront begins => ?_⟩⟩
  · rw [← Component.exists_fault_iff]
    simp only [keyBytes_eq_error_iff]
    constructor
    · rintro ⟨e, fault, found, -⟩
      exact ⟨fault, found⟩
    · rintro ⟨fault, found⟩
      exact ⟨_, fault, found, rfl⟩
  · exact Key.bytes_injective (keyBytes_eq_ok_iff.1 hkey) (keyBytes_eq_ok_iff.1 hother)
  · have found := (isPrefixOf_keyBytes_iff hkey).1 ⟨front, hfront, begins⟩
    exact Key.components?_eq (keyBytes_eq_ok_iff.1 hkey) (familyBytes_eq_ok_iff.1 hfront)
      (Key.family?_eq_some_iff.2 found)

/-- An account whose address begins with the address of another one: neither their keys nor their
scans are mixed up. An address with a NUL is refused before an empty authentication key is. -/
theorem keyBytes_of_longer_account :
    keyBytes (.accountLink "0x10" "0xab") = .ok (Utf8.encode "a:0x10\x000xab") ∧
      keyBytes (.accountLink "0x1" "0xab") ≠ .ok (Utf8.encode "a:0x10\x000xab") ∧
      ¬ Utf8.encode "a:0x1\x00" <+: Utf8.encode "a:0x10\x000xab" ∧
      components? (Utf8.encode "a:0x10\x00") (Utf8.encode "a:0x10\x000xab") = some ["0xab"] ∧
      keyBytes (.accountLink "0x1\x00" "") =
        .error (.invalidKey "account address contains a NUL byte") := by
  have built : keyBytes (.accountLink "0x10" "0xab") = .ok (Utf8.encode "a:0x10\x000xab") := rfl
  have shorter : familyBytes (.linksOfAccount "0x1") = .ok (Utf8.encode "a:0x1\x00") := rfl
  have longer : familyBytes (.linksOfAccount "0x10") = .ok (Utf8.encode "a:0x10\x00") := rfl
  obtain ⟨-, -, injective, scans⟩ := keyBytes_unambiguous (.accountLink "0x10" "0xab")
  refine ⟨built, fun same => ?_, fun begins => ?_, ?_, ?_⟩
  · exact absurd (injective _ _ built same) (by decide)
  · have first := ((scans _ _ built).1.1 ⟨_, shorter, begins⟩).2
    exact absurd first (by decide)
  · exact (scans _ _ built).2 _ longer (by decide +kernel)
  · obtain ⟨refused, named, -⟩ := keyBytes_unambiguous (.accountLink "0x1\x00" "")
    obtain ⟨e, error⟩ := refused.2 ⟨_, List.mem_cons_self, .inr (by decide)⟩
    obtain ⟨fault, found, rfl⟩ := named e error
    have first : fault = .containsNul .accountAddress :=
      Option.some.inj (found.symm.trans (by decide))
    rw [error, first]
    decide

end Ledger

end IngestLedger
