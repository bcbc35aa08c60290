import IngestLedger.Proofs.JsonRecords
import IngestLedger.RunMode.Document

/-!
# Documents of run modes

A document with the fields of a run mode gives that mode back, wherever the name of the mode stands
among them, and the mode is then validated: a blank backfill name is refused before a range that
ends before it begins.

Main definitions:

* `RunMode.HasBlankId`, `RunMode.bounds`: what is validated.

Main statements:

* `RunMode.splitMembers_of_perm`: the name of the mode is taken out of the members.
* `RunMode.read_of_writes`: what is read of a document with the fields of a mode.
* `RunMode.ofDocument_documentOf`: what such a document gives.
-/

namespace IngestLedger.RunMode

open Json

/-! ### What is validated -/

/-- The name of a backfill holds nothing but blanks. -/
def HasBlankId : RunMode → Prop
  | .backfill id .. => Text.trimChars id.toList = []
  | .live _ | .testing .. => False

instance : DecidablePred HasBlankId
  | .live _ | .testing .. => .isFalse id
  | .backfill id .. => inferInstanceAs (Decidable (Text.trimChars id.toList = []))

/-- The first version of a run, and the last one if it is given. -/
def bounds : RunMode → Version × Option Version
  | .live initial => (initial, none)
  | .backfill _ initial ending _ => (initial, ending)
  | .testing start ending => (start, ending)

theorem checkOrder_cases (start : Version) (ending : Option Version) :
    (∃ last, ending = some last ∧ last < start ∧
      checkOrder start ending = .error (.endingBeforeStart start last)) ∨
    (∀ last, ending = some last → start ≤ last) ∧ checkOrder start ending = .ok () := by
  cases ending with
  | none => exact .inr ⟨nofun, rfl⟩
  | some last =>
    by_cases below : last < start
    · exact .inl ⟨last, rfl, below, by rw [checkOrder, if_pos below]⟩
    · refine .inr ⟨fun _ same => ?_, by rw [checkOrder, if_neg below]⟩
      exact Option.some.inj same ▸ UInt64.not_lt.1 below

/-- What is validated, in this order: the name of a backfill and the order of the bounds. -/
theorem validate_cases (mode : RunMode) :
    (mode.HasBlankId ∧ mode.validate = .error .emptyBackfillId) ∨
    (¬ mode.HasBlankId ∧ ∃ last, mode.bounds.2 = some last ∧ last < mode.bounds.1 ∧
      mode.validate = .error (.endingBeforeStart mode.bounds.1 last)) ∨
    (¬ mode.HasBlankId ∧ (∀ last, mode.bounds.2 = some last → mode.bounds.1 ≤ last) ∧
      mode.validate = .ok ()) := by
  cases mode with
  | live initial => exact .inr (.inr ⟨id, nofun, rfl⟩)
  | backfill name initial ending overwrite =>
    by_cases blank : Text.trimChars name.toList = []
    · exact .inl ⟨blank, by simp [validate, blank]⟩
    · have ordered : (backfill name initial ending overwrite).validate =
          checkOrder initial ending := by simp [validate, blank]
      rw [ordered]
      exact .inr ((checkOrder_cases initial ending).imp (⟨blank, ·⟩) (⟨blank, ·⟩))
  | testing start ending =>
    exact .inr ((checkOrder_cases start ending).imp (⟨id, ·⟩) (⟨id, ·⟩))

/-! ### The name of the mode -/

/-- A mode as documents name it. -/
def tag : RunMode → Tag
  | .live _ => .default
  | .backfill .. => .backfill
  | .testing .. => .testing

/-- The fields of a run mode without its name. -/
def settings (mode : RunMode) : List (String × Value) := mode.fields.tail

theorem fields_eq (mode : RunMode) :
    mode.fields = (tagName, .text mode.label) :: mode.settings := by
  cases mode <;> rfl

theorem readTag_label (mode : RunMode) : readTag (.text mode.label) = .ok mode.tag := by
  cases mode <;> rfl

/-- Once the name of the mode was read, the other members stay as they are. -/
theorem splitMembers_some {rest : List Char} {tag : Tag} {members : List (String × Value)}
    (others : ∀ m ∈ members, m.1 ≠ tagName ∧ m.2.isStorable settingDepth = true) :
    splitMembers (.closed rest) (some tag) members = .ok (tag, members) := by
  induction members with
  | nil => rfl
  | cons member members ih =>
    obtain ⟨⟨other, storable⟩, others⟩ := List.forall_mem_cons.1 others
    rw [splitMembers, if_neg other, if_pos storable, ih others]

/-- The name of the mode is found behind other members. -/
theorem splitMembers_none {rest : List Char} {tag : Tag} {value : Value}
    {before after : List (String × Value)} (named : readTag value = .ok tag)
    (others : ∀ m ∈ before ++ after, m.1 ≠ tagName ∧ m.2.isStorable settingDepth = true) :
    splitMembers (.closed rest) none (before ++ (tagName, value) :: after) =
      .ok (tag, before ++ after) := by
  induction before with
  | nil =>
    rw [List.nil_append, splitMembers, if_pos rfl]
    simp only [named]
    exact splitMembers_some others
  | cons member before ih =>
    obtain ⟨⟨other, storable⟩, others⟩ := List.forall_mem_cons.1 others
    rw [List.cons_append, splitMembers, if_neg other, if_pos storable, ih others]
    rfl

/-- The name of the mode is taken out of the members, wherever it stands. -/
theorem splitMembers_of_perm (rest : List Char) {tag : Tag} {value : Value}
    {members others : List (String × Value)} (given : members.Perm ((tagName, value) :: others))
    (named : readTag value = .ok tag)
    (storable : ∀ m ∈ others, m.1 ≠ tagName ∧ m.2.isStorable settingDepth = true) :
    ∃ left, left.Perm others ∧ splitMembers (.closed rest) none members = .ok (tag, left) := by
  obtain ⟨before, after, rfl⟩ := List.append_of_mem (given.mem_iff.2 List.mem_cons_self)
  have left : (before ++ after).Perm others := (List.perm_middle.symm.trans given).cons_inv
  exact ⟨_, left, splitMembers_none named fun m inside => storable m (left.mem_iff.1 inside)⟩

/-! ### The settings -/

theorem names_settings (mode : RunMode) :
    mode.settings.map Prod.fst = (settingProbes mode.tag).map Probe.name := by
  cases mode <;> rfl

theorem nodup_names_settings (mode : RunMode) : (mode.settings.map Prod.fst).Nodup := by
  rw [names_settings]
  cases mode.tag <;> decide

theorem isPlain_of_mem_settings {mode : RunMode} {field : String × Value}
    (inside : field ∈ mode.settings) : field.2.IsPlain := by
  have optional (ending : Option Version) : (Value.optional Value.word ending).IsPlain := by
    cases ending with
    | none => exact .null
    | some ending => exact .word ending
  cases mode with
  | live initial =>
    obtain rfl := List.mem_singleton.1 inside
    exact .word initial
  | backfill id initial ending overwrite =>
    simp only [settings, fields, List.tail_cons, List.mem_cons, List.not_mem_nil,
      or_false] at inside
    obtain rfl | rfl | rfl | rfl := inside
    exacts [.text id, .word initial, optional ending, .bool overwrite]
  | testing start ending =>
    simp only [settings, fields, List.tail_cons, List.mem_cons, List.not_mem_nil,
      or_false] at inside
    obtain rfl | rfl := inside
    exacts [.word start, optional ending]

theorem read_endingField (ending : Option Version) :
    endingField.read (.optional .word ending) = .ok ending := by
  cases ending <;> rfl

/-- Every setting of a mode is good for its field. -/
theorem memberFault?_of_mem_settings {mode : RunMode} {field : String × Value}
    (inside : field ∈ mode.settings) : memberFault? (settingProbes mode.tag) field = none := by
  cases mode with
  | live initial =>
    obtain rfl := List.mem_singleton.1 inside
    exact memberFault?_of_read initialField rfl rfl
  | backfill id initial ending overwrite =>
    simp only [settings, fields, List.tail_cons, List.mem_cons, List.not_mem_nil,
      or_false] at inside
    obtain rfl | rfl | rfl | rfl := inside
    · exact memberFault?_of_read backfillIdField rfl rfl
    · exact memberFault?_of_read initialField rfl rfl
    · exact memberFault?_of_read endingField rfl (read_endingField ending)
    · exact memberFault?_of_read overwriteField rfl rfl
  | testing start ending =>
    simp only [settings, fields, List.tail_cons, List.mem_cons, List.not_mem_nil,
      or_false] at inside
    obtain rfl | rfl := inside
    · exact memberFault?_of_read testingStartField rfl rfl
    · exact memberFault?_of_read endingField rfl (read_endingField ending)

/-- The mode of a record with its settings. -/
theorem ofSettings_of_perm {mode : RunMode} {members : List (String × Value)} {ending : Ending}
    (given : members.Perm mode.settings) :
    ofSettings ⟨members, ending, false⟩ mode.tag = .ok mode := by
  have get {α : Type} (field : Json.Field α) {value : Value}
      (inside : (field.name, value) ∈ mode.settings) :
      Record.get ⟨members, ending, false⟩ field = field.read value := by
    have all : (membersUnder (mode.settings.map Prod.fst) members).Perm mode.settings := by
      rwa [membersUnder, List.filter_eq_self.2 fun m inside => ?_]
      simpa using ⟨m.2, given.mem_iff.1 inside⟩
    simp only [Record.get, lookup_of_perm all mode.nodup_names_settings inside]
  cases mode with
  | live initial =>
    rw [tag, ofSettings, get initialField (.head _)]
    rfl
  | backfill id initial ending overwrite =>
    rw [tag, ofSettings, get backfillIdField (.head _), get initialField (.tail _ (.head _)),
      get endingField (.tail _ (.tail _ (.head _))), read_endingField,
      get overwriteField (.tail _ (.tail _ (.tail _ (.head _))))]
    rfl
  | testing start ending =>
    rw [tag, ofSettings, get testingStartField (.head _), get endingField (.tail _ (.head _)),
      read_endingField]
    rfl

/-! ### Whole documents -/

/-- A document that writes an object with the fields of a mode, in any order, is read as the
mode. -/
theorem read_of_writes {mode : RunMode} {document : String} {members : List (String × Value)}
    (written : Writes document (.record members)) (given : members.Perm mode.fields) :
    read document = .ok mode := by
  rw [fields_eq] at given
  have storable : ∀ field ∈ mode.settings,
      field.1 ≠ tagName ∧ field.2.isStorable settingDepth = true := by
    intro field inside
    have names : ∀ tag, tagName ∉ (settingProbes tag).map Probe.name := by
      intro tag
      cases tag <;> decide
    refine ⟨fun same => names mode.tag ?_, (isPlain_of_mem_settings inside).isStorable⟩
    rw [← names_settings, ← same]
    exact List.mem_map_of_mem inside
  obtain ⟨blanks, blank, outlined⟩ := outline?_of_writes written
  obtain ⟨left, kept, split⟩ :=
    splitMembers_of_perm blanks given mode.readTag_label storable
  have all : (membersUnder ((settingProbes mode.tag).map Probe.name) left).Perm mode.settings := by
    rwa [membersUnder, List.filter_eq_self.2 fun m inside => ?_]
    rw [← names_settings]
    simpa using ⟨m.2, kept.mem_iff.1 inside⟩
  have verified : Record.verify ⟨left, .closed blanks, false⟩ (settingProbes mode.tag) =
      .ok () := by
    rcases Record.verify_of_perm _ blanks false all mode.nodup_names_settings with
      ⟨passed, -⟩ | ⟨field, inside, fault, faulty, -⟩
    · exact passed
    · rw [memberFault?_of_mem_settings inside] at faulty
      cases faulty
  simp only [read, outlined, splitTag, split, bind, Except.bind, Outline.record, verified,
    ofSettings_of_perm kept, Record.finish, skipBlanks_of_isBlanks blank]
  rfl

/-- What a document with the fields of a mode gives, in whatever order they are written: the mode,
if its backfill name is not blank and its range does not end before it begins, and otherwise the
first of these two reasons to refuse it. -/
theorem ofDocument_documentOf {mode : RunMode} {fields : List (String × Value)}
    (given : fields.Perm mode.fields) :
    (mode.HasBlankId ∧ mode.validate = .error .emptyBackfillId ∧
      ofDocument (documentOf fields) = .error (.invalid .emptyBackfillId)) ∨
    (¬ mode.HasBlankId ∧ ∃ last, mode.bounds.2 = some last ∧ last < mode.bounds.1 ∧
      mode.validate = .error (.endingBeforeStart mode.bounds.1 last) ∧
      ofDocument (documentOf fields) = .error (.invalid (.endingBeforeStart mode.bounds.1 last))) ∨
    (¬ mode.HasBlankId ∧ (∀ last, mode.bounds.2 = some last → mode.bounds.1 ≤ last) ∧
      mode.validate = .ok () ∧ ofDocument (documentOf fields) = .ok mode) := by
  have plain : ∀ field ∈ fields, field.2.IsPlain := by
    intro field inside
    have known := given.mem_iff.1 inside
    rw [fields_eq, List.mem_cons] at known
    rcases known with rfl | known
    · exact .text _
    · exact isPlain_of_mem_settings known
  have whole : read (documentOf fields) = .ok mode := read_of_writes (writes_render plain) given
  simp only [ofDocument, whole]
  rcases mode.validate_cases with ⟨blank, refused⟩ | ⟨named, last, ends, below, refused⟩ |
    ⟨named, ordered, valid⟩
  · simp [blank, refused]
  · exact .inr (.inl ⟨named, last, ends, below, refused, by simp only [refused]⟩)
  · exact .inr (.inr ⟨named, ordered, valid, by simp only [valid]⟩)

namespace AwkwardId

/-- A backfill whose name holds a quote, a backslash, a NUL and a line feed, up to the greatest
version. -/
def mode : RunMode := .backfill "\"\\\x00\n ä" 7 (some 0xFFFFFFFFFFFFFFFF) true

/-- Its document with the name of the mode at the end. -/
theorem ofDocument_tag_last : mode.fields.reverse.Perm mode.fields ∧
    ofDocument (documentOf mode.fields.reverse) = .ok mode := by
  have given : mode.fields.reverse.Perm mode.fields := List.reverse_perm _
  refine ⟨given, ?_⟩
  rcases ofDocument_documentOf given with ⟨blank, -⟩ | ⟨-, last, ends, below, -⟩ | ⟨-, -, -, whole⟩
  · exact absurd blank (by decide)
  · cases ends
    exact absurd below (by decide)
  · exact whole

end AwkwardId

end IngestLedger.RunMode
