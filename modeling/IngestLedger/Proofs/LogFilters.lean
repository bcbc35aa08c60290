import IngestLedger.Logging.Filter
import IngestLedger.Proofs.CharacterTables
import Mathlib.Data.List.DropRight

/-!
# Well-written directives of log filters

A directive is a target, a span that may be narrowed to fields, and a level. If no part holds a
character that ends it and the directive begins as one can, then it is well written if and only if
its fields and its level are. So the places at which its parts are cut out are the right ones,
however many bytes its characters have. Plain characters make a pattern, which stands for these
characters, so a field can be held to any plain value.

Main definitions:

* `LogDirective.Parts`: the parts of a directive, with its characters.

Main statements:

* `Pattern.read?_of_plain`: what plain characters are read as.
* `LogDirective.Parts.isWellFormed_chars`: when a directive is well written.
* `LogDirective.isField_of_plain`: a field with a plain value.
-/

namespace IngestLedger

namespace Pattern

/-! ### Plain characters -/

/-- The characters that do not stand for themselves in a pattern. -/
def signs : List Char := [')', '|', '(', '[', '?', '*', '+', '\x7b', '\\', '.', '^', '$']

/-- A character that is no sign is a part of its own. -/
theorem readPart_of_plain {c : Char} (plain : c ∉ signs) (rest : List Char) :
    readPart false (c :: rest) = some (.char c false, rest) := by
  simp only [signs, List.mem_cons, List.not_mem_nil, or_false, not_or] at plain
  unfold readPart
  split <;> simp_all

/-- Plain characters are read one after the other, behind the parts that have been read. -/
theorem readBranches_of_plain {chars : List Char} (plain : ∀ c ∈ chars, c ∉ signs) {fuel : Nat}
    (enough : chars.length < fuel) (names : List (List Char)) (parts : List Pattern) :
    readBranches fuel false names [] parts chars =
      some (sequenceOf ((chars.map (char · false)).reverse ++ parts), names, []) := by
  induction chars generalizing fuel parts with
  | nil =>
    obtain ⟨fuel, rfl⟩ := Nat.exists_eq_add_one_of_ne_zero (Nat.ne_of_gt enough)
    rfl
  | cons c chars ih =>
    obtain ⟨fuel, rfl⟩ := Nat.exists_eq_add_one_of_ne_zero (Nat.ne_of_gt (Nat.zero_lt_of_lt enough))
    obtain ⟨here, behind⟩ := List.forall_mem_cons.1 plain
    have other (sign : Char) (known : sign ∈ signs := by decide) : c ≠ sign :=
      fun same => here (same ▸ known)
    have unrepeated : ¬ ['?', '*', '+'].contains c = true := by
      simp [other '?', other '*', other '+']
    rw [readBranches]
    simp only [skip, Bool.false_eq_true, if_false]
    rw [if_neg (other ')'), if_neg (other '|'), if_neg (other '('), if_neg (other '['),
      if_neg unrepeated, if_neg (other '\x7b'), readPart_of_plain here]
    simpa using ih behind (Nat.lt_of_succ_lt_succ enough) (char c false :: parts)

/-- Plain characters are the pattern of these characters. -/
theorem read?_of_plain {chars : List Char} (plain : ∀ c ∈ chars, c ∉ signs) :
    read? chars = some (sequenceOf (chars.map (char · false)).reverse) := by
  rw [read?, readBranches_of_plain plain (Nat.lt_succ_self _), List.append_nil]

/-- Plain characters make a pattern. -/
theorem isWritten_of_plain {chars : List Char} (plain : ∀ c ∈ chars, c ∉ signs) :
    isWritten chars = true := by
  have kept (chars : List Char) :
      modeAfterAll? .standard (chars.map (char · false)) = some .standard := by
    induction chars with
    | nil => rfl
    | cons c chars ih => exact ih
  have flat (chars : List Char) : greatestDepth (chars.map (char · false)) = 0 := by
    induction chars with
    | nil => rfl
    | cons c chars ih => simpa [greatestDepth, depth] using ih
  rw [isWritten, read?_of_plain plain, Option.any_some]
  -- no part, one part and several parts are put together differently
  rcases parts : (chars.map (char · false)).reverse with _ | ⟨part, _ | ⟨next, others⟩⟩
  · rfl
  · obtain ⟨c, -, rfl⟩ := List.mem_map.1 (List.mem_reverse.1 (parts ▸ List.mem_singleton_self part))
    rfl
  · rw [sequenceOf, ← parts, List.reverse_reverse]
    · simp [hasMeaning, depth, flat, modeAfter?, kept, greatestAllowedDepth]
    · simp
    · simp

example : isWritten "a b, é-/日".toList = true := by decide +kernel

end Pattern

namespace LogDirective

/-! ### Places -/

/-- The number of bytes of characters. -/
def size : List Char → Nat
  | [] => 0
  | c :: chars => c.utf8Size + size chars

@[simp] theorem size_nil : size [] = 0 := rfl

@[simp] theorem size_cons (c : Char) (chars : List Char) :
    size (c :: chars) = c.utf8Size + size chars := rfl

@[simp] theorem size_append (front rest : List Char) :
    size (front ++ rest) = size front + size rest := by
  induction front with
  | nil => simp
  | cons c front ih => simp [ih, Nat.add_assoc]

/-- The first character takes a byte or more, and the size of the others is left. -/
theorem exists_size_cons (c : Char) (chars : List Char) : ∃ bytes, size (c :: chars) = bytes + 1 ∧
    c.utf8Size ≤ bytes + 1 ∧ bytes + 1 - c.utf8Size = size chars := by
  have wide := c.utf8Size_pos
  exact ⟨c.utf8Size + size chars - 1, by rw [size_cons]; omega, by omega, by omega⟩

/-- Cutting behind whole characters leaves the others. -/
theorem dropBytes_append (front rest : List Char) :
    dropBytes (size front) (front ++ rest) = some rest := by
  induction front with
  | nil => rw [size_nil, dropBytes, List.nil_append]
  | cons c front ih =>
    obtain ⟨bytes, count, fits, left⟩ := exists_size_cons c front
    rw [count, List.cons_append, dropBytes, if_pos fits, left, ih]

theorem takeBytes_append (front rest : List Char) :
    takeBytes (size front) (front ++ rest) = some front := by
  induction front with
  | nil => rw [size_nil, takeBytes]
  | cons c front ih =>
    obtain ⟨bytes, count, fits, left⟩ := exists_size_cons c front
    rw [count, List.cons_append, takeBytes, if_pos fits, left, ih, Option.map_some]

/-- What stands between two parts is cut out between their places. -/
theorem cut_append (before chars after : List Char) :
    cut (size before) (size before + size chars) (before ++ (chars ++ after)) = some chars := by
  rw [cut, dropBytes_append, Nat.add_sub_cancel_left]
  exact takeBytes_append chars after

/-! ### Parts of a directive -/

/-- The parts of a directive: a target, the name of a span that may be narrowed to fields, and a
level. -/
structure Parts where
  target : List Char
  span : Option (List Char × Option (List Char))
  level : Option (List Char)

namespace Parts

/-- The characters of the fields and of the closing bracket behind them. -/
def fieldsChars : Option (List Char) → List Char
  | none => [']']
  | some fields => '\x7b' :: (fields ++ ['\x7d', ']'])

/-- The characters of the span. -/
def spanChars : Option (List Char × Option (List Char)) → List Char
  | none => []
  | some (name, fields) => '[' :: (name ++ fieldsChars fields)

/-- The characters of the level. -/
def levelChars : Option (List Char) → List Char
  | none => []
  | some word => '=' :: word

/-- The characters of a directive. -/
def chars (parts : Parts) : List Char :=
  parts.target ++ (spanChars parts.span ++ levelChars parts.level)

/-- The directive begins as one can, and no part holds a character that ends it. -/
structure IsDelimited (parts : Parts) : Prop where
  begins : ∀ c, parts.target.head? = some c → canBegin c = true
  nonempty : parts.target = [] → parts.span ≠ none
  target : ∀ c ∈ parts.target, c ≠ '=' ∧ c ≠ '['
  name : ∀ name fields, parts.span = some (name, fields) → ∀ c ∈ name, c ≠ ']' ∧ c ≠ '\x7b'
  fields : ∀ name fields, parts.span = some (name, some fields) → ∀ c ∈ fields, c ≠ '\x7d'

end Parts

/-! ### Reading the parts -/

variable {given before chars rest : List Char} {stage : Stage} {place : Nat}

/-- Characters that do not end a part only move the place. -/
theorem leadsToEnd_append (stays : ∀ place, ∀ c ∈ chars, stage.next? given place c = some stage) :
    leadsToEnd given stage place (chars ++ rest) =
      leadsToEnd given stage (place + size chars) rest := by
  induction chars generalizing place with
  | nil => rfl
  | cons c chars ih =>
    rw [List.cons_append, leadsToEnd, stays place c (.head _)]
    rw [show (place + size (c :: chars)) = place + c.utf8Size + size chars by simp; omega]
    exact ih fun place d inside => stays place d (.tail _ inside)

/-- A directive may end in characters that do not end a part. -/
theorem leadsToEnd_of_stays
    (stays : ∀ place, ∀ c ∈ chars, stage.next? given place c = some stage) :
    leadsToEnd given stage place chars = stage.canEnd given := by
  rw [← List.append_nil chars, leadsToEnd_append stays, leadsToEnd]

/-- Whether a level, if there is one, is empty or a level. -/
def levelIsRead (level : Option (List Char)) : Bool :=
  level.all fun word => word.isEmpty || isLevel word

/-- A level is cut out with the blanks behind it, although those are not read. -/
theorem leadsToEnd_level (word trimmed : List Char) :
    leadsToEnd (before ++ '=' :: word) (.level (size before + 1)) place trimmed =
      levelIsRead (some word) := by
  have whole := dropBytes_append (before ++ ['=']) word
  rw [List.append_assoc, size_append, show size ['='] = 1 from rfl] at whole
  rw [leadsToEnd_of_stays fun _ _ _ => rfl, Stage.canEnd]
  exact congrArg (Option.any fun chars => chars.isEmpty || isLevel chars) whole

/-- Blanks are cut off the end up to a character that is none. -/
theorem rdropWhile_append_cons {c : Char} (visible : Text.isBlank c = false)
    (front rest : List Char) : (front ++ c :: rest).rdropWhile Text.isBlank =
      front ++ c :: rest.rdropWhile Text.isBlank := by
  induction rest using List.reverseRecOn with
  | nil => exact List.rdropWhile_concat_neg _ _ _ (by simp [visible])
  | append_singleton rest last ih =>
    rw [← List.cons_append, ← List.append_assoc, List.rdropWhile_concat, List.rdropWhile_concat]
    split
    · exact ih
    · simp

/-- Behind a span stands a level or nothing. -/
theorem leadsToEnd_spanRead (before : List Char) (level : Option (List Char)) :
    leadsToEnd (before ++ Parts.levelChars level) .spanRead (size before)
      ((Parts.levelChars level).rdropWhile Text.isBlank) = levelIsRead level := by
  cases level with
  | none => rfl
  | some word =>
    have trimmed := rdropWhile_append_cons (c := '=') (by decide) [] word
    rw [List.nil_append, List.nil_append] at trimmed
    rw [Parts.levelChars, trimmed, leadsToEnd]
    exact leadsToEnd_level word _

/-- Fields are read as a whole, and then the level behind them. -/
theorem leadsToEnd_fields (before : List Char) {fields : List Char}
    (delimited : ∀ c ∈ fields, c ≠ '\x7d') (level : Option (List Char)) :
    leadsToEnd (before ++ (fields ++ '\x7d' :: ']' :: Parts.levelChars level))
        (.field (size before)) (size before)
        (fields ++ '\x7d' :: ']' :: (Parts.levelChars level).rdropWhile Text.isBlank) =
      (isField fields && levelIsRead level) := by
  have stays : ∀ place, ∀ c ∈ fields, (Stage.field (size before)).next?
      (before ++ (fields ++ '\x7d' :: ']' :: Parts.levelChars level)) place c =
        some (.field (size before)) := by
    intro place c inside
    rw [Stage.next?, if_neg (delimited c inside)]
  have behind := leadsToEnd_spanRead (before ++ (fields ++ ['\x7d', ']'])) level
  have place : size (before ++ (fields ++ ['\x7d', ']'])) =
      size before + size fields + '\x7d'.utf8Size + ']'.utf8Size := by
    simp [Nat.add_assoc]
  simp only [List.append_assoc, List.cons_append, List.nil_append, place] at behind
  rw [leadsToEnd_append stays, leadsToEnd, Stage.next?, if_pos rfl, cut_append]
  cases read : isField fields with
  | false => simp [read]
  | true =>
    simp only [read, if_true]
    exact behind

/-- A span is read with its fields, and then the level behind it. -/
theorem leadsToEnd_span (before : List Char) {name : List Char} {fields : Option (List Char)}
    (level : Option (List Char)) (name_delimited : ∀ c ∈ name, c ≠ ']' ∧ c ≠ '\x7b')
    (fields_delimited : ∀ chars, fields = some chars → ∀ c ∈ chars, c ≠ '\x7d') :
    leadsToEnd (before ++ (name ++ (Parts.fieldsChars fields ++ Parts.levelChars level)))
        (.span (size before)) (size before)
        (name ++ (Parts.fieldsChars fields ++ (Parts.levelChars level).rdropWhile Text.isBlank)) =
      (fields.all isField && levelIsRead level) := by
  have stays : ∀ place, ∀ c ∈ name, (Stage.span (size before)).next?
      (before ++ (name ++ (Parts.fieldsChars fields ++ Parts.levelChars level))) place c =
        some (.span (size before)) := by
    intro place c inside
    obtain ⟨no_bracket, no_brace⟩ := name_delimited c inside
    rw [Stage.next?, if_neg no_bracket, if_neg no_brace]
  rw [leadsToEnd_append stays]
  cases fields with
  | none =>
    have behind := leadsToEnd_spanRead (before ++ (name ++ [']'])) level
    have place : size (before ++ (name ++ [']'])) = size before + size name + ']'.utf8Size := by
      simp [Nat.add_assoc]
    simp only [Parts.fieldsChars, List.append_assoc, List.cons_append, List.nil_append, place]
      at behind ⊢
    rw [leadsToEnd, Stage.next?, if_pos rfl, cut_append]
    exact behind
  | some chars =>
    have behind := leadsToEnd_fields (before ++ (name ++ ['\x7b']))
      (fields_delimited chars rfl) level
    have place : size (before ++ (name ++ ['\x7b'])) = size before + size name + 1 := by
      simp [Nat.add_assoc]
      rfl
    simp only [Parts.fieldsChars, List.append_assoc, List.cons_append, List.nil_append, place]
      at behind ⊢
    rw [leadsToEnd, Stage.next?, if_neg (by decide), if_pos rfl, cut_append]
    exact behind

theorem levelOrTarget_stays (delimited : ∀ c ∈ chars, c ≠ '=' ∧ c ≠ '[') (place : Nat) :
    ∀ c ∈ chars, Stage.levelOrTarget.next? given place c = some .levelOrTarget := by
  intro c inside
  rw [Stage.next?, if_neg (delimited c inside).1, if_neg (delimited c inside).2]

/-- A target is read up to the level. -/
theorem leadsToEnd_level_of_target {target : List Char}
    (delimited : ∀ c ∈ chars, c ≠ '=' ∧ c ≠ '[') (fits : place + size chars = size target)
    (word trimmed : List Char) :
    leadsToEnd (target ++ '=' :: word) .levelOrTarget place (chars ++ '=' :: trimmed) =
      levelIsRead (some word) := by
  have cut_target := cut_append [] target ('=' :: word)
  rw [size_nil, Nat.zero_add, List.nil_append] at cut_target
  rw [leadsToEnd_append (levelOrTarget_stays delimited), fits, leadsToEnd, Stage.next?, if_pos rfl,
    cut_target]
  exact leadsToEnd_level word trimmed

/-- A target is read up to the span. -/
theorem leadsToEnd_span_of_target {target : List Char}
    (delimited : ∀ c ∈ chars, c ≠ '=' ∧ c ≠ '[') (fits : place + size chars = size target)
    (after behind : List Char) :
    leadsToEnd (target ++ '[' :: after) .levelOrTarget place (chars ++ '[' :: behind) =
      leadsToEnd (target ++ '[' :: after) (.span (size target + 1)) (size target + 1) behind := by
  have cut_target := cut_append [] target ('[' :: after)
  rw [size_nil, Nat.zero_add, List.nil_append] at cut_target
  rw [leadsToEnd_append (levelOrTarget_stays delimited), fits, leadsToEnd, Stage.next?,
    if_neg (by decide), if_pos rfl, cut_target]
  rfl

/-! ### Whole directives -/

/-- What can begin a directive is no blank. -/
theorem isBlank_of_canBegin {c : Char} (begins : canBegin c = true) : Text.isBlank c = false := by
  refine Bool.eq_false_iff.2 fun blank => ?_
  rw [canBegin, Text.isLetterOrDigit_of_isBlank blank, Bool.or_false] at begins
  simp only [List.contains_iff_mem, List.mem_cons, List.not_mem_nil, or_false] at begins
  rcases begins with rfl | rfl | rfl
  · exact absurd blank (by decide)
  · exact absurd blank (by decide)
  · exact absurd blank (by decide)

theorem trimChars_cons {c : Char} (visible : Text.isBlank c = false) (rest : List Char) :
    Text.trimChars (c :: rest) = c :: rest.rdropWhile Text.isBlank := by
  rw [Text.trimChars, List.dropWhile_cons_of_neg (by simp [visible])]
  exact rdropWhile_append_cons visible [] rest

/-- The bracket that closes a span is no blank, so only what stands behind it is trimmed. -/
theorem rdropWhile_fieldsChars (front : List Char) (fields : Option (List Char))
    (rest : List Char) :
    (front ++ (Parts.fieldsChars fields ++ rest)).rdropWhile Text.isBlank =
      front ++ (Parts.fieldsChars fields ++ rest.rdropWhile Text.isBlank) := by
  cases fields with
  | none => exact rdropWhile_append_cons (by decide) front rest
  | some chars =>
    have trimmed := rdropWhile_append_cons (c := ']') (by decide)
      (front ++ '\x7b' :: (chars ++ ['\x7d'])) rest
    simpa [Parts.fieldsChars] using trimmed

namespace Parts

variable {parts : Parts}

/-- A directive whose parts hold nothing that ends them is well written if and only if its fields
and its level are. -/
theorem isWellFormed_chars (delimited : parts.IsDelimited) : isWellFormed parts.chars =
    ((parts.span.bind Prod.snd).all isField && levelIsRead parts.level) := by
  obtain ⟨target, span, level⟩ := parts
  obtain ⟨begins, nonempty, target_delimited, name_delimited, fields_delimited⟩ := delimited
  simp only [] at begins nonempty target_delimited name_delimited fields_delimited
  rw [isWellFormed]
  cases target with
  | nil =>
    cases span with
    | none => exact absurd rfl (nonempty rfl)
    | some span =>
      obtain ⟨name, fields⟩ := span
      have read := leadsToEnd_span ['['] level
        (name_delimited name fields rfl)
        (fun chars some => fields_delimited name chars (some ▸ rfl))
      simp only [Parts.chars, Parts.spanChars, List.nil_append, List.cons_append, List.append_assoc]
      rw [trimChars_cons (by decide), rdropWhile_fieldsChars, leadsToEnd]
      exact read
  | cons first target =>
    have visible := isBlank_of_canBegin (begins first rfl)
    obtain ⟨⟨-, no_bracket⟩, rest_delimited⟩ := List.forall_mem_cons.1 target_delimited
    have fits : 0 + first.utf8Size + size target = size (first :: target) := by simp
    have starts (given behind : List Char) : leadsToEnd given .start 0 (first :: behind) =
        leadsToEnd given .levelOrTarget (0 + first.utf8Size) behind := by
      rw [leadsToEnd, Stage.next?, if_neg no_bracket, if_pos (begins first rfl)]
    rw [Parts.chars, List.cons_append, trimChars_cons visible, starts, ← List.cons_append]
    cases span with
    | some span =>
      obtain ⟨name, fields⟩ := span
      have read := leadsToEnd_span (first :: target ++ ['[']) level
        (name_delimited name fields rfl)
        (fun chars some => fields_delimited name chars (some ▸ rfl))
      have trimmed := rdropWhile_fieldsChars (target ++ '[' :: name) fields (levelChars level)
      have place : size (first :: target ++ ['[']) = size (first :: target) + 1 := size_append _ _
      simp only [List.append_assoc, List.cons_append, List.nil_append] at trimmed read place ⊢
      simp only [spanChars, List.cons_append, List.append_assoc, trimmed]
      rw [← List.cons_append, leadsToEnd_span_of_target rest_delimited fits, ← place]
      exact read
    | none =>
      cases level with
      | some word =>
        rw [show spanChars none ++ levelChars (some word) = '=' :: word from rfl,
          rdropWhile_append_cons (by decide),
          leadsToEnd_level_of_target rest_delimited fits]
        rfl
      | none =>
        -- nothing ends the target, and the blanks at its end are passed over
        have trimmed : ∀ c ∈ target.rdropWhile Text.isBlank, c ≠ '=' ∧ c ≠ '[' :=
          fun c inside => rest_delimited c ((List.rdropWhile_prefix _ _).subset inside)
        simp only [spanChars, levelChars, List.append_nil]
        rw [leadsToEnd_of_stays (levelOrTarget_stays trimmed)]
        rfl

end Parts

example : isWellFormed "é[s\x7bf=b+\x7d]=WARN".toList ∧ isWellFormed "a b".toList ∧
    isWellFormed "[s]=".toList ∧ isWellFormed "a=info ".toList = false ∧
    isWellFormed "a=6".toList = false ∧ isWellFormed "[s\x7bf=(\x7d]".toList = false := by
  decide +kernel

/-- A field can be held to any plain value. -/
theorem isField_of_plain {name value : List Char} (named : ∀ c ∈ name, c ≠ '=')
    (plain : ∀ c ∈ value, c ≠ '=' ∧ c ∉ Pattern.signs) : isField (name ++ '=' :: value) = true := by
  have behind : (name ++ '=' :: value).dropWhile (· ≠ '=') = '=' :: value := by
    rw [List.dropWhile_append_of_pos (by simpa using named), List.dropWhile_cons_of_neg (by decide)]
  have whole : value.takeWhile (· ≠ '=') = value :=
    List.takeWhile_eq_self_iff.2 fun c inside => decide_eq_true (plain c inside).1
  rw [isField, behind]
  simp only [whole, Pattern.isWritten_of_plain fun c inside => (plain c inside).2]
  simp

end LogDirective

end IngestLedger
