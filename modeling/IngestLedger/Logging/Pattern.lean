/-!
# Patterns

A log filter may hold a field to a pattern: characters, any character, sets of characters, edges
of lines and words, repetitions, groups and choices. Flags change how the parts behind them are
understood, up to the end of the group that they stand in.

A pattern can be well written and still have no meaning here. By default its characters are those
of Unicode, but their cases and classes are not known: case cannot be ignored, and digits, blanks,
word characters and edges of words have no meaning. Without the flag for Unicode these are the
ASCII ones; then a part that could stand for a piece of a character has no meaning, which are any
character, negated sets and characters beyond ASCII that are written as bytes or stand in sets.

Main definitions:

* `Pattern`: the patterns, with their sets of characters in `CharacterSet`.
* `Pattern.depth`: how deep the parts of a pattern lie in one another.
* `Pattern.modeAfter?`: whether a pattern has a meaning, and which mode it ends in.
-/

namespace IngestLedger

/-- What the parts of a pattern can be told. -/
inductive PatternFlag where
  | ignoreCase
  | manyLines
  | anyIncludesLineEnds
  | swapGreed
  | unicode
  | carriageReturns
  | ignoreBlanks
  deriving DecidableEq, Repr

/-- A sign in a list of flags: a flag, or the sign behind which flags are taken back. -/
inductive FlagSign where
  | flag (flag : PatternFlag)
  | negation
  deriving DecidableEq, Repr

/-- What a list of signs sets a flag to, if it names the flag, when flags are given or are taken
back from here on. -/
def FlagSign.settingFrom (given : Bool) (wanted : PatternFlag) : List FlagSign → Option Bool
  | [] => none
  | negation :: signs => settingFrom false wanted signs
  | flag found :: signs =>
    if found = wanted then some given else settingFrom given wanted signs

/-- What a list of signs sets a flag to, if it names the flag. -/
def FlagSign.setting (wanted : PatternFlag) (signs : List FlagSign) : Option Bool :=
  settingFrom true wanted signs

/-- A set of characters. -/
inductive CharacterSet where
  | nothing
  | char (c : Char)
  | range (first last : Char)
  /-- An ASCII class by its name. -/
  | named (negated : Bool)
  /-- Digits, blanks or word characters by their letter. -/
  | lettered (negated : Bool)
  | bracketed (negated : Bool) (inside : CharacterSet)
  | union (parts : List CharacterSet)
  /-- What two sets share, or what only one of them has. -/
  | operation (left right : CharacterSet)

/-- A pattern. -/
inductive Pattern where
  | nothing
  | flags (signs : List FlagSign)
  /-- A character; `isByte` tells that it is written as the number of a byte. -/
  | char (c : Char) (isByte : Bool)
  | anyChar
  /-- The beginning or the end of a line or of the text. -/
  | edge
  /-- A place where a word begins or ends, or where none does. -/
  | wordEdge
  /-- Digits, blanks or word characters by their letter. -/
  | lettered (negated : Bool)
  | set (negated : Bool) (inside : CharacterSet)
  | repeated (part : Pattern)
  | group (signs : List FlagSign) (part : Pattern)
  | sequence (parts : List Pattern)
  | choice (parts : List Pattern)

/-- The flags that a meaning depends on. -/
structure PatternMode where
  ignoreCase : Bool
  unicode : Bool
  deriving DecidableEq, Repr

namespace PatternMode

/-- The mode that a pattern begins in. -/
def standard : PatternMode := ⟨false, true⟩

/-- The mode behind a list of flags. -/
def change (mode : PatternMode) (signs : List FlagSign) : PatternMode where
  ignoreCase := (FlagSign.setting .ignoreCase signs).getD mode.ignoreCase
  unicode := (FlagSign.setting .unicode signs).getD mode.unicode

end PatternMode

namespace CharacterSet

mutual

/-- How deep the parts of a set lie in one another. -/
def depth : CharacterSet → Nat
  | nothing | char _ | range .. | named _ | lettered _ => 0
  | bracketed _ inside => inside.depth + 1
  | union parts => greatestDepth parts + 1
  | operation left right => max left.depth right.depth + 1

/-- How deep the deepest of some sets is. -/
def greatestDepth : List CharacterSet → Nat
  | [] => 0
  | part :: parts => max part.depth (greatestDepth parts)

end

mutual

/-- Whether a set has a meaning. A set that ignores case has none unless it is empty. -/
def hasMeaning (mode : PatternMode) : CharacterSet → Bool
  | nothing => true
  | char c => if mode.unicode then !mode.ignoreCase else c.toNat < 0x80
  | range first last =>
    if mode.unicode then !mode.ignoreCase else first.toNat < 0x80 && last.toNat < 0x80
  | named negated => if mode.unicode then !mode.ignoreCase else !negated
  | lettered negated => !mode.unicode && !negated
  | bracketed negated inside => (mode.unicode || !negated) && inside.hasMeaning mode
  | union parts => allHaveMeaning mode parts
  | operation left right => left.hasMeaning mode && right.hasMeaning mode

/-- Whether all of some sets have a meaning. -/
def allHaveMeaning (mode : PatternMode) : List CharacterSet → Bool
  | [] => true
  | part :: parts => part.hasMeaning mode && allHaveMeaning mode parts

end

end CharacterSet

namespace Pattern

mutual

/-- How deep the parts of a pattern lie in one another. -/
def depth : Pattern → Nat
  | nothing | flags _ | char .. | anyChar | edge | wordEdge | lettered _ => 0
  | set _ inside => inside.depth + 1
  | repeated part | group _ part => part.depth + 1
  | sequence parts | choice parts => greatestDepth parts + 1

/-- How deep the deepest of some patterns is. -/
def greatestDepth : List Pattern → Nat
  | [] => 0
  | part :: parts => max part.depth (greatestDepth parts)

end

mutual

/-- The mode behind a pattern that begins in a mode, if the pattern has a meaning there. -/
def modeAfter? (mode : PatternMode) : Pattern → Option PatternMode
  | nothing | edge => some mode
  | flags signs => some (mode.change signs)
  | char c isByte =>
    if mode.unicode then (if mode.ignoreCase then none else some mode)
    else if isByte && 0x80 ≤ c.toNat then none
    else some mode
  | anyChar => if mode.unicode then some mode else none
  | wordEdge => if mode.unicode then none else some mode
  | lettered negated => if mode.unicode || negated then none else some mode
  | set negated inside =>
    if (CharacterSet.bracketed negated inside).hasMeaning mode then some mode else none
  | repeated part => part.modeAfter? mode
  | group signs part => (part.modeAfter? (mode.change signs)).map fun _ => mode
  | sequence parts | choice parts => modeAfterAll? mode parts

/-- The mode behind patterns that follow one another. -/
def modeAfterAll? (mode : PatternMode) : List Pattern → Option PatternMode
  | [] => some mode
  | part :: parts =>
    match part.modeAfter? mode with
    | some mode => modeAfterAll? mode parts
    | none => none

end

/-- How deep the parts of a pattern may lie in one another. -/
def greatestAllowedDepth : Nat := 250

/-- Whether a pattern has a meaning. -/
def hasMeaning (pattern : Pattern) : Bool :=
  pattern.depth ≤ greatestAllowedDepth && (pattern.modeAfter? .standard).isSome

end Pattern

end IngestLedger
