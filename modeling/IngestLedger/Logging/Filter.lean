import IngestLedger.Logging.Pattern.Reader

/-!
# Log filters

Which messages are logged is told by a filter, a list of directives between commas. A directive is
a level, a target, or a target with a level behind an equals sign. A target may be narrowed to a
span in brackets, and the span to fields in braces, each with a value that it has to match:

    warn,store=debug,store[open{path=a+}]=trace

A directive is read character by character. Blanks around it do not count as characters, but its
parts are cut out at the places that they have without the blanks, so blanks in front displace
them: what is cut out then has to make sense as well. A place inside of a character is no place to
cut at.

Main definitions:

* `LogDirective.isWellFormed`: whether a directive can be read.
* `LogFilter.isWellFormed`: whether a filter can be read.
-/

namespace IngestLedger

namespace LogDirective

/-! ## Parts -/

/-- The words for levels. -/
def levels : List String := ["trace", "debug", "info", "warn", "error", "off"]

/-- Whether characters are a level: a word in letters of either case, or a number up to five. -/
def isLevel (chars : List Char) : Bool :=
  levels.contains (String.ofList (chars.map Char.toLower)) ||
    (Text.wholeNumber? 6 chars).isSome

/-- Whether characters are a number: a word for infinity or for no number, or digits with a point
and an exponent. -/
def isNumber (chars : List Char) : Bool :=
  let size := match chars with
    | '+' :: size => size
    | '-' :: size => size
    | size => size
  ["inf", "infinity", "nan"].contains (String.ofList (size.map Char.toLower)) ||
    let (whole, rest) := size.span Char.isDigit
    let (fraction, rest) := match rest with
      | '.' :: rest => rest.span Char.isDigit
      | rest => ([], rest)
    let exponent := match rest with
      | 'e' :: '+' :: digits | 'e' :: '-' :: digits | 'e' :: digits => some digits
      | 'E' :: '+' :: digits | 'E' :: '-' :: digits | 'E' :: digits => some digits
      | _ => none
    !(whole.isEmpty && fraction.isEmpty) &&
      (rest.isEmpty || exponent.any fun digits => !digits.isEmpty && digits.all Char.isDigit)

/-- Whether characters are a field, with or without the value that it has to match. The value
stands between the first two equals signs; it is a number, or else a pattern. -/
def isField (chars : List Char) : Bool :=
  !chars.isEmpty &&
    match chars.dropWhile (· ≠ '=') with
    | [] => true
    | _ :: rest =>
      let value := rest.takeWhile (· ≠ '=')
      isNumber value || Pattern.isWritten value

/-- Whether a directive can begin with a character, apart from the bracket of a span. -/
def canBegin (c : Char) : Bool := ['-', ':', '_'].contains c || Text.isLetterOrDigit c

/-- The characters behind a number of bytes, if no character lies across the cut. -/
def dropBytes : (bytes : Nat) → List Char → Option (List Char)
  | 0, chars => some chars
  | _ + 1, [] => none
  | bytes + 1, c :: chars =>
    if c.utf8Size ≤ bytes + 1 then dropBytes (bytes + 1 - c.utf8Size) chars else none

/-- The characters in a number of bytes at the front, if no character lies across the cut. -/
def takeBytes : (bytes : Nat) → List Char → Option (List Char)
  | 0, _ => some []
  | _ + 1, [] => none
  | bytes + 1, c :: chars =>
    if c.utf8Size ≤ bytes + 1 then
      (takeBytes (bytes + 1 - c.utf8Size) chars).map (c :: ·)
    else none

/-- The characters from one place up to another one, both counted in bytes. -/
def cut (first last : Nat) (chars : List Char) : Option (List Char) :=
  match dropBytes first chars with
  | some rest => takeBytes (last - first) rest
  | none => none

/-! ## Reading -/

/-- What a directive is being read as, with the place where that part begins. -/
inductive Stage where
  | start
  | levelOrTarget
  | span (first : Nat)
  | field (first : Nat)
  /-- Behind the closing brace of the fields. -/
  | fieldsRead
  /-- Behind the closing bracket of the span. -/
  | spanRead
  | level (first : Nat)
  deriving DecidableEq, Repr

/-- The stage behind a character that stands at a place, in a directive that is given as
`given`. -/
def Stage.next? (given : List Char) (place : Nat) (c : Char) : Stage → Option Stage
  | start =>
    if c = '[' then some (span (place + 1))
    else if canBegin c then some levelOrTarget
    else none
  | levelOrTarget =>
    if c = '=' then (cut 0 place given).map fun _ => level (place + 1)
    else if c = '[' then (cut 0 place given).map fun _ => span (place + 1)
    else some levelOrTarget
  | span first =>
    if c = ']' then (cut first place given).map fun _ => spanRead
    else if c = '\x7b' then (cut first place given).map fun _ => field (place + 1)
    else some (span first)
  | field first =>
    if c = '\x7d' then
      match cut first place given with
      | some chars => if isField chars then some fieldsRead else none
      | none => none
    else some (field first)
  | fieldsRead => if c = ']' then some spanRead else none
  | spanRead => if c = '=' then some (level (place + 1)) else none
  | level first => some (level first)

/-- Whether a directive that is given as `given` can end in a stage. -/
def Stage.canEnd (given : List Char) : Stage → Bool
  | levelOrTarget | spanRead => true
  | level first => (dropBytes first given).any fun chars => chars.isEmpty || isLevel chars
  | start | span _ | field _ | fieldsRead => false

/-- Whether the characters from a place on lead a directive from a stage to an end. -/
def leadsToEnd (given : List Char) (stage : Stage) (place : Nat) : List Char → Bool
  | [] => stage.canEnd given
  | c :: chars =>
    match stage.next? given place c with
    | some stage => leadsToEnd given stage (place + c.utf8Size) chars
    | none => false

/-- Whether characters are a directive. -/
def isWellFormed (chars : List Char) : Bool :=
  leadsToEnd chars .start 0 (Text.trimChars chars)

end LogDirective

/-- Whether a filter can be read. What is empty between two commas is no directive. -/
def LogFilter.isWellFormed (text : String) : Bool :=
  ((text.splitOn ",").filter (· ≠ "")).all fun directive =>
    LogDirective.isWellFormed directive.toList

end IngestLedger
