import IngestLedger.Logging.Pattern
import IngestLedger.Text.Blank
import IngestLedger.Text.HexDigits
import IngestLedger.Text.Letters

/-!
# Reading patterns

A pattern is read from the front, part by part; each reader answers with what it has read and the
characters after it. A field of a log filter cannot hold a closing brace, so what is written with
braces (counted repetitions, classes and characters by number in braces) is refused. When blanks
are ignored, they and comments are passed over between the parts.

Each reader takes a character or more before it calls another one, so the number of characters
bounds the calls.

Main definition:

* `Pattern.read?`: the pattern that characters write.
-/

namespace IngestLedger

namespace Pattern

/-- The characters behind a comment or blanks at the front; `inComment` tells that the front is
part of a comment, which ends with its line. -/
def skipBlanks (inComment : Bool) : List Char → List Char
  | [] => []
  | c :: rest =>
    if inComment then skipBlanks (c ≠ '\n') rest
    else if Text.isBlank c then skipBlanks false rest
    else if c = '#' then skipBlanks true rest
    else c :: rest

/-- The characters from the next part on. -/
def skip (ignoresBlanks : Bool) (chars : List Char) : List Char :=
  if ignoresBlanks then skipBlanks false chars else chars

/-! ## Escapes -/

/-- The number that a count of hexadecimal digits writes behind the number `n`. -/
def readHex (ignoresBlanks : Bool) (n : Nat) : (count : Nat) → List Char → Option (Nat × List Char)
  | 0, chars => some (n, chars)
  | count + 1, chars =>
    match skip ignoresBlanks chars with
    | [] => none
    | digit :: rest =>
      match Text.hexValue? digit with
      | some value => readHex ignoresBlanks (16 * n + value) count rest
      | none => none

/-- A character by its number in hexadecimal digits. -/
def readNumbered (ignoresBlanks isByte : Bool) (count : Nat) (chars : List Char) :
    Option (Pattern × List Char) :=
  match readHex ignoresBlanks 0 count chars with
  | some (n, rest) => if n.isValidChar then some (.char (Char.ofNat n) isByte, rest) else none
  | none => none

/-- The control characters that have a letter. -/
def controls : List (Char × Char) :=
  [('a', '\x07'), ('f', '\x0c'), ('t', '\t'), ('n', '\n'), ('r', '\r'), ('v', '\x0b')]

/-- What a backslash and the characters behind it write. Only signs of ASCII stand for themselves
behind a backslash; classes by property are not known. -/
def readEscape (ignoresBlanks : Bool) : List Char → Option (Pattern × List Char)
  | [] => none
  | c :: rest =>
    if c = 'x' then readNumbered ignoresBlanks true 2 rest
    else if c = 'u' then readNumbered ignoresBlanks false 4 rest
    else if c = 'U' then readNumbered ignoresBlanks false 8 rest
    else if ['d', 's', 'w'].contains c then some (.lettered false, rest)
    else if ['D', 'S', 'W'].contains c then some (.lettered true, rest)
    else if ['A', 'z'].contains c then some (.edge, rest)
    else if ['b', 'B', '<', '>'].contains c then some (.wordEdge, rest)
    else
      match controls.lookup c with
      | some control => some (.char control false, rest)
      | none => if c.toNat < 0x80 && !c.isAlphanum then some (.char c false, rest) else none

/-! ## Sets of characters -/

/-- The names of the ASCII classes. -/
def classNames : List String :=
  ["alnum", "alpha", "ascii", "blank", "cntrl", "digit", "graph", "lower", "print", "punct",
    "space", "upper", "word", "xdigit"]

/-- An ASCII class behind its opening bracket, and whether it is negated. -/
def readClassName? : List Char → Option (Bool × List Char)
  | ':' :: chars =>
    let (negated, chars) := match chars with
      | '^' :: chars => (true, chars)
      | chars => (false, chars)
    match chars.span (· ≠ ':') with
    | (name, ':' :: ']' :: rest) =>
      if classNames.contains (String.ofList name) then some (negated, rest) else none
    | _ => none
  | _ => none

/-- A character of a set, or a class by its letter. -/
def readMember (ignoresBlanks : Bool) : List Char → Option (CharacterSet × List Char)
  | [] => none
  | '\\' :: rest =>
    match readEscape ignoresBlanks rest with
    | some (.char c _, rest) => some (.char c, rest)
    | some (.lettered negated, rest) => some (.lettered negated, rest)
    | _ => none
  | c :: rest => some (.char c, rest)

/-- The character that is looked at behind a hyphen. Of a comment there, the first character that
is no blank is looked at. -/
def behindHyphen? (ignoresBlanks : Bool) (chars : List Char) : Option Char :=
  if ignoresBlanks then
    match chars.dropWhile Text.isBlank with
    | [] => chars.head?
    | '#' :: comment => (comment.dropWhile Text.isBlank).head?.or chars.head?
    | c :: _ => some c
  else chars.head?

/-- A member of a set, or a range from one character to another. -/
def readMemberOrRange (ignoresBlanks : Bool) (chars : List Char) :
    Option (CharacterSet × List Char) :=
  match readMember ignoresBlanks chars with
  | none => none
  | some (first, rest) =>
    match skip ignoresBlanks rest with
    | '-' :: behind =>
      let next := behindHyphen? ignoresBlanks behind
      if next = some ']' || next = some '-' then some (first, '-' :: behind)
      else
        match first, readMember ignoresBlanks (skip ignoresBlanks behind) with
        | .char first, some (.char last, rest) =>
          if first ≤ last then some (.range first last, rest) else none
        | _, _ => none
    | rest => some (first, rest)

/-- The set of the parts that have been read, the latest first. -/
def unionOf : List CharacterSet → CharacterSet
  | [] => .nothing
  | [part] => part
  | parts => .union parts.reverse

/-- The set of the parts that have been read behind an operation on another set. -/
def operationOf (left : Option CharacterSet) (parts : List CharacterSet) : CharacterSet :=
  match left with
  | none => unionOf parts
  | some left => .operation left (unionOf parts)

/-- Whether a set is negated, and the characters from its first part on. -/
def readNegation (ignoresBlanks : Bool) (chars : List Char) : Bool × List Char :=
  match skip ignoresBlanks chars with
  | '^' :: rest => (true, rest)
  | rest => (false, rest)

/-- The rest of a set up to its closing bracket, behind the parts that have been read and the set
that an operation is done on. While the set is `opening`, hyphens stand for themselves, and so does
a closing bracket that is the first character. -/
def readSet (ignoresBlanks : Bool) : (fuel : Nat) → (opening : Bool) →
    (left : Option CharacterSet) → (parts : List CharacterSet) → List Char →
    Option (CharacterSet × List Char)
  | 0, _, _, _, _ => none
  | fuel + 1, opening, left, parts, chars =>
    match skip ignoresBlanks chars with
    | [] => none
    | c :: rest =>
      if opening && c = '-' then readSet ignoresBlanks fuel true left (.char '-' :: parts) rest
      else if opening && parts.isEmpty && c = ']' then
        readSet ignoresBlanks fuel false left [.char ']'] rest
      else if c = ']' then some (operationOf left parts, rest)
      else if c = '[' then
        match readClassName? rest with
        | some (negated, rest) =>
          readSet ignoresBlanks fuel false left (.named negated :: parts) rest
        | none =>
          let (negated, rest) := readNegation ignoresBlanks rest
          match readSet ignoresBlanks fuel true none [] rest with
          | none => none
          | some (inside, rest) =>
            readSet ignoresBlanks fuel false left (.bracketed negated inside :: parts) rest
      else if ['&', '-', '~'].contains c && rest.head? = some c then
        readSet ignoresBlanks fuel false (some (operationOf left parts)) [] rest.tail
      else
        match readMemberOrRange ignoresBlanks (c :: rest) with
        | none => none
        | some (part, rest) => readSet ignoresBlanks fuel false left (part :: parts) rest

/-! ## Groups -/

/-- A flag by its letter, or the sign of negation. -/
def flagSign? (c : Char) : Option FlagSign :=
  match c with
  | 'i' => some (.flag .ignoreCase)
  | 'm' => some (.flag .manyLines)
  | 's' => some (.flag .anyIncludesLineEnds)
  | 'U' => some (.flag .swapGreed)
  | 'u' => some (.flag .unicode)
  | 'R' => some (.flag .carriageReturns)
  | 'x' => some (.flag .ignoreBlanks)
  | '-' => some .negation
  | _ => none

/-- Signs behind those that have been read, the latest first, up to a colon or the closing
bracket: the signs, and whether a colon ends them. No sign stands twice, and negation is not the
last. -/
def readFlags (signs : List FlagSign) : List Char → Option (List FlagSign × Bool × List Char)
  | [] => none
  | c :: rest =>
    if c = ':' || c = ')' then
      if signs.head? = some .negation then none else some (signs.reverse, c = ':', rest)
    else
      match flagSign? c with
      | none => none
      | some sign => if signs.contains sign then none else readFlags (sign :: signs) rest

/-- Whether characters are the name of a group: a letter or `_`, and then letters, digits and some
signs. -/
def isGroupName : List Char → Bool
  | [] => false
  | first :: others =>
    (first = '_' || Text.isLetter first) &&
      others.all fun c => ['_', '.', '[', ']'].contains c || Text.isLetterOrDigit c

/-- The front of a group, or flags for what follows. -/
inductive Opening where
  | flags (signs : List FlagSign)
  | group (signs : List FlagSign)

/-- What stands behind an opening bracket, and the names of groups that are taken then. No two
groups have one name. -/
def readOpening (ignoresBlanks : Bool) (names : List (List Char)) (chars : List Char) :
    Option (Opening × List (List Char) × List Char) :=
  let named (chars : List Char) : Option (Opening × List (List Char) × List Char) :=
    match chars.span (· ≠ '>') with
    | (name, '>' :: rest) =>
      if isGroupName name && !names.contains name then some (.group [], name :: names, rest)
      else none
    | _ => none
  match skip ignoresBlanks chars with
  | '?' :: 'P' :: '<' :: rest => named rest
  | '?' :: '<' :: rest => named rest
  | '?' :: rest =>
    match readFlags [] rest with
    | none => none
    | some (signs, true, rest) => some (.group signs, names, rest)
    | some (signs, false, rest) =>
      if signs.isEmpty then none else some (.flags signs, names, rest)
  | rest => some (.group [], names, rest)

/-! ## Whole patterns -/

/-- The pattern of the parts that have been read, the latest first. -/
def sequenceOf : List Pattern → Pattern
  | [] => .nothing
  | [part] => part
  | parts => .sequence parts.reverse

/-- The pattern of the branches and the parts of the last one that have been read, the latest
first. -/
def choiceOf (branches parts : List Pattern) : Pattern :=
  match branches with
  | [] => sequenceOf parts
  | branches => .choice (sequenceOf parts :: branches).reverse

/-- The parts with the latest one repeated. Flags cannot be repeated. -/
def repeatLatest? : List Pattern → Option (List Pattern)
  | [] | .flags _ :: _ => none
  | part :: parts => some (.repeated part :: parts)

/-- A part that is no group, set or repetition. -/
def readPart (ignoresBlanks : Bool) : List Char → Option (Pattern × List Char)
  | [] => none
  | '\\' :: rest => readEscape ignoresBlanks rest
  | '.' :: rest => some (.anyChar, rest)
  | '^' :: rest => some (.edge, rest)
  | '$' :: rest => some (.edge, rest)
  | c :: rest => some (.char c false, rest)

/-- The rest of a pattern up to a closing bracket or the end, behind the branches and the parts
that have been read: the pattern, the names that are taken then, and the characters from the
closing bracket on. -/
def readBranches : (fuel : Nat) → (ignoresBlanks : Bool) → (names : List (List Char)) →
    (branches parts : List Pattern) → List Char →
    Option (Pattern × List (List Char) × List Char)
  | 0, _, _, _, _, _ => none
  | fuel + 1, ignoresBlanks, names, branches, parts, chars =>
    match skip ignoresBlanks chars with
    | [] => some (choiceOf branches parts, names, [])
    | c :: rest =>
      if c = ')' then some (choiceOf branches parts, names, c :: rest)
      else if c = '|' then
        readBranches fuel ignoresBlanks names (sequenceOf parts :: branches) [] rest
      else if c = '(' then
        match readOpening ignoresBlanks names rest with
        | none => none
        | some (.flags signs, names, rest) =>
          let ignoresBlanks := (FlagSign.setting .ignoreBlanks signs).getD ignoresBlanks
          readBranches fuel ignoresBlanks names branches (.flags signs :: parts) rest
        | some (.group signs, names, rest) =>
          let inside := (FlagSign.setting .ignoreBlanks signs).getD ignoresBlanks
          match readBranches fuel inside names [] [] rest with
          | some (part, names, ')' :: rest) =>
            readBranches fuel ignoresBlanks names branches (.group signs part :: parts) rest
          | _ => none
      else if c = '[' then
        let (negated, rest) := readNegation ignoresBlanks rest
        match readSet ignoresBlanks (rest.length + 1) true none [] rest with
        | none => none
        | some (inside, rest) =>
          readBranches fuel ignoresBlanks names branches (.set negated inside :: parts) rest
      else if ['?', '*', '+'].contains c then
        match repeatLatest? parts with
        | none => none
        | some parts =>
          let rest := if rest.head? = some '?' then rest.tail else rest
          readBranches fuel ignoresBlanks names branches parts rest
      else if c = '\x7b' then none
      else
        match readPart ignoresBlanks (c :: rest) with
        | none => none
        | some (part, rest) =>
          readBranches fuel ignoresBlanks names branches (part :: parts) rest

/-- The pattern that characters write. -/
def read? (chars : List Char) : Option Pattern :=
  match readBranches (chars.length + 1) false [] [] [] chars with
  | some (pattern, _, []) => some pattern
  | _ => none

/-- Whether characters write a pattern that has a meaning. -/
def isWritten (chars : List Char) : Bool := (read? chars).any hasMeaning

end Pattern

end IngestLedger
