import CoreAudit.Json.Value
import CoreAudit.Number.Numeral

/-!
# Reading JSON

A document is one value with white space around it. The names `NaN`, `Infinity` and `-Infinity`
are numbers, a name given twice in an object keeps its place and takes the later value, and the
first flaw is reported with its line, column and offset. Arrays and objects stand inside each other
up to a limit.

Models the reader behind `LogicPolicyTable.from_json`. An escaped half of a pair is kept as it is
(`Letter.half`); two escapes that make a pair are one character.

* **`Json.read`**: the value of a document, or why it is not read.
* `Json.Flaw.message`: the wording of a flaw.
-/

namespace CoreAudit.Json

/-- What is wrong with a document. -/
inductive Flaw where
  | byteOrderMark
  | noValue
  | noName
  | noColon
  | noComma
  | extraData
  | unterminatedString
  | controlCharacter
  | badEscape
  | badCodePoint
  deriving Repr, DecidableEq

/-- The values that hold others. -/
inductive Container where
  | array
  | object
  deriving Repr, DecidableEq

/-- Why a document is not read: a syntax flaw where `rest` characters were still unread, a whole
number with too many digits, or an array or object inside too many others. -/
inductive Failure where
  | flawed (flaw : Flaw) (rest : Nat)
  | numeralTooLong (digits : Nat)
  | tooDeep (container : Container)
  deriving Repr, DecidableEq

/-- Arrays and objects stand inside each other up to this many levels. -/
def maxLevels : Nat := 987

/-- The wording of a flaw. -/
def Flaw.message : Flaw → Text
  | byteOrderMark => "Unexpected UTF-8 BOM (decode using utf-8-sig)".toList
  | noValue => "Expecting value".toList
  | noName => "Expecting property name enclosed in double quotes".toList
  | noColon => "Expecting ':' delimiter".toList
  | noComma => "Expecting ',' delimiter".toList
  | extraData => "Extra data".toList
  | unterminatedString => "Unterminated string starting at".toList
  | controlCharacter => "Invalid control character at".toList
  | badEscape => "Invalid \\escape".toList
  | badCodePoint => "Invalid \\uXXXX escape".toList

/-- A flaw in front of the characters `rest`. -/
def flawAt {α : Type} (flaw : Flaw) (rest : Text) : Except Failure α :=
  .error (.flawed flaw rest.length)

/-- The text after the white space at its start. -/
def skip (t : Text) : Text :=
  t.dropWhile fun c => c == ' ' || c == '\t' || c == '\n' || c == '\r'

/-! ## Strings -/

/-- The value of a hexadecimal digit. -/
def hexValue? (c : Char) : Option Nat :=
  if c.isDigit then some (c.toNat - 48)
  else if 'a' ≤ c ∧ c ≤ 'f' then some (c.toNat - 87)
  else if 'A' ≤ c ∧ c ≤ 'F' then some (c.toNat - 55)
  else none

/-- The number of four hexadecimal digits. -/
def hexValue4? (a b c d : Char) : Option Nat := do
  some ((((← hexValue? a) * 16 + (← hexValue? b)) * 16 + (← hexValue? c)) * 16 + (← hexValue? d))

/-- The character of a one-letter escape. -/
def unescape? : Char → Option Char
  | '"' => some '"'
  | '\\' => some '\\'
  | '/' => some '/'
  | 'b' => some '\x08'
  | 'f' => some '\x0c'
  | 'n' => some '\n'
  | 'r' => some '\r'
  | 't' => some '\t'
  | _ => none

/-- The number is the first half of a pair that stands for one code point. -/
def isLeading (n : Nat) : Bool := decide (0xD800 ≤ n) && decide (n < 0xDC00)

/-- The number is the second half of such a pair. -/
def isTrailing (n : Nat) : Bool := decide (0xDC00 ≤ n) && decide (n < 0xE000)

/-- The second half of a pair, if the text starts with the escape of one and goes on after it. -/
def trailingHalf? (t : Text) : Except Failure (Option Nat) :=
  match t with
  | '\\' :: 'u' :: a :: b :: c :: d :: _ :: _ =>
    match hexValue4? a b c d with
    | none => flawAt .badCodePoint (t.drop 1)
    | some m => .ok (if isTrailing m then some m else none)
  | _ => .ok none

/-- The rest of a code point escape, which starts after its `u`: the letter and the characters
after it. At least one character must follow the four digits. -/
def readCodePoint (t : Text) : Except Failure (Letter × { r : Text // r.length < t.length }) :=
  match t with
  | a :: b :: c :: d :: e :: r =>
    match hexValue4? a b c d with
    | none => flawAt .badCodePoint ('u' :: t)
    | some n =>
      match if isLeading n then trailingHalf? (e :: r) else .ok none with
      | .error flaw => .error flaw
      | .ok none => .ok (Letter.ofNumber n, ⟨e :: r, by simp only [List.length_cons]; omega⟩)
      | .ok (some m) => .ok (.char (Char.ofNat (0x10000 + (n - 0xD800) * 1024 + (m - 0xDC00))),
          ⟨(e :: r).drop 6, by simp only [List.length_drop, List.length_cons]; omega⟩)
  | _ => flawAt .badCodePoint ('u' :: t)

/-- The rest of a string after its opening quote, of which `opening` characters were unread: the
string and the characters after its closing quote. -/
def readString (opening : Nat) (t : Text) : Except Failure (Letters × Text) :=
  match t with
  | [] => .error (.flawed .unterminatedString opening)
  | '"' :: r => .ok ([], r)
  | ['\\'] => .error (.flawed .unterminatedString opening)
  | '\\' :: 'u' :: r =>
    match readCodePoint r with
    | .error e => .error e
    | .ok (c, ⟨r', _⟩) => (readString opening r').map fun (s, rest) => (c :: s, rest)
  | '\\' :: c :: r =>
    match unescape? c with
    | none => flawAt .badEscape ('\\' :: c :: r)
    | some d => (readString opening r).map fun (s, rest) => (.char d :: s, rest)
  | c :: r =>
    if c.toNat < 0x20 then flawAt .controlCharacter (c :: r)
    else (readString opening r).map fun (s, rest) => (.char c :: s, rest)
  termination_by t.length
  decreasing_by all_goals simp only [List.length_cons]; omega

/-! ## Numbers -/

/-- The digits of a number's whole part and the characters after them. A zero stands alone. -/
def cutWhole : Text → Text × Text
  | '0' :: r => (['0'], r)
  | t => (t.takeWhile Char.isDigit, t.dropWhile Char.isDigit)

/-- The places after a point and the characters after them; a point without digits is left. -/
def cutPlaces : Text → Text × Text
  | '.' :: c :: r =>
    if c.isDigit then ((c :: r).takeWhile Char.isDigit, (c :: r).dropWhile Char.isDigit)
    else ([], '.' :: c :: r)
  | t => ([], t)

/-- An exponent and the characters after it; an exponent mark without digits is left. -/
def cutExponent (t : Text) : Option Int × Text :=
  match t with
  | c :: r =>
    if c = 'e' ∨ c = 'E' then
      let (negative, u) := Number.cutSign r
      let digits := u.takeWhile Char.isDigit
      let n : Int := Text.Digit.numeral digits
      if digits.isEmpty then (none, t)
      else (some (if negative then -n else n), u.dropWhile Char.isDigit)
    else (none, t)
  | [] => (none, t)

/-- A number and the characters after it. -/
def readNumber (t : Text) : Except Failure (Json × Text) :=
  let (negative, u) := match t with
    | '-' :: r => (true, r)
    | r => (false, r)
  let (whole, r) := cutWhole u
  let (places, r) := cutPlaces r
  let (exponent, r) := cutExponent r
  if whole.isEmpty then flawAt .noValue t
  else if places.isEmpty && exponent.isNone then
    match Number.natural? whole with
    | .error n => .error (.numeralTooLong n)
    | .ok n => .ok (int (if negative then -(n : Int) else n), r)
  else
    let x := Number.ofDecimal (Text.Digit.numeral (whole ++ places))
      (exponent.getD 0 - (places.length : Int))
    .ok (float (if negative then -x else x), r)

/-! ## Values -/

/-- The values that are written as a name, with their names. -/
def names : List (Text × Json) :=
  [("null".toList, null), ("true".toList, bool true), ("false".toList, bool false),
   ("NaN".toList, float (0.0 / 0.0)), ("Infinity".toList, float (1.0 / 0.0)),
   ("-Infinity".toList, float (-1.0 / 0.0))]

/-- A name or a number, and the characters after it. -/
def readScalar (t : Text) : Except Failure (Json × Text) :=
  match names.find? fun n => n.1.isPrefixOf t with
  | some (name, j) => .ok (j, t.drop name.length)
  | none => readNumber t

mutual

/-- A value and the characters after it. The first argument bounds the calls; a text of `n`
characters needs at most `2 * n + 1`. The second is the number of levels that may still be
opened. -/
def readValue : Nat → Nat → Text → Except Failure (Json × Text)
  | 0, _, t => flawAt .noValue t
  | fuel + 1, levels, t =>
    match t with
    | '"' :: r => (readString t.length r).map fun (s, rest) => (string s, rest)
    | '\x7b' :: r =>
      if levels = 0 then .error (.tooDeep .object)
      else
        match skip r with
        | '\x7d' :: rest => .ok (object [], rest)
        | r => readMembers fuel (levels - 1) [] r
    | '[' :: r =>
      if levels = 0 then .error (.tooDeep .array)
      else
        match skip r with
        | ']' :: rest => .ok (array [], rest)
        | r => readItems fuel (levels - 1) [] r
    | t => readScalar t

/-- The members of an object from a name on, after the members already read. -/
def readMembers : Nat → Nat → Keyed Letters Json → Text → Except Failure (Json × Text)
  | 0, _, _, t => flawAt .noName t
  | fuel + 1, levels, before, t =>
    match t with
    | '"' :: r => do
      let (name, r) ← readString t.length r
      match skip r with
      | ':' :: r =>
        let (value, r) ← readValue fuel levels (skip r)
        let members := before.put name value
        match skip r with
        | '\x7d' :: rest => .ok (object members, rest)
        | ',' :: r => readMembers fuel levels members (skip r)
        | r => flawAt .noComma r
      | r => flawAt .noColon r
    | t => flawAt .noName t

/-- The items of an array from a value on, after the items already read, the last one first. -/
def readItems : Nat → Nat → List Json → Text → Except Failure (Json × Text)
  | 0, _, _, t => flawAt .noValue t
  | fuel + 1, levels, before, t => do
    let (item, r) ← readValue fuel levels t
    match skip r with
    | ']' :: rest => .ok (array (item :: before).reverse, rest)
    | ',' :: r => readItems fuel levels (item :: before) (skip r)
    | r => flawAt .noComma r

end

/-- The value of a document, or why it is not read. -/
def read (t : Text) : Except Failure Json :=
  match t with
  | '\uFEFF' :: _ => flawAt .byteOrderMark t
  | t => do
    let (value, r) ← readValue (2 * t.length + 1) maxLevels (skip t)
    match skip r with
    | [] => .ok value
    | r => flawAt .extraData r

/-- The wording of a flaw of the document `t`: what is wrong, and the line, column and offset
where `rest` characters are left. -/
def describe (flaw : Flaw) (t : Text) (rest : Nat) : Text :=
  let before := t.take (t.length - rest)
  let line := before.count '\n' + 1
  let column := (before.reverse.takeWhile (· != '\n')).length + 1
  flaw.message ++ ": line ".toList ++ Text.ofNat line ++ " column ".toList ++ Text.ofNat column
    ++ " (char ".toList ++ Text.ofNat before.length ++ [')']

end CoreAudit.Json
