import LoaderLint.Decimal.Nearest
import LoaderLint.Decimal.Shortest
import LoaderLint.Severity
import LoaderLint.Text.Digits
import LoaderLint.Text.Quoted

/-!
# Reading JSON

Readers of JSON texts. A reader goes through the text once and stops at the first thing that is
wrong, whether it is no JSON or a value of another type than expected.

The module introduces:

* `Json.Fault` — what can be wrong;
* `Json.Reader` — readers, with `peek`, `skip` and `expectIdent` as their building blocks;
* `Reader.text`, `Reader.size`, `Reader.list` — strings, whole numbers and lists;
* `Reader.ignoreValue` — any value, passed over.

## References

* The specification of amd-lint, §12.5, output formats: the JSON that reports are read back from.
-/

namespace LoaderLint.Json

/-- A number as it is read. -/
inductive Number where
  /-- A whole number below two to the power of 64. -/
  | natural (n : Nat)
  /-- A whole number below zero, and not below minus two to the power of 63. -/
  | negative (n : Int)
  /-- Any other number, by the bits of the nearest binary one. -/
  | floating (bits : UInt64)
deriving DecidableEq, Repr, Inhabited

/-- A value of a type that was not expected. -/
inductive Found where
  /-- The word `null`. -/
  | null
  /-- A truth value. -/
  | boolean (b : Bool)
  /-- A number. -/
  | number (n : Number)
  /-- A string. -/
  | string (text : String)
  /-- A list. -/
  | list
  /-- Fields with their names. -/
  | fields
deriving DecidableEq, Repr, Inhabited

namespace Found

/-- What is said of the value. -/
def describe : Found → String
  | null => "null"
  | boolean b => "boolean `" ++ toString b ++ "`"
  | number (.natural n) => "integer `" ++ toString n ++ "`"
  | number (.negative n) => "integer `" ++ toString n ++ "`"
  | number (.floating bits) =>
    "floating point `" ++ (Binary64.ofBits bits).generalText (-5) ++ "`"
  | string text => "string " ++ Text.quoted text
  | list => "sequence"
  | fields => "map"

end Found

/-- What is wrong with a JSON text. -/
inductive Fault where
  /-- The text ends inside a list. -/
  | listEnds
  /-- The text ends among fields. -/
  | fieldsEnd
  /-- The text ends inside a string. -/
  | stringEnds
  /-- The text ends where a value is expected, or inside one. -/
  | valueEnds
  /-- A field has no colon. -/
  | noColon
  /-- Neither a comma nor the end of a list follows an item. -/
  | noListEnd
  /-- Neither a comma nor the end of the fields follows a field. -/
  | noFieldsEnd
  /-- A word is not one of those that JSON knows. -/
  | noIdent
  /-- There is no value where one is expected. -/
  | noValue
  /-- A backslash in a string escapes nothing. -/
  | badEscape
  /-- A number is spelled wrong. -/
  | badNumber
  /-- A number is too large. -/
  | numberRange
  /-- A string holds a control character. -/
  | controlCharacter
  /-- The name of a field is no string. -/
  | nameType
  /-- The first half of a surrogate pair is not followed by an escape. -/
  | halfPair
  /-- Half of a surrogate pair stands alone. -/
  | lonelyHalf
  /-- A comma has nothing behind it. -/
  | trailingComma
  /-- There is more behind the end. -/
  | trailingText
  /-- A value has another type than expected. -/
  | mismatch (found : Found) (expected : String)
  /-- A whole number is below zero. -/
  | belowZero (n : Int) (expected : String)
  /-- A word names no severity. -/
  | severityWord (word : String)
  /-- A field is missing. -/
  | missing (name : String)
  /-- A field is given twice. -/
  | duplicate (name : String)
  /-- A list that stands for fields is too short. -/
  | tooShort (length : Nat) (expected : String)
deriving DecidableEq, Repr, Inhabited

namespace Fault

/-- What is wrong. -/
def message : Fault → String
  | listEnds => "EOF while parsing a list"
  | fieldsEnd => "EOF while parsing an object"
  | stringEnds => "EOF while parsing a string"
  | valueEnds => "EOF while parsing a value"
  | noColon => "expected `:`"
  | noListEnd => "expected `,` or `]`"
  | noFieldsEnd => "expected `,` or `\x7d`"
  | noIdent => "expected ident"
  | noValue => "expected value"
  | badEscape => "invalid escape"
  | badNumber => "invalid number"
  | numberRange => "number out of range"
  | controlCharacter => "control character (\\u0000-\\u001F) found while parsing a string"
  | nameType => "key must be a string"
  | halfPair => "unexpected end of hex escape"
  | lonelyHalf => "lone leading surrogate in hex escape"
  | trailingComma => "trailing comma"
  | trailingText => "trailing characters"
  | mismatch found expected => "invalid type: " ++ found.describe ++ ", expected " ++ expected
  | belowZero n expected =>
    "invalid value: integer `" ++ toString n ++ "`, expected " ++ expected
  | severityWord word => Severity.unknownMessage word
  | missing name => "missing field `" ++ name ++ "`"
  | duplicate name => "duplicate field `" ++ name ++ "`"
  | tooShort length expected =>
    "invalid length " ++ toString length ++ ", expected " ++ expected

end Fault

/-- A reader of the text ahead. -/
abbrev Reader (α : Type) := StateT (List Char) (Except Fault) α

namespace Reader

/-- A reader that finds something wrong. -/
def fail {α : Type} (f : Fault) : Reader α := fun _ => .error f

/-- A blank between values. -/
def isBlank (c : Char) : Bool := c = ' ' || c = '\n' || c = '\t' || c = '\r'

/-- The next character behind blanks, which are left behind. -/
def peek : Reader (Option Char) := fun cs =>
  let ahead := cs.dropWhile isBlank
  .ok (ahead.head?, ahead)

/-- Leaves the next character behind. -/
def skip : Reader Unit := fun cs => .ok ((), cs.tail)

/-- The number that four digits spell. -/
def fourDigits? (a b c d : Char) : Option Nat := Text.digitsValue? 16 [a, b, c, d]

/-- Whether a number is the first half of a surrogate pair. -/
def isFirstHalf (n : Nat) : Bool := 0xd800 ≤ n && n ≤ 0xdbff

/-- Whether a number is the second half of a surrogate pair. -/
def isSecondHalf (n : Nat) : Bool := 0xdc00 ≤ n && n ≤ 0xdfff

/-- The character that a surrogate pair stands for. -/
def pairValue (first second : Nat) : Char :=
  Char.ofNat ((first - 0xd800) * 0x400 + (second - 0xdc00) + 0x10000)

/-- The character that a letter behind a backslash stands for. -/
def shortEscape? : Char → Option Char
  | '"' => some '"'
  | '\\' => some '\\'
  | '/' => some '/'
  | 'b' => some '\x08'
  | 'f' => some '\x0c'
  | 'n' => some '\n'
  | 'r' => some '\r'
  | 't' => some '\t'
  | _ => none

/-- The number of bytes of a text. -/
def byteCount (cs : List Char) : Nat := cs.foldl (fun n c => n + c.utf8Size) 0

/-- What is wrong where less than the two escapes of a surrogate pair is ahead of the second
one. -/
def pairFault : List Char → Fault
  | '\\' :: 'u' :: digits => if byteCount digits < 4 then .stringEnds else .badEscape
  | ['\\'] | [] => .stringEnds
  | _ => .halfPair

/-- The characters of a string up to its closing quote, and the text behind it. Halves of surrogate
pairs are wrong where `strict` says so. -/
def stringRest (strict : Bool) : List Char → Except Fault (List Char × List Char)
  | [] => .error .stringEnds
  | '"' :: rest => .ok ([], rest)
  | '\\' :: 'u' :: a :: b :: c :: d :: rest =>
    match fourDigits? a b c d with
    | none => .error .badEscape
    | some n =>
      if strict && isSecondHalf n then .error .lonelyHalf
      else if strict && isFirstHalf n then
        match rest with
        | '\\' :: 'u' :: e :: f :: g :: h :: rest =>
          match fourDigits? e f g h with
          | none => .error .badEscape
          | some m =>
            if isSecondHalf m then do
              let (cs, behind) ← stringRest strict rest
              return (pairValue n m :: cs, behind)
            else .error .lonelyHalf
        | rest => .error (pairFault rest)
      else do
        let (cs, behind) ← stringRest strict rest
        return (Char.ofNat n :: cs, behind)
  | '\\' :: 'u' :: rest => .error (if byteCount rest < 4 then .stringEnds else .badEscape)
  | '\\' :: c :: rest =>
    match shortEscape? c with
    | some e => do
      let (cs, behind) ← stringRest strict rest
      return (e :: cs, behind)
    | none => .error .badEscape
  | ['\\'] => .error .stringEnds
  | c :: rest =>
    if c < ' ' then .error .controlCharacter
    else do
      let (cs, behind) ← stringRest strict rest
      return (c :: cs, behind)

/-- The rest of a string behind its opening quote. -/
def stringBody (strict : Bool) : Reader String := fun cs =>
  (stringRest strict cs).map fun (body, behind) => (String.ofList body, behind)

/-- What is wrong with a number that stops before the text. -/
def numberFault (strict : Bool) (ahead : List Char) : Fault :=
  if strict ∧ ahead = [] then .valueEnds else .badNumber

/-- The digits before the point of a number: a zero alone, or digits that start with another
one. -/
def wholeDigits (strict : Bool) : List Char → Except Fault (List Char × List Char)
  | '0' :: rest => if rest.head?.any Char.isDigit then .error .badNumber else .ok (['0'], rest)
  | c :: rest =>
    if c.isDigit then .ok ((c :: rest).takeWhile Char.isDigit, (c :: rest).dropWhile Char.isDigit)
    else .error .badNumber
  | [] => .error (numberFault strict [])

/-- At least one digit. -/
def someDigits (strict : Bool) (cs : List Char) : Except Fault (List Char × List Char) :=
  let digits := cs.takeWhile Char.isDigit
  let ahead := cs.dropWhile Char.isDigit
  if digits = [] then .error (numberFault strict ahead) else .ok (digits, ahead)

/-- The digits behind the point of a number. -/
def fractionDigits (strict : Bool) : List Char → Except Fault (Option (List Char) × List Char)
  | '.' :: rest => (someDigits strict rest).map fun (digits, ahead) => (some digits, ahead)
  | cs => .ok (none, cs)

/-- The sign of an exponent. -/
def exponentSign : List Char → Bool × List Char
  | '-' :: rest => (true, rest)
  | '+' :: rest => (false, rest)
  | cs => (false, cs)

/-- The power of ten of a number. -/
def exponent (strict : Bool) (cs : List Char) : Except Fault (Option Int × List Char) :=
  match cs with
  | c :: rest =>
    if c = 'e' ∨ c = 'E' then
      let (negative, body) := exponentSign rest
      (someDigits strict body).map fun (digits, ahead) =>
        let n : Int := (Text.digitsValue? 10 digits).getD 0
        (some (if negative then -n else n), ahead)
    else .ok (none, cs)
  | [] => .ok (none, [])

/-- The bits of a number that is no whole one, if it is not too large. -/
def floating (strict negative : Bool) (digits : Nat) (power : Int) : Except Fault Number :=
  let bits := nearestBits negative digits power
  if strict ∧ bits = infiniteBits negative then .error .numberRange else .ok (.floating bits)

/-- A whole number: kept as it is if it fits, and otherwise by its nearest binary number. -/
def wholeNumber (strict negative : Bool) (n : Nat) : Except Fault Number :=
  if negative then
    if 0 < n ∧ n ≤ 0x8000000000000000 then .ok (.negative (-n)) else floating strict negative n 0
  else if n < 0x10000000000000000 then .ok (.natural n)
  else floating strict negative n 0

/-- A number behind its sign. -/
def number (strict negative : Bool) : Reader Number := fun cs => do
  let (whole, ahead) ← wholeDigits strict cs
  let (fraction, ahead) ← fractionDigits strict ahead
  let (power, ahead) ← exponent strict ahead
  let behind := fraction.getD []
  let digits := (Text.digitsValue? 10 (whole ++ behind)).getD 0
  let n ← match fraction, power with
    | none, none => wholeNumber strict negative digits
    | _, _ => floating strict negative digits (power.getD 0 - behind.length)
  return (n, ahead)

/-- The rest of a word. -/
def expectIdent : List Char → Reader Unit
  | [] => pure ()
  | c :: word => fun cs =>
    match cs with
    | [] => .error .valueEnds
    | d :: rest => if c = d then expectIdent word rest else .error .noIdent

/-- What is wrong with a value that starts with the character, where another type is expected. -/
def mismatch {α : Type} (next : Char) (expected : String) : Reader α := do
  if next = 'n' then
    expectIdent "null".toList
    fail (.mismatch .null expected)
  else if next = 't' then
    expectIdent "true".toList
    fail (.mismatch (.boolean true) expected)
  else if next = 'f' then
    expectIdent "false".toList
    fail (.mismatch (.boolean false) expected)
  else if next = '-' then
    skip
    let n ← number true true
    fail (.mismatch (.number n) expected)
  else if next.isDigit then
    let n ← number true false
    fail (.mismatch (.number n) expected)
  else if next = '"' then
    skip
    let body ← stringBody true
    fail (.mismatch (.string body) expected)
  else if next = '[' then fail (.mismatch .list expected)
  else if next = '\x7b' then fail (.mismatch .fields expected)
  else fail .noValue

/-- A string. -/
def text (expected : String) : Reader String := do
  match ← peek with
  | none => fail .valueEnds
  | some c =>
    if c = '"' then
      skip
      stringBody true
    else mismatch c expected

/-- The whole number that a number is, if it is not below zero. -/
def sizeOf : Number → Reader Nat
  | .natural n => pure n
  | .negative n => fail (.belowZero n "usize")
  | .floating bits => fail (.mismatch (.number (.floating bits)) "usize")

/-- A whole number that is not below zero. -/
def size : Reader Nat := do
  match ← peek with
  | none => fail .valueEnds
  | some c =>
    if c = '-' then
      skip
      sizeOf (← number true true)
    else if c.isDigit then sizeOf (← number true false)
    else mismatch c "usize"

/-- The word `null`. -/
def null (expected : String) : Reader Unit := do
  match ← peek with
  | none => fail .valueEnds
  | some c => if c = 'n' then expectIdent "null".toList else mismatch c expected

/-- A value, or the word `null` for none. -/
def optional {α : Type} (value : Reader α) : Reader (Option α) := do
  match ← peek with
  | some 'n' =>
    expectIdent "null".toList
    return none
  | _ => return some (← value)

/-- Whether another item of a list is ahead, where `first` tells that none came before. -/
def anotherItem (first : Bool) : Reader Bool := do
  match ← peek with
  | none => fail .listEnds
  | some c =>
    if c = ']' then return false
    else if first then return true
    else if c = ',' then
      skip
      match ← peek with
      | none => fail .valueEnds
      | some d => if d = ']' then fail .trailingComma else return true
    else fail .noListEnd

/-- The end of a list. -/
def listEnd : Reader Unit := do
  match ← peek with
  | none => fail .listEnds
  | some c =>
    if c = ']' then skip
    else if c = ',' then
      skip
      match ← peek with
      | some ']' => fail .trailingComma
      | _ => fail .trailingText
    else fail .trailingText

/-- At most `limit` items of a list. -/
def items {α : Type} (item : Reader α) : Nat → Bool → Reader (List α)
  | 0, _ => return []
  | limit + 1, first => do
    if ← anotherItem first then
      let a ← item
      let rest ← items item limit false
      return a :: rest
    else return []

/-- A list. -/
def list {α : Type} (item : Reader α) : Reader (List α) := do
  match ← peek with
  | none => fail .valueEnds
  | some c =>
    if c = '[' then
      skip
      let all ← items item (← get).length true
      listEnd
      return all
    else mismatch c "a sequence"

/-- Whether another field is ahead, where `first` tells that none came before. -/
def anotherField (first : Bool) : Reader Bool := do
  match ← peek with
  | none => fail .fieldsEnd
  | some c =>
    if c = '\x7d' then return false
    else if first then
      if c = '"' then return true else fail .nameType
    else if c = ',' then
      skip
      match ← peek with
      | none => fail .valueEnds
      | some d =>
        if d = '"' then return true
        else if d = '\x7d' then fail .trailingComma
        else fail .nameType
    else fail .noFieldsEnd

/-- The end of the fields. -/
def fieldsEnd : Reader Unit := do
  match ← peek with
  | none => fail .fieldsEnd
  | some c =>
    if c = '\x7d' then skip
    else if c = ',' then fail .trailingComma
    else fail .trailingText

/-- The colon behind the name of a field. -/
def colon : Reader Unit := do
  match ← peek with
  | none => fail .fieldsEnd
  | some c => if c = ':' then skip else fail .noColon

/-- A value that is passed over, with what is ahead of it: a value, or the items of a list or the
fields that follow the first ones. -/
inductive Ignored where
  /-- A value. -/
  | value
  /-- The items of a list, of which some may have come before. -/
  | items (first : Bool)
  /-- Fields, of which some may have come before. -/
  | fields (first : Bool)
deriving DecidableEq, Repr, Inhabited

/-- Passes over what is ahead, in at most `limit` steps. -/
def ignore : Nat → Ignored → Reader Unit
  | 0, _ => pure ()
  | limit + 1, .value => do
    match ← peek with
    | none => fail .valueEnds
    | some c =>
      if c = 'n' then expectIdent "null".toList
      else if c = 't' then expectIdent "true".toList
      else if c = 'f' then expectIdent "false".toList
      else if c = '-' then
        skip
        let _ ← number false true
      else if c.isDigit then
        let _ ← number false false
      else if c = '"' then
        skip
        let _ ← stringBody false
      else if c = '[' then
        skip
        ignore limit (.items true)
      else if c = '\x7b' then
        skip
        ignore limit (.fields true)
      else fail .noValue
  | limit + 1, .items first => do
    match ← peek with
    | none => fail .listEnds
    | some c =>
      if c = ']' then skip
      else if first ∨ c = ',' then
        if !first then skip
        ignore limit .value
        ignore limit (.items false)
      else fail .noListEnd
  | limit + 1, .fields first => do
    match ← peek with
    | none => fail .fieldsEnd
    | some c =>
      if c = '\x7d' then skip
      else if first ∨ c = ',' then
        if !first then skip
        match ← peek with
        | none => fail .fieldsEnd
        | some d =>
          if d = '"' then
            skip
            let _ ← stringBody false
            colon
            ignore limit .value
            ignore limit (.fields false)
          else fail .nameType
      else fail .noFieldsEnd

/-- Passes over a value. -/
def ignoreValue : Reader Unit := do
  ignore (2 * (← get).length + 1) .value

/-- Reads the whole text. -/
def readAll {α : Type} (value : Reader α) (source : String) : Except Fault α := do
  let (a, rest) ← value source.toList
  match rest.dropWhile isBlank with
  | [] => return a
  | _ => .error .trailingText

end Reader

end LoaderLint.Json
