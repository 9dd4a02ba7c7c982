import LoaderLint.Decimal.Nearest
import LoaderLint.Text.Digits
import LoaderLint.Toml.Value

/-!
# TOML scalars

Strings, numbers, truth values and dates. A reader takes the text ahead and gives what it read
together with the text behind it, or nothing where the text does not fit.

The module introduces:

* `basicString?`, `literalString?`, `multilineBasic?`, `multilineLiteral?` — the four kinds of
  strings;
* `integer?`, `float?` — numbers;
* `datetime?` — dates and times in their normal spelling.

## References

* The specification of amd-lint, §11.3: the documents that configurations are read from, in TOML
  1.0.
-/

namespace LoaderLint.Toml

open Text (digitsValue? charOfDigits?)

/-- A reader of a part of a document. -/
abbrev Scan (α : Type) := List Char → Option (α × List Char)

/-- A blank inside a line. -/
def isSpace (c : Char) : Bool := c = ' ' || c = '\t'

/-- A character that may stand in a comment or in a string in single quotes. -/
def isPrintable (c : Char) : Bool := c = '\t' || (' ' ≤ c && c ≠ '\x7f')

/-- The text behind a line break, if one is ahead. -/
def newline? : List Char → Option (List Char)
  | '\n' :: rest => some rest
  | '\r' :: '\n' :: rest => some rest
  | _ => none

/-- The character of an escape whose number has `n` hexadecimal digits. -/
def numberedEscape? (n : Nat) (cs : List Char) : Option (Char × List Char) :=
  if cs.length < n then none
  else (charOfDigits? 16 (cs.take n)).map fun c => (c, cs.drop n)

/-- The character of the escape ahead, given the text behind its backslash. -/
def escape? : List Char → Option (Char × List Char)
  | 'b' :: rest => some ('\x08', rest)
  | 't' :: rest => some ('\t', rest)
  | 'n' :: rest => some ('\n', rest)
  | 'f' :: rest => some ('\x0c', rest)
  | 'r' :: rest => some ('\r', rest)
  | '"' :: rest => some ('"', rest)
  | '\\' :: rest => some ('\\', rest)
  | 'u' :: rest => numberedEscape? 4 rest
  | 'U' :: rest => numberedEscape? 8 rest
  | _ => none

/-- The rest of a string in double quotes, behind the opening quote. -/
def basicRest? : Nat → List Char → List Char → Option (String × List Char)
  | 0, _, _ => none
  | steps + 1, done, cs =>
    match cs with
    | '"' :: rest => some (String.ofList done.reverse, rest)
    | '\\' :: rest =>
      match escape? rest with
      | some (c, rest) => basicRest? steps (c :: done) rest
      | none => none
    | c :: rest => if isPrintable c then basicRest? steps (c :: done) rest else none
    | [] => none

/-- A string in double quotes. -/
def basicString? : Scan String
  | '"' :: rest => basicRest? (rest.length + 1) [] rest
  | _ => none

/-- A string in single quotes. -/
def literalString? : Scan String
  | '\'' :: rest =>
    let body := rest.takeWhile fun c => isPrintable c && c ≠ '\''
    match rest.drop body.length with
    | '\'' :: behind => some (String.ofList body, behind)
    | _ => none
  | _ => none

/-- The text behind blanks and line breaks. -/
def skipJoined : Nat → List Char → List Char
  | 0, cs => cs
  | steps + 1, cs =>
    match cs with
    | ' ' :: rest | '\t' :: rest => skipJoined steps rest
    | _ => match newline? cs with
      | some rest => skipJoined steps rest
      | none => cs

/-- The text behind the blanks and line breaks that a backslash at the end of a line joins; nothing
if the line goes on behind it. -/
def joinedLine? (cs : List Char) : Option (List Char) :=
  (newline? (cs.dropWhile isSpace)).map fun rest => skipJoined (rest.length + 1) rest

/-- The number of quotes at the end of a string of many lines, given how many stand together there:
three close it and up to two more belong to it. -/
def closingQuotes? (n : Nat) : Option Nat :=
  if 3 ≤ n ∧ n ≤ 5 then some (n - 3) else none

/-- The rest of a string of many lines in double quotes, behind the opening quotes. -/
def multilineBasicRest? : Nat → List Char → List Char → Option (String × List Char)
  | 0, _, _ => none
  | steps + 1, done, cs =>
    match cs with
    | '"' :: rest =>
      let quotes := (cs.takeWhile (· = '"')).length
      if quotes < 3 then multilineBasicRest? steps ('"' :: done) rest
      else (closingQuotes? quotes).map fun extra =>
        (String.ofList (List.replicate extra '"' ++ done).reverse, cs.drop quotes)
    | '\\' :: rest =>
      match joinedLine? rest with
      | some rest => multilineBasicRest? steps done rest
      | none => match escape? rest with
        | some (c, rest) => multilineBasicRest? steps (c :: done) rest
        | none => none
    | c :: rest =>
      match newline? cs with
      | some rest => multilineBasicRest? steps ('\n' :: done) rest
      | none => if isPrintable c then multilineBasicRest? steps (c :: done) rest else none
    | [] => none

/-- The text behind a line break, which does not count at the start of a string of many lines. -/
def afterNewline (cs : List Char) : List Char := (newline? cs).getD cs

/-- A string of many lines in double quotes. -/
def multilineBasic? : Scan String
  | '"' :: '"' :: '"' :: rest => multilineBasicRest? (rest.length + 1) [] (afterNewline rest)
  | _ => none

/-- The rest of a string of many lines in single quotes, behind the opening quotes. -/
def multilineLiteralRest? : Nat → List Char → List Char → Option (String × List Char)
  | 0, _, _ => none
  | steps + 1, done, cs =>
    match cs with
    | '\'' :: rest =>
      let quotes := (cs.takeWhile (· = '\'')).length
      if quotes < 3 then multilineLiteralRest? steps ('\'' :: done) rest
      else (closingQuotes? quotes).map fun extra =>
        (String.ofList (List.replicate extra '\'' ++ done).reverse, cs.drop quotes)
    | c :: rest =>
      match newline? cs with
      | some rest => multilineLiteralRest? steps ('\n' :: done) rest
      | none => if isPrintable c then multilineLiteralRest? steps (c :: done) rest else none
    | [] => none

/-- A string of many lines in single quotes. -/
def multilineLiteral? : Scan String
  | '\'' :: '\'' :: '\'' :: rest => multilineLiteralRest? (rest.length + 1) [] (afterNewline rest)
  | _ => none

/-- A string of any kind. -/
def string? (cs : List Char) : Option (String × List Char) :=
  match cs with
  | '"' :: '"' :: '"' :: _ => multilineBasic? cs
  | '"' :: _ => basicString? cs
  | '\'' :: '\'' :: '\'' :: _ => multilineLiteral? cs
  | '\'' :: _ => literalString? cs
  | _ => none

/-- Digits with single underscores between them; `done` holds those read, the last one first. -/
def digitRun (digit : Char → Bool) (done : List Char) : List Char → List Char × List Char
  | '_' :: c :: rest =>
    if !done.isEmpty && digit c then digitRun digit (c :: done) rest
    else (done.reverse, '_' :: c :: rest)
  | c :: rest =>
    if digit c then digitRun digit (c :: done) rest else (done.reverse, c :: rest)
  | [] => (done.reverse, [])

/-- Digits of a base, as a number. -/
def based? (base : Nat) (digit : Char → Bool) (cs : List Char) : Option (Int × List Char) :=
  let (digits, rest) := digitRun digit [] cs
  (digitsValue? base digits).map fun n => ((n : Int), rest)

/-- Whether a number is within the range of integers. -/
def inRange (n : Int) : Bool := -0x8000000000000000 ≤ n && n < 0x8000000000000000

/-- The sign ahead, and the text behind it. -/
def signAhead : List Char → Bool × List Char
  | '-' :: rest => (true, rest)
  | '+' :: rest => (false, rest)
  | cs => (false, cs)

/-- Decimal digits without a zero in front of others. -/
def wholePart? (cs : List Char) : Option (List Char × List Char) :=
  let (digits, rest) := digitRun Char.isDigit [] cs
  match digits with
  | [] => none
  | '0' :: _ :: _ => none
  | _ => some (digits, rest)

/-- An integer: decimal with a sign, or hexadecimal, octal or binary without one. -/
def integer? (cs : List Char) : Option (Int × List Char) :=
  let read := match cs with
    | '0' :: 'x' :: rest =>
      based? 16 (fun c => c.isDigit || ('a' ≤ c && c ≤ 'f') || ('A' ≤ c && c ≤ 'F')) rest
    | '0' :: 'o' :: rest => based? 8 (fun c => '0' ≤ c && c ≤ '7') rest
    | '0' :: 'b' :: rest => based? 2 (fun c => c = '0' || c = '1') rest
    | _ =>
      let (negative, body) := signAhead cs
      match wholePart? body with
      | some (digits, rest) =>
        (digitsValue? 10 digits).map fun n => (if negative then -(n : Int) else n, rest)
      | none => none
  read.filter fun (n, _) => inRange n

/-- The exponent ahead: the letter, a sign and digits. -/
def exponent? : List Char → Option (Int × List Char)
  | e :: rest =>
    if e = 'e' || e = 'E' then
      let (negative, body) := signAhead rest
      let (digits, behind) := digitRun Char.isDigit [] body
      (digitsValue? 10 digits).map fun n => (if negative then -(n : Int) else n, behind)
    else none
  | [] => none

/-- The digits behind a point. -/
def fraction? : List Char → Option (List Char × List Char)
  | '.' :: rest =>
    let (digits, behind) := digitRun Char.isDigit [] rest
    if digits.isEmpty then none else some (digits, behind)
  | _ => none

/-- The bits of an infinity or of what is not a number, by its word. -/
def specialFloat? (cs : List Char) : Option (UInt64 × List Char) :=
  let (negative, body) := signAhead cs
  match body with
  | 'i' :: 'n' :: 'f' :: rest =>
    some (infiniteBits negative, rest)
  | 'n' :: 'a' :: 'n' :: rest =>
    some (if negative then 0xfff8000000000000 else 0x7ff8000000000000, rest)
  | _ => none

/-- A floating-point number: with a fraction, an exponent or both, or one of the special ones. One
too large for its range is refused. -/
def float? (cs : List Char) : Option (UInt64 × List Char) :=
  let (negative, body) := signAhead cs
  match wholePart? body with
  | some (whole, rest) =>
    let (fraction, behind) := (fraction? rest).getD ([], rest)
    match fraction, exponent? behind with
    | [], none => none
    | fraction, exponent =>
      let (power, behind) := exponent.getD (0, behind)
      let digits := (digitsValue? 10 (whole ++ fraction)).getD 0
      let bits := nearestBits negative digits (power - fraction.length)
      if bits = infiniteBits false then none else some (bits, behind)
  | none => specialFloat? cs

/-- Exactly `n` digits, as a number. -/
def fixedDigits? (n : Nat) (cs : List Char) : Option (Nat × List Char) :=
  let digits := cs.take n
  if digits.length = n ∧ digits.all Char.isDigit then
    (digitsValue? 10 digits).map fun value => (value, cs.drop n)
  else none

/-- The number of days of a month. -/
def daysIn (year month : Nat) : Nat :=
  if month = 2 then
    if year % 4 = 0 ∧ (year % 100 ≠ 0 ∨ year % 400 = 0) then 29 else 28
  else if [4, 6, 9, 11].contains month then 30
  else 31

/-- The number with zeros in front of it up to `width` digits. -/
def padded (width n : Nat) : String :=
  let digits := Nat.toDigits 10 n
  String.ofList (List.replicate (width - digits.length) '0' ++ digits)

/-- A date. -/
def date? (cs : List Char) : Option (String × List Char) := do
  let (year, cs) ← fixedDigits? 4 cs
  let cs ← if cs.head? = some '-' then some (cs.drop 1) else none
  let (month, cs) ← fixedDigits? 2 cs
  let cs ← if cs.head? = some '-' then some (cs.drop 1) else none
  let (day, cs) ← fixedDigits? 2 cs
  if 1 ≤ month ∧ month ≤ 12 ∧ 1 ≤ day ∧ day ≤ daysIn year month then
    some (padded 4 year ++ "-" ++ padded 2 month ++ "-" ++ padded 2 day, cs)
  else none

/-- The fraction of a second ahead, to nine places and without zeros at its end. -/
def secondFraction (cs : List Char) : String × List Char :=
  match cs with
  | '.' :: rest =>
    let digits := rest.takeWhile Char.isDigit
    if digits.isEmpty then ("", cs)
    else
      let kept := ((digits.take 9).reverse.dropWhile (· = '0')).reverse
      (if kept.isEmpty then "" else "." ++ String.ofList kept, rest.drop digits.length)
  | _ => ("", cs)

/-- A time of day. -/
def time? (cs : List Char) : Option (String × List Char) := do
  let (hour, cs) ← fixedDigits? 2 cs
  let cs ← if cs.head? = some ':' then some (cs.drop 1) else none
  let (minute, cs) ← fixedDigits? 2 cs
  let cs ← if cs.head? = some ':' then some (cs.drop 1) else none
  let (second, cs) ← fixedDigits? 2 cs
  let (fraction, cs) := secondFraction cs
  if hour ≤ 23 ∧ minute ≤ 59 ∧ second ≤ 60 then
    some (padded 2 hour ++ ":" ++ padded 2 minute ++ ":" ++ padded 2 second ++ fraction, cs)
  else none

/-- The difference from universal time ahead, if there is one. -/
def offset? (cs : List Char) : Option (String × List Char) :=
  match cs with
  | 'Z' :: rest | 'z' :: rest => some ("Z", rest)
  | sign :: rest =>
    if sign = '+' ∨ sign = '-' then do
      let (hours, rest) ← fixedDigits? 2 rest
      let rest ← if rest.head? = some ':' then some (rest.drop 1) else none
      let (minutes, rest) ← fixedDigits? 2 rest
      if hours ≤ 23 ∧ minutes ≤ 59 then
        let shown := if sign = '-' ∧ (hours, minutes) ≠ (0, 0) then "-" else "+"
        some (shown ++ padded 2 hours ++ ":" ++ padded 2 minutes, rest)
      else none
    else none
  | [] => none

/-- The time behind a date, with its difference from universal time. -/
def timeBehind? : List Char → Option (String × List Char)
  | mark :: rest =>
    if mark = 'T' ∨ mark = 't' ∨ mark = ' ' then
      (time? rest).map fun (time, rest) =>
        let (offset, rest) := (offset? rest).getD ("", rest)
        ("T" ++ time ++ offset, rest)
    else none
  | [] => none

/-- A date, a time, or both, in its normal spelling. -/
def datetime? (cs : List Char) : Option (String × List Char) :=
  match date? cs with
  | some (date, rest) =>
    match timeBehind? rest with
    | some (time, rest) => some (date ++ time, rest)
    | none => some (date, rest)
  | none => time? cs

end LoaderLint.Toml
