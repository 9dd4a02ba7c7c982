/-!
# Lexemes

The classes of characters and tokens of a source text. A token class is a function from the text
ahead to the number of characters that the longest token of the class takes, so that the caller
cuts the text where the token ends.

The module introduces:

* `isBlank`, `isNamePart` — the characters between tokens and the characters of names;
* `nameLength`, `numberLength`, `regexLength`, `escapeLength`, `commentLength`,
  `markupCommentLength` — the token classes;
* `punctuatorAt` — the longest punctuation mark ahead;
* `isReserved` — the words that are never names.

## References

* The specification of amd-lint, §10.1: the tokens of the grammar `tree-sitter-javascript`.
-/

namespace LoaderLint.Script

/-- The characters that separate tokens: the blanks of ASCII, the space separators, the line and
paragraph separators, the byte order mark and two invisible spaces. -/
def isBlank (c : Char) : Bool :=
  c = ' ' || ('\t' ≤ c && c ≤ '\r') || c = '\u00a0' || c = '\u1680' ||
    ('\u2000' ≤ c && c ≤ '\u200b') || c = '\u2028' || c = '\u2029' || c = '\u202f' ||
    c = '\u205f' || c = '\u2060' || c = '\u3000' || c = '\ufeff'

/-- The blanks of ASCII. -/
def isAsciiBlank (c : Char) : Bool := c = ' ' || ('\t' ≤ c && c ≤ '\r')

/-- The characters that end a line for the purpose of an omitted semicolon. -/
def isLineBreak (c : Char) : Bool := c = '\n' || c = '\u2028' || c = '\u2029'

/-- The characters that end a comment of two slashes. -/
def isLineEnd (c : Char) : Bool := isLineBreak c || c = '\r'

/-- A character of a name: all but control characters, blanks and the punctuation of the
language. -/
def isNamePart (c : Char) : Bool :=
  ' ' ≤ c && !isBlank c && !":;`\"'@#.,|^&<=>+-*/\\%?!~()[]\x7b\x7d".toList.contains c

/-- A hexadecimal digit. -/
def isHex (c : Char) : Bool :=
  c.isDigit || ('a' ≤ c && c ≤ 'f') || ('A' ≤ c && c ≤ 'F')

/-- An octal digit. -/
def isOctal (c : Char) : Bool := '0' ≤ c && c ≤ '7'

/-- A binary digit. -/
def isBinary (c : Char) : Bool := c = '0' || c = '1'

/-- The length of an escape of a code point, with four digits or with any number of them in
braces. -/
def unicodeEscapeLength : List Char → Option Nat
  | '\\' :: 'u' :: '\x7b' :: rest =>
    let digits := rest.takeWhile isHex
    if digits.isEmpty then none
    else if (rest.drop digits.length).head? = some '\x7d' then some (digits.length + 4)
    else none
  | '\\' :: 'u' :: a :: b :: c :: d :: _ =>
    if isHex a && isHex b && isHex c && isHex d then some 6 else none
  | _ => none

/-- The number of characters that continue a name, where the first `skip` belong to an escape. -/
def nameTailLength : Nat → List Char → Nat
  | _, [] => 0
  | skip + 1, _ :: rest => 1 + nameTailLength skip rest
  | 0, c :: rest =>
    if isNamePart c then 1 + nameTailLength 0 rest
    else match unicodeEscapeLength (c :: rest) with
      | some n => 1 + nameTailLength (n - 1) rest
      | none => 0

/-- The length of the name ahead, zero if there is none. A name does not start with a digit. -/
def nameLength (cs : List Char) : Nat :=
  match cs with
  | [] => 0
  | c :: _ => if c.isDigit then 0 else nameTailLength 0 cs

/-- The name ahead, empty if there is none. -/
def nameAt (cs : List Char) : String := String.ofList (cs.take (nameLength cs))

/-- The words that are never names. -/
def reservedWords : List String :=
  ["break", "case", "catch", "class", "const", "continue", "debugger", "default", "delete", "do",
   "else", "export", "extends", "false", "finally", "for", "function", "if", "import", "in",
   "instanceof", "new", "null", "return", "super", "switch", "this", "throw", "true", "try",
   "typeof", "var", "void", "while", "with"]

/-- Whether a word is never a name. -/
def isReserved (word : String) : Bool := reservedWords.contains word

/-- The number of characters of a run of digits that goes on, with single underscores between
digits. -/
def digitTailLength (digit : Char → Bool) : List Char → Nat
  | '_' :: d :: rest => if digit d then 2 + digitTailLength digit rest else 0
  | d :: rest => if digit d then 1 + digitTailLength digit rest else 0
  | [] => 0

/-- The number of characters of the run of digits ahead. -/
def digitsLength (digit : Char → Bool) : List Char → Nat
  | d :: rest => if digit d then 1 + digitTailLength digit rest else 0
  | [] => 0

/-- The length of the exponent ahead, zero if there is none. -/
def exponentLength : List Char → Nat
  | e :: sign :: rest =>
    if e = 'e' || e = 'E' then
      if sign = '+' || sign = '-' then
        let digits := digitsLength Char.isDigit rest
        if digits = 0 then 0 else 2 + digits
      else
        let digits := digitsLength Char.isDigit (sign :: rest)
        if digits = 0 then 0 else 1 + digits
    else 0
  | _ => 0

/-- The length of the whole part that a fraction or an exponent can follow. -/
def wholePartLength : List Char → Nat
  | '0' :: d :: rest =>
    if '1' ≤ d && d ≤ '9' then 2 + digitTailLength Char.isDigit rest else 1
  | d :: rest =>
    if d = '0' then 1 else if d.isDigit then 1 + digitTailLength Char.isDigit rest else 0
  | [] => 0

/-- The length `n` of an integer, one more if the mark of a big integer follows it. -/
def withBigMark (cs : List Char) (n : Nat) : Nat :=
  if n ≠ 0 && (cs.drop n).head? = some 'n' then n + 1 else n

/-- The length of a fraction with its point and an exponent, zero if there is no point. -/
def fractionLength : List Char → Nat
  | '.' :: rest =>
    let digits := digitsLength Char.isDigit rest
    1 + digits + exponentLength (rest.drop digits)
  | _ => 0

/-- The length of a decimal literal with a fraction or an exponent, zero if it has neither. -/
def decimalLength (cs : List Char) : Nat :=
  let whole := wholePartLength cs
  let rest := cs.drop whole
  let fraction := fractionLength rest
  let exponent := exponentLength rest
  if whole = 0 then
    match rest with
    | '.' :: d :: _ => if d.isDigit then fraction else 0
    | _ => 0
  else if fraction ≠ 0 then whole + fraction
  else if exponent ≠ 0 then whole + exponent
  else 0

/-- The length of an integer with a base mark, zero if there is none. -/
def basedLength : List Char → Nat
  | '0' :: mark :: rest =>
    let digits :=
      if mark = 'x' || mark = 'X' then digitsLength isHex rest
      else if mark = 'b' || mark = 'B' then digitsLength isBinary rest
      else if mark = 'o' || mark = 'O' then digitsLength isOctal rest
      else 0
    if digits = 0 then 0 else 2 + digits
  | _ => 0

/-- The length of the number ahead, zero if there is none. -/
def numberLength (cs : List Char) : Nat :=
  max (withBigMark cs (basedLength cs))
    (max (withBigMark cs (digitsLength Char.isDigit cs)) (decimalLength cs))

/-- The number of characters up to the slash that ends a regular expression, where `inClass` tells
if a character class is open. -/
def regexBodyLength (inClass : Bool) : List Char → Option Nat
  | [] => none
  | [c] => if c = '/' && !inClass then some 0 else none
  | c :: d :: rest =>
    if c = '\n' then none
    else if c = '\\' then
      if d = '\n' then none else (regexBodyLength inClass rest).map (· + 2)
    else if inClass then (regexBodyLength (c ≠ ']') (d :: rest)).map (· + 1)
    else if c = '/' then some 0
    else (regexBodyLength (c = '[') (d :: rest)).map (· + 1)

/-- The length of the regular expression ahead with its flags, zero if there is none. -/
def regexLength : List Char → Nat
  | '/' :: rest =>
    match regexBodyLength false rest with
    | some n =>
      if n = 0 then 0
      else n + 2 + ((rest.drop (n + 1)).takeWhile Char.isLower).length
    | none => 0
  | _ => 0

/-- The length of the escape sequence ahead in a string or a template: a backslash with one
character, up to three octal digits, two hexadecimal digits after `x`, or a code point after `u`. A
line break of two characters is taken whole. -/
def escapeLength (cs : List Char) : Option Nat :=
  match cs with
  | '\\' :: c :: rest =>
    if c = 'u' then unicodeEscapeLength cs
    else if c = 'x' then
      match rest with
      | a :: b :: _ => if isHex a && isHex b then some 4 else none
      | _ => none
    else if isOctal c then some (2 + ((rest.take 2).takeWhile isOctal).length)
    else if (c = '\r' || c = '?') && (rest.head?.map isLineBreak).getD false then some 3
    else some 2
  | _ => none

/-- The number of characters up to the end of a block comment, the end included. -/
def blockCommentLength : List Char → Option Nat
  | '*' :: '/' :: _ => some 2
  | _ :: rest => (blockCommentLength rest).map (· + 1)
  | [] => none

/-- The length of the comment ahead. A block comment that does not end is none. -/
def commentLength : List Char → Option Nat
  | '/' :: '/' :: rest => some (2 + (rest.takeWhile (!isLineEnd ·)).length)
  | '/' :: '*' :: rest => (blockCommentLength rest).map (· + 2)
  | _ => none

/-- The length of the markup comment ahead, which goes to the end of its line. -/
def markupCommentLength : List Char → Option Nat
  | '<' :: '!' :: '-' :: '-' :: rest => some (4 + (rest.takeWhile (!isLineBreak ·)).length)
  | '-' :: '-' :: '>' :: rest => some (3 + (rest.takeWhile (!isLineBreak ·)).length)
  | _ => none

/-- The punctuation marks, longer ones first. -/
def punctuators : List String :=
  [">>>=", "...", "===", "!==", "**=", "<<=", ">>=", ">>>", "&&=", "||=", "??=", "=>", "==", "!=",
   "<=", ">=", "&&", "||", "??", "?.", "++", "--", "+=", "-=", "*=", "/=", "%=", "&=", "|=", "^=",
   "<<", ">>", "**", "\x7b", "\x7d", "(", ")", "[", "]", ";", ",", ":", ".", "<", ">", "+", "-",
   "*", "/", "%", "&", "|", "^", "!", "~", "?", "=", "@", "`"]

/-- The longest punctuation mark ahead, empty if there is none. A question mark before a decimal
fraction is a mark of its own. -/
def punctuatorAt (cs : List Char) : String :=
  match cs with
  | '?' :: '.' :: d :: _ => if d.isDigit then "?" else "?."
  | _ => (punctuators.find? fun mark => mark.toList.isPrefixOf cs).getD ""

end LoaderLint.Script
