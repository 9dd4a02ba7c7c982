import LoaderLint.Script.Node
import LoaderLint.Text.Digits

/-!
# Values of string literals

A string literal is a list of fragments, which stand for themselves, and escape sequences. An
escape of a number that is no character, such as half of a surrogate pair, stands for nothing.

The module introduces:

* `escapeValue` — the text that an escape sequence stands for;
* `Node.stringValue?` — the text that a string literal stands for.

## References

* The specification of amd-lint, §10.1: `string_value` is `Node.stringValue?` here, and
  `decode_escape` is `escapeValue`.
-/

namespace LoaderLint.Script

open Text (charOfDigits?)

/-- The digits without the braces around them. -/
def withoutBraces (digits : List Char) : List Char :=
  ((digits.dropWhile (· = '\x7b')).reverse.dropWhile (· = '\x7d')).reverse

/-- The character that an escape stands for, given by what follows its backslash. A line break
stands for nothing, and a character without a meaning of its own for itself. -/
def escapedChar? : List Char → Option Char
  | [] => none
  | 'n' :: _ => some '\n'
  | 't' :: _ => some '\t'
  | 'r' :: _ => some '\r'
  | 'b' :: _ => some '\x08'
  | 'f' :: _ => some '\x0c'
  | 'v' :: _ => some '\x0b'
  | 'x' :: digits => charOfDigits? 16 digits
  | 'u' :: digits => charOfDigits? 16 (withoutBraces digits)
  | c :: rest =>
    if c = '\n' ∨ c = '\r' ∨ c = '\u2028' ∨ c = '\u2029' then none
    else if '0' ≤ c ∧ c ≤ '7' then charOfDigits? 8 (c :: rest)
    else some c

/-- The text that an escape sequence stands for. -/
def escapeValue (text : List Char) : List Char :=
  let body := match text with
    | '\\' :: rest => rest
    | _ => text
  (escapedChar? body).toList

namespace Node

/-- The text that a part of a string literal stands for. -/
def partValue (n : Node) : List Char :=
  match n.kind with
  | .fragment => n.text.toList
  | .escape => escapeValue n.text.toList
  | _ => []

/-- The text that a string literal stands for; nothing for other nodes. -/
def stringValue? (n : Node) : Option String :=
  if n.kind = .string then some (String.ofList (n.children.flatMap partValue)) else none

end Node

end LoaderLint.Script
