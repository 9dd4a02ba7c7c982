/-!
# Writing JSON

JSON texts with one item or field a line, indented by two blanks a level.

The module introduces:

* `Json` — the values that are written;
* `Json.quoted` — a string in quotes;
* `Json.layout`, `Json.pretty` — a value as text.

## References

* The specification of amd-lint, §12.5, output formats: the layout of pretty JSON.
-/

namespace LoaderLint

/-- A value that is written as JSON. -/
inductive Json where
  /-- A number. -/
  | number (n : Nat)
  /-- A string. -/
  | string (text : String)
  /-- A list. -/
  | array (items : List Json)
  /-- Fields with their names. -/
  | object (fields : List (String × Json))
deriving Inhabited

namespace Json

/-- The digit with the value, up to base sixteen. -/
def hexDigit (n : Nat) : Char := (Nat.digitChar n)

/-- A character as it stands between quotes: quotes, backslashes and control characters are
escaped. -/
def quotedChar (c : Char) : List Char :=
  if c = '"' then ['\\', '"']
  else if c = '\\' then ['\\', '\\']
  else if c = '\n' then ['\\', 'n']
  else if c = '\r' then ['\\', 'r']
  else if c = '\t' then ['\\', 't']
  else if c = '\x08' then ['\\', 'b']
  else if c = '\x0c' then ['\\', 'f']
  else if c.toNat < 32 then
    ['\\', 'u', '0', '0', hexDigit (c.toNat / 16), hexDigit (c.toNat % 16)]
  else [c]

/-- A string in quotes. -/
def quoted (text : String) : List Char := '"' :: text.toList.flatMap quotedChar ++ ['"']

/-- The start of a line at a level. -/
def newLine (level : Nat) : List Char := '\n' :: List.replicate (2 * level) ' '

mutual

/-- A value as text, where `level` is that of the line it starts on. -/
def layout (level : Nat) : Json → List Char
  | number n => Nat.toDigits 10 n
  | string text => quoted text
  | array [] => ['[', ']']
  | array (item :: items) =>
    '[' :: newLine (level + 1) ++ layout (level + 1) item ++ layoutItems (level + 1) items ++
      newLine level ++ [']']
  | object [] => ['\x7b', '\x7d']
  | object ((name, value) :: fields) =>
    '\x7b' :: newLine (level + 1) ++ quoted name ++ [':', ' '] ++ layout (level + 1) value ++
      layoutFields (level + 1) fields ++ newLine level ++ ['\x7d']

/-- More items of a list, each behind a comma. -/
def layoutItems (level : Nat) : List Json → List Char
  | [] => []
  | item :: items => ',' :: newLine level ++ layout level item ++ layoutItems level items

/-- More fields, each behind a comma. -/
def layoutFields (level : Nat) : List (String × Json) → List Char
  | [] => []
  | (name, value) :: fields =>
    ',' :: newLine level ++ quoted name ++ [':', ' '] ++ layout level value ++
      layoutFields level fields

end

/-- A value as text. -/
def pretty (v : Json) : String := String.ofList (layout 0 v)

end Json

end LoaderLint
