import LoaderLint.Decimal.Shortest

/-!
# TOML values

The values that a TOML document holds. Tables keep their keys in the order in which the document
gives them.

The module introduces:

* `Toml.Value` — a value;
* `Toml.Value.typeName` — the word for the type of a value;
* `Toml.Value.entries?` — the keys and values of a value that has some;
* `Toml.Value.elements?` — the elements of an array.

## References

* The specification of amd-lint, §11.3: the documents that configurations are read from, in TOML
  1.0.
-/

namespace LoaderLint.Toml

/-- A value of a TOML document. -/
inductive Value where
  /-- A string. -/
  | string (text : String)
  /-- An integer. -/
  | integer (n : Int)
  /-- A floating-point number, by its 64 bits. -/
  | float (bits : UInt64)
  /-- A truth value. -/
  | boolean (b : Bool)
  /-- A date, a time, or both, in its normal spelling. -/
  | datetime (text : String)
  /-- An array written in brackets. -/
  | array (elements : List Value)
  /-- An array of tables, each written under a header of its own. -/
  | tables (elements : List Value)
  /-- A table, with its keys in order. -/
  | table (entries : List (String × Value))
deriving Repr, Inhabited

/-- A table's keys and values. -/
abbrev Table := List (String × Value)

namespace Value

/-- The word for the type of a value. -/
def typeName : Value → String
  | string _ => "string"
  | integer _ => "integer"
  | float _ => "float"
  | boolean _ => "boolean"
  | datetime _ => "datetime"
  | array _ => "array"
  | tables _ => "array of tables"
  | table _ => "table"

/-- The key under which a date or time is found where a table is expected. -/
def datetimeKey : String := "$__toml_private_datetime"

/-- The keys and values of a table. A date or time counts as a table with one key. -/
def entries? : Value → Option Table
  | table entries => some entries
  | datetime text => some [(datetimeKey, string text)]
  | _ => none

/-- The elements of an array. -/
def elements? : Value → Option (List Value)
  | array elements | tables elements => some elements
  | _ => none

end Value

end LoaderLint.Toml
