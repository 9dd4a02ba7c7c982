import LoaderLint.Json.Reader

/-!
# Reading records

A record is read from fields with their names, in any order, or from a list of their values in
order. Fields that the record does not have are passed over; one that is given twice or that is
missing is wrong.

The module introduces:

* `Json.Field`, `Json.Shape` — the fields of a record;
* `Reader.record` — a record.

## References

* The specification of amd-lint, §12.5, output formats: the records of reports that are read back.
-/

namespace LoaderLint.Json

/-- A field of a record. -/
structure Field (α : Type) where
  /-- Its name. -/
  name : String
  /-- Whether a record has to have it. -/
  required : Bool
  /-- Reads its value and changes the record to it. -/
  read : α → Reader α

/-- A field that a record has to have, by the reader of its value and the change of the record. -/
def Field.of {α β : Type} (name : String) (value : Reader β) (change : α → β → α) : Field α :=
  ⟨name, true, fun a => change a <$> value⟩

/-- A field that may be missing. -/
def Field.optional {α β : Type} (name : String) (value : Reader β) (change : α → β → α) :
    Field α :=
  ⟨name, false, fun a => change a <$> value⟩

/-- The fields of a record. -/
structure Shape (α : Type) where
  /-- What a value of another type is told was expected. -/
  expected : String
  /-- What a list that is too short is told was expected. -/
  expectedItems : String
  /-- The fields, in the order in which a list gives their values. -/
  fields : List (Field α)

namespace Reader

/-- A record changed to at most `limit` fields ahead, with the names of the fields that were
`given`. -/
def namedFields {α : Type} (shape : Shape α) :
    Nat → Bool → List String → α → Reader (List String × α)
  | 0, _, given, a => return (given, a)
  | limit + 1, first, given, a => do
    if ← anotherField first then
      skip
      let name ← stringBody true
      match shape.fields.find? (·.name = name) with
      | some field =>
        if given.contains name then fail (.duplicate name)
        else
          colon
          namedFields shape limit false (name :: given) (← field.read a)
      | none =>
        colon
        ignoreValue
        namedFields shape limit false given a
    else return (given, a)

/-- A record changed to the items of a list ahead, of which `count` came before. -/
def listedFields {α : Type} (expected : String) (count : Nat) : List (Field α) → α → Reader α
  | [], a => return a
  | field :: rest, a => do
    if ← anotherItem (count = 0) then
      listedFields expected (count + 1) rest (← field.read a)
    else if field.required then fail (.tooShort count expected)
    else listedFields expected count rest a

/-- That all fields that a record has to have were given. -/
def complete {α : Type} (shape : Shape α) (given : List String) : Reader Unit :=
  match shape.fields.find? fun f => f.required && !given.contains f.name with
  | some field => fail (.missing field.name)
  | none => pure ()

/-- A record, as a change of the one whose fields say nothing. -/
def record {α : Type} (shape : Shape α) (blank : α) : Reader α := do
  match ← peek with
  | none => fail .valueEnds
  | some c =>
    if c = '[' then
      skip
      let a ← listedFields shape.expectedItems 0 shape.fields blank
      listEnd
      return a
    else if c = '\x7b' then
      skip
      let (given, a) ← namedFields shape (← get).length true [] blank
      complete shape given
      fieldsEnd
      return a
    else mismatch c shape.expected

end Reader

end LoaderLint.Json
