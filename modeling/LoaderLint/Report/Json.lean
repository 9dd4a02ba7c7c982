import LoaderLint.Json.Layout
import LoaderLint.Json.Record
import LoaderLint.Report

/-!
# Reports as JSON

A report is written as JSON and can be read back. Whether the severity of a finding may be changed
is not written.

The module introduces:

* `Report.json` — a report as JSON text;
* `Report.load` — the report that a JSON text holds.

## References

* The specification of amd-lint, §12.5, output formats: `render_json` is `Report.json` here, and
  `Report.load` is the way back.
-/

namespace LoaderLint

/-- A place as JSON. -/
def Location.toJson (l : Location) : Json :=
  .object [("file", .string l.file.spelling), ("line", .number l.line),
    ("column", .number l.column), ("offset", .number l.offset), ("length", .number l.length)]

/-- A label as JSON. -/
def Label.toJson (l : Label) : Json :=
  .object [("location", l.location.toJson), ("message", .string l.message)]

/-- A finding as JSON, without the fields that say nothing. -/
def Finding.toJson (f : Finding) : Json :=
  .object <|
    [("code", .string f.code), ("rule", .string f.rule), ("severity", .string f.severity.name),
      ("location", f.location.toJson), ("message", .string f.message)] ++
    (f.suggestion.toList.map fun text => ("suggestion", .object [("message", .string text)])) ++
    (if f.labels.isEmpty then [] else [("labels", .array (f.labels.map Label.toJson))])

/-- A report as JSON. -/
def Report.toJson (r : Report) : Json :=
  .object [("violations", .array (r.findings.map Finding.toJson)),
    ("files_checked", .number r.filesChecked)]

/-- A report as JSON text. -/
def Report.json (r : Report) : String := r.toJson.pretty

open Json (Reader Field Shape)

namespace Severity

/-- The severity with the name. -/
def readName : Reader Severity := do
  let word ← Reader.text "variant identifier"
  match ofName? word with
  | some s => return s
  | none => Reader.fail (.severityWord word)

/-- A severity: its name, or its name as the only field, with the word `null`. -/
def read : Reader Severity := do
  match ← Reader.peek with
  | none => Reader.fail .valueEnds
  | some c =>
    if c = '"' then readName
    else if c = '\x7b' then
      Reader.skip
      let severity ← readName
      Reader.colon
      Reader.null "unit"
      match ← Reader.peek with
      | none => Reader.fail .fieldsEnd
      | some d =>
        if d = '\x7d' then
          Reader.skip
          return severity
        else Reader.fail .noValue
    else Reader.fail .noValue

end Severity

namespace Location

/-- The fields of a place. -/
def shape : Shape Location where
  expected := "struct Location"
  expectedItems := "struct Location with 5 elements"
  fields :=
    [.of "file" (Reader.text "path string") fun l file => { l with file := ⟨file⟩ },
     .of "line" Reader.size fun l line => { l with line },
     .of "column" Reader.size fun l column => { l with column },
     .of "offset" Reader.size fun l offset => { l with offset },
     .of "length" Reader.size fun l length => { l with length }]

/-- A place. -/
def read : Reader Location := Reader.record shape ⟨⟨""⟩, 0, 0, 0, 0⟩

end Location

namespace Label

/-- The fields of a label. -/
def shape : Shape Label where
  expected := "struct Label"
  expectedItems := "struct Label with 2 elements"
  fields :=
    [.of "location" Location.read fun l location => { l with location },
     .of "message" (Reader.text "a string") fun l message => { l with message }]

/-- A label. -/
def read : Reader Label := Reader.record shape ⟨⟨⟨""⟩, 0, 0, 0, 0⟩, ""⟩

end Label

/-- The only field of a suggestion. -/
def suggestionShape : Shape String where
  expected := "struct Suggestion"
  expectedItems := "struct Suggestion with 1 element"
  fields := [.of "message" (Reader.text "a string") fun _ message => message]

namespace Finding

/-- A finding whose fields say nothing. -/
def blank : Finding where
  code := ""
  rule := ""
  severity := .info
  location := ⟨⟨""⟩, 0, 0, 0, 0⟩
  message := ""
  suggestion := none
  labels := []
  locked := false

/-- The fields of a finding. -/
def shape : Shape Finding where
  expected := "struct Violation"
  expectedItems := "struct Violation with 7 elements"
  fields :=
    [.of "code" (Reader.text "a string") fun f code => { f with code },
     .of "rule" (Reader.text "a string") fun f rule => { f with rule },
     .of "severity" Severity.read fun f severity => { f with severity },
     .of "location" Location.read fun f location => { f with location },
     .of "message" (Reader.text "a string") fun f message => { f with message },
     .optional "suggestion" (Reader.optional (Reader.record suggestionShape ""))
       fun f suggestion => { f with suggestion },
     .optional "labels" (Reader.list Label.read) fun f labels => { f with labels }]

/-- A finding. -/
def read : Reader Finding := Reader.record shape blank

end Finding

namespace Report

/-- The fields of a report. -/
def shape : Shape Report where
  expected := "struct LintResult"
  expectedItems := "struct LintResult with 2 elements"
  fields :=
    [.of "violations" (Reader.list Finding.read) fun r findings => { r with findings },
     .of "files_checked" Reader.size fun r filesChecked => { r with filesChecked }]

/-- The report that a JSON text holds. -/
def load (source : String) : Except Json.Fault Report :=
  Reader.readAll (Reader.record shape empty) source

end Report

end LoaderLint
