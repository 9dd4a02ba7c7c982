import LoaderLint.Config.Basic
import LoaderLint.Toml.Document

/-!
# Reading configurations

A configuration is read from a TOML document. The keys of a table are looked at in the order of the
document, so the first one that does not fit is the one complained about; keys that mean nothing at
the top and among the analyzer settings are passed over, and keys of a rule that mean nothing here
are its options.

The module introduces:

* `Config.ofTable` — the configuration that a table holds;
* `Config.parse` — the configuration that a document holds.

## References

* The specification of amd-lint, §11.3: `parse` of `Config`, with the decoding of its fields, is
  `Config.parse` here.
-/

namespace LoaderLint

open Toml (Value Table)

/-- A value read, or how it fails to fit. -/
abbrev Decoded (α : Type) := Except Mismatch α

namespace Decode

/-- A string. -/
def string (expected : String) : Value → Decoded String
  | .string text => .ok text
  | v => .error (.type v expected)

/-- A truth value. -/
def boolean : Value → Decoded Bool
  | .boolean b => .ok b
  | v => .error (.type v "a boolean")

/-- A list of strings. -/
def strings (v : Value) : Decoded (List String) :=
  match v.elements? with
  | some elements => elements.mapM (string "a string")
  | none => .error (.type v "a sequence")

/-- The severity with the name. -/
def severityName (word : String) : Decoded Severity :=
  match Severity.ofName? word with
  | some s => .ok s
  | none => .error (.severityWord word)

/-- A severity: its name, or a table with its name as the only key and an empty table under it. -/
def severity : Value → Decoded Severity
  | .string word => severityName word
  | .table [] => .error (.severityKeys false)
  | .table [(word, v)] => do
    let s ← severityName word
    match v with
    | .table [] => return s
    | .table _ => .error .severityTable
    | v => .error (.severityValue v.typeName)
  | .table _ => .error (.severityKeys true)
  | _ => .error .severityType

/-- The analyzer settings with the one of a key changed. -/
def analyzerField (settings : AnalyzerSettings) (key : String) (v : Value) :
    Decoded AnalyzerSettings :=
  match key with
  | "root" => (string "path string" v).map fun text => { settings with root := ⟨text⟩ }
  | "exclude" => (strings v).map fun excluded => { settings with excluded }
  | "include" => (strings v).map fun included => { settings with included }
  | "extensions" => (strings v).map fun extensions => { settings with extensions }
  | "respect_gitignore" =>
    (boolean v).map fun respectIgnored => { settings with respectIgnored }
  | _ => .ok settings

/-- The keys of the analyzer settings in the order in which a list gives their values. -/
def analyzerKeys : List String := ["root", "exclude", "include", "extensions", "respect_gitignore"]

/-- The analyzer settings, by keys or as a list of their values in order. -/
def analyzer (v : Value) : Decoded AnalyzerSettings :=
  match v.entries?, v.elements? with
  | some entries, _ => entries.foldlM (fun settings (key, v) => analyzerField settings key v) {}
  | none, some elements =>
    (analyzerKeys.zip elements).foldlM (fun settings (key, v) => analyzerField settings key v) {}
  | none, none => .error (.type v "struct AnalyzerConfig")

/-- The options with one more, in increasing order of their keys. -/
def insertOption (key : String) (v : Value) : Table → Table
  | [] => [(key, v)]
  | (k, w) :: rest =>
    if key < k then (key, v) :: (k, w) :: rest else (k, w) :: insertOption key v rest

/-- What is said about a rule with what is said under one more key. -/
def sectionField (s : RuleSection) (key : String) (v : Value) : Decoded RuleSection :=
  match key with
  | "enabled" => (boolean v).map fun b => { s with enabled := some b }
  | "severity" => (severity v).map fun sev => { s with severity := some sev }
  | _ => .ok { s with options := insertOption key v s.options }

/-- What is said about a rule. -/
def ruleSection (v : Value) : Decoded RuleSection :=
  match v.entries? with
  | some entries => entries.foldlM (fun s (key, v) => sectionField s key v) {}
  | none => .error (.type v "struct RuleConfig")

/-- What is said about rules, by their names. -/
def rules (v : Value) : Decoded (List (String × RuleSection)) :=
  match v.entries? with
  | some entries => entries.mapM fun (name, v) => (ruleSection v).map (name, ·)
  | none => .error (.type v "a map")

/-- The configuration with what is said under one more key. -/
def configField (c : Config) (key : String) (v : Value) : Decoded Config :=
  match key with
  | "preset" => (string "a string" v).map fun text => { c with preset := some text }
  | "fail_on" => (severity v).map fun s => { c with failOn := some s }
  | "analyzer" => (analyzer v).map fun analyzer => { c with analyzer }
  | "rules" => (rules v).map fun rules => { c with rules }
  | _ => .ok c

end Decode

namespace Config

/-- The configuration that a table holds. -/
def ofTable (table : Table) : Decoded Config :=
  table.foldlM (fun c (key, v) => Decode.configField c key v) {}

/-- A configuration that can be used: it names at least one extension. -/
def validate (c : Config) : Except ConfigError Config :=
  if c.analyzer.extensions.isEmpty then
    .error (.invalid "analyzer.extensions must name at least one file extension")
  else .ok c

/-- The configuration that a document holds. -/
def parse (text : String) : Except ConfigError Config := do
  match Toml.parse? text with
  | none => .error .malformed
  | some table =>
    match ofTable table with
    | .error cause => .error (.mismatch cause)
    | .ok c => c.validate

end Config

end LoaderLint
