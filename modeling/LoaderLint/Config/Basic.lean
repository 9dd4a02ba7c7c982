import LoaderLint.Path
import LoaderLint.Severity
import LoaderLint.Text.Quoted
import LoaderLint.Toml.Value

/-!
# Configurations

What a project says about how it wants to be linted.

The module introduces:

* `AnalyzerSettings`, `RuleSection`, `Config` — a configuration;
* `Config.isEnabled`, `Config.severityOf?`, `Config.failThreshold` — what it says about a rule and
  a run;
* `Mismatch`, `OptionError`, `ConfigError` — what can be wrong with one.

## References

* The specification of amd-lint, §11.3: `AnalyzerConfig` is `AnalyzerSettings` here, `RuleConfig`
  is `RuleSection`, and `Config` and `ConfigError` keep their names; `is_rule_enabled`,
  `rule_severity` and `fail_threshold` are `Config.isEnabled`, `Config.severityOf?` and
  `Config.failThreshold`.
-/

namespace LoaderLint

/-- Which files are linted. -/
structure AnalyzerSettings where
  /-- The directory that is searched. -/
  root : Path := ⟨"."⟩
  /-- Patterns of files that are left out. -/
  excluded : List String := []
  /-- Patterns of files that are taken in; all are if there are none. -/
  included : List String := []
  /-- The extensions of files that are taken in. -/
  extensions : List String := ["js", "mjs", "cjs"]
  /-- Whether files that version control ignores are left out. -/
  respectIgnored : Bool := true
deriving DecidableEq, Repr, Inhabited

/-- What a configuration says about a rule. -/
structure RuleSection where
  /-- Whether the rule is used. -/
  enabled : Option Bool := none
  /-- How serious its findings are. -/
  severity : Option Severity := none
  /-- Its options, in increasing order of their keys. -/
  options : Toml.Table := []
deriving Repr, Inhabited

/-- A configuration. -/
structure Config where
  /-- The name of the preset whose rules are used. -/
  preset : Option String := none
  /-- How serious a finding has to be for a run to fail. -/
  failOn : Option Severity := none
  /-- Which files are linted. -/
  analyzer : AnalyzerSettings := {}
  /-- What is said about rules, by their names. -/
  rules : List (String × RuleSection) := []
deriving Repr, Inhabited

namespace Config

/-- What a configuration says about the rule with the name. -/
def section? (c : Config) (rule : String) : Option RuleSection :=
  (c.rules.find? (·.1 = rule)).map (·.2)

/-- Whether the rule with the name is used: it is unless the configuration says otherwise. -/
def isEnabled (c : Config) (rule : String) : Bool :=
  ((c.section? rule).bind RuleSection.enabled).getD true

/-- How serious the findings of the rule with the name are, if the configuration says so. -/
def severityOf? (c : Config) (rule : String) : Option Severity :=
  (c.section? rule).bind RuleSection.severity

/-- How serious a finding has to be for a run to fail. -/
def failThreshold (c : Config) : Severity := c.failOn.getD .error

end Config

/-- How a value of a document fails to fit. -/
inductive Mismatch where
  /-- Another type was expected. -/
  | type (found : Toml.Value) (expected : String)
  /-- The word names no severity. -/
  | severityWord (word : String)
  /-- A severity is neither a string nor a table. -/
  | severityType
  /-- A severity is a table without keys, or with more than one. -/
  | severityKeys (several : Bool)
  /-- The only key of a severity has a value that is no table. -/
  | severityValue (typeName : String)
  /-- The only key of a severity has a table that is not empty. -/
  | severityTable
deriving Repr, Inhabited

namespace Mismatch

/-- What is said of a value of the wrong type. -/
def describe : Toml.Value → String
  | .string text => "string " ++ Text.quoted text
  | .integer n => "integer `" ++ toString n ++ "`"
  | .float bits => "floating point `" ++ (Binary64.ofBits bits).pointedText ++ "`"
  | .boolean b => "boolean `" ++ toString b ++ "`"
  | .array _ | .tables _ => "sequence"
  | .datetime _ | .table _ => "map"

/-- What is wrong. -/
def message : Mismatch → String
  | type found expected => "invalid type: " ++ describe found ++ ", expected " ++ expected
  | severityWord word => Severity.unknownMessage word
  | severityType => "wanted string or table"
  | severityKeys several =>
    "wanted exactly 1 element, " ++ if several then "more than 1 element" else "found 0 elements"
  | severityValue typeName => "expected table, found " ++ typeName
  | severityTable => "expected empty table"

end Mismatch

/-- How the options of a rule fail to fit. -/
inductive OptionError where
  /-- The key is not one of those that the rule knows. -/
  | unknownField (key : String) (known : List String)
  /-- A key and another name for it are both given. -/
  | duplicateField (key : String)
  /-- A policy is neither a truth value nor a list of strings. -/
  | policyType
  /-- A policy lists a name twice. -/
  | duplicateName (name : String)
deriving DecidableEq, Repr, Inhabited

namespace OptionError

/-- What is wrong. -/
def message : OptionError → String
  | unknownField key known =>
    "unknown field `" ++ key ++ "`, " ++
      if known.isEmpty then "there are no fields"
      else "expected " ++ " or ".intercalate (known.map fun k => "`" ++ k ++ "`")
  | duplicateField key => "duplicate field `" ++ key ++ "`"
  | policyType => "data did not match any variant of untagged enum ExtraDependenciesRepr"
  | duplicateName name => "duplicate dependency name `" ++ name ++ "` in allowExtraDependencies"

end OptionError

/-- What is wrong with a configuration. -/
inductive ConfigError where
  /-- Its file cannot be read. -/
  | unreadable (path : Path) (cause : String)
  /-- It is no TOML. -/
  | malformed
  /-- It does not fit. -/
  | mismatch (cause : Mismatch)
  /-- The options of a rule do not fit. -/
  | invalidOptions (rule : String) (cause : OptionError)
  /-- It fits but cannot be used. -/
  | invalid (text : String)
deriving Repr, Inhabited

namespace ConfigError

/-- What is wrong. -/
def message : ConfigError → String
  | unreadable path cause => "Failed to read config file " ++ path.spelling ++ ": " ++ cause
  | malformed => "Failed to parse config: "
  | mismatch cause => "Failed to parse config: " ++ cause.message
  | invalidOptions rule cause => "Invalid options for rule '" ++ rule ++ "': " ++ cause.message
  | invalid text => "Invalid config: " ++ text

end ConfigError

end LoaderLint
