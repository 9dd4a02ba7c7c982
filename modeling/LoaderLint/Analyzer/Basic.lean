import LoaderLint.Config.Selection
import LoaderLint.Glob

/-!
# Analyzers

An analyzer runs rules over sources under a configuration.

The module introduces:

* `Setup`, `Setup.build` — what a run asks for, and the analyzer made of it;
* `Analyzer.findings`, `Analyzer.lint?` — what the rules find in a program, and in a source;
* `Rule.configuredCheck` — the findings of a rule with the severity that is configured for them.

## References

* The specification of amd-lint, §10.4: `AnalyzerBuilder` is `Setup` here, `Analyzer` keeps its
  name, `analyze_source` is `Analyzer.lint?`, and `fail_on_parse_error` is the field `strict`.
-/

namespace LoaderLint

open Script (Program)

/-- What a run asks for. -/
structure Setup where
  /-- The directory that is searched instead of the configured one. -/
  root : Option Path := none
  /-- The rules, in the order in which they run. -/
  rules : List Rule := []
  /-- Patterns of files that are left out besides the configured ones. -/
  excluded : List String := []
  /-- Patterns of files that are taken in besides the configured ones. -/
  included : List String := []
  /-- The configuration. -/
  config : Config := {}
  /-- Whether a file that is no program ends the run. -/
  strict : Bool := false
deriving Repr, Inhabited

/-- An analyzer that is ready to run. -/
structure Analyzer where
  /-- The directory that is searched. -/
  root : Path
  /-- The rules, in the order in which they run. -/
  rules : List Rule
  /-- The texts of the patterns of files that are left out. -/
  excludedTexts : List String
  /-- The patterns of files that are left out. -/
  excluded : List Glob
  /-- The patterns of files that are taken in; all are if there are none. -/
  included : List Glob
  /-- The configuration. -/
  config : Config
  /-- Whether a file that is no program ends the run. -/
  strict : Bool
deriving Repr, Inhabited

/-- The patterns of files that are left out if no others are given. -/
def defaultExcluded : List String := ["**/node_modules/**", "**/dist/**"]

namespace Setup

/-- The patterns of files that are left out. -/
def effectiveExcluded (s : Setup) : List String :=
  let given := s.excluded ++ s.config.analyzer.excluded
  if given.isEmpty then defaultExcluded else given

/-- The patterns of files that are taken in. -/
def effectiveIncluded (s : Setup) : List String := s.included ++ s.config.analyzer.included

/-- The analyzer that a run asks for, where a relative root is seen from the working directory. The
patterns of files that are left out are looked at first. -/
def build (workingDirectory : Path) (s : Setup) : Except Glob.Fault Analyzer := do
  let root := s.root.getD s.config.analyzer.root
  let excluded ← s.effectiveExcluded.mapM Glob.parse
  let included ← s.effectiveIncluded.mapM Glob.parse
  return {
    root := if root.isAbsolute then root else workingDirectory.join root
    rules := s.rules
    excludedTexts := s.effectiveExcluded
    excluded
    included
    config := s.config
    strict := s.strict }

end Setup

/-- The finding with the severity, unless its own is not to be changed. -/
def Finding.withSeverity (s : Severity) (f : Finding) : Finding :=
  if f.locked then f else { f with severity := s }

/-- What a rule finds in a file, with the severity that is configured for it. -/
def Rule.configuredCheck (c : Config) (s : Subject) (r : Rule) : List Finding :=
  match c.severityOf? r.name with
  | some severity => (r.check s).map (·.withSeverity severity)
  | none => r.check s

namespace Analyzer

/-- The rules that the configuration leaves on. -/
def activeRules (a : Analyzer) : List Rule := a.rules.filter fun r => a.config.isEnabled r.name

/-- What the rules find in the program of a file, in their order. -/
def findings (a : Analyzer) (path : Path) (p : Program) : List Finding :=
  a.activeRules.flatMap (·.configuredCheck a.config (.of path a.root p))

/-- What the rules find in a source, if it is a program. -/
def lint? (a : Analyzer) (path : Path) (source : String) : Option (List Finding) :=
  (Program.parse? source).map (a.findings path)

/-- The analyzer in one line. -/
def summary (a : Analyzer) : String :=
  "Analyzer \x7b root: " ++ Text.quoted a.root.spelling ++
    ", rules: [" ++ ", ".intercalate (a.rules.map fun r => Text.quoted r.name) ++
    "], exclude_patterns: [" ++ ", ".intercalate (a.excludedTexts.map Text.quoted) ++
    "], .. \x7d"

end Analyzer

end LoaderLint
