import LoaderLint.CommandLine.Arguments
import LoaderLint.Config.Selection

/-!
# What the program tells about itself

The version, the usage of the program and of its commands, and the list of rules.

## References

* The specification of amd-lint, §12.5: what `list-rules` prints is `ruleList` here.
-/

namespace LoaderLint

/-- A text filled up with blanks to a width. -/
def padded (width : Nat) (text : String) : String :=
  text ++ String.ofList (List.replicate (width - text.length) ' ')

/-- A line of the list of rules. -/
def ruleLine (code name presets description : String) : String :=
  padded 8 code ++ " " ++ padded 22 name ++ " " ++ padded 22 presets ++ " " ++ description ++ "\n"

/-- The line about a rule. -/
def RuleId.line (r : RuleId) : String :=
  let presets := (Preset.all.filter (·.rules.contains r)).map Preset.name
  ruleLine r.code r.name (", ".intercalate presets) r.description

/-- The line about a preset. -/
def Preset.line (p : Preset) : String :=
  "  " ++ padded 12 p.name ++ " - " ++ ", ".intercalate (p.rules.map RuleId.name) ++ "\n"

namespace CommandLine

/-- The name and the version of the program. -/
def versionLine : String := "amd-lint 0.1.0\n"

/-- The list of rules and presets. -/
def ruleList : String :=
  "Available rules:\n\n" ++ ruleLine "Code" "Name" "Presets" "Description" ++
    String.ofList (List.replicate 90 '-') ++ "\n" ++ String.join (RuleId.all.map RuleId.line) ++
    "\nPresets:\n" ++ String.join (Preset.all.map Preset.line) ++
    "\nUse --rules to filter specific rules, e.g.:\n" ++
    "  amd-lint check --rules amd-function-arity,no-named-define\n" ++
    "  amd-lint check --rules AMD001,AMD003\n"

/-- The options of the whole program in the usage of a command. -/
def commonUsage : String :=
  "  -v, --verbose          Log at debug level unless `RUST_LOG` says otherwise
  -c, --config <CONFIG>  Use this config file instead of looking one up [env: AMD_LINT_CONFIG=]
  -h, --help             Print help
"

/-- How the program, or a command of it, is used. -/
def usage : Option Verb → String
  | none =>
    "Lints AMD `define`/`require` calls and CommonJS wrappers

Usage: amd-lint [OPTIONS] <COMMAND>

Commands:
  check       Lint JavaScript files under a directory
  list-rules  Print the built-in rules and presets
  init        Write a starter amd-lint.toml in the current directory
  help        Print this message or the help of the given subcommand(s)

Options:
" ++ commonUsage ++ "  -V, --version          Print version\n"
  | some .check =>
    "Lint JavaScript files under a directory

Usage: amd-lint check [OPTIONS] [PATH]

Arguments:
  [PATH]  Project directory [default: .]

Options:
  -f, --format <FORMAT>  How to print violations [default: text] " ++
    "[possible values: text, json, compact, pretty]
      --rules <RULES>    Comma-separated rule names or codes to run instead of the preset
  -e, --exclude <GLOB>   Extra glob to skip; repeatable
" ++ commonUsage
  | some .listRules =>
    "Print the built-in rules and presets

Usage: amd-lint list-rules [OPTIONS]

Options:
" ++ commonUsage
  | some .init =>
    "Write a starter amd-lint.toml in the current directory

Usage: amd-lint init [OPTIONS]

Options:
      --force            Replace an existing amd-lint.toml
" ++ commonUsage

end CommandLine

end LoaderLint
