/-!
# A configuration to start from

## References

* The specification of amd-lint, §12.5: what `init` writes.
-/

namespace LoaderLint.CommandLine

/-- The text of a configuration to start from. -/
def template : String :=
  "# amd-lint configuration

# Rule preset: \"recommended\" (all rules) or \"minimal\" (callback arity only)
preset = \"recommended\"

# Lowest severity that makes `amd-lint check` exit non-zero
fail_on = \"error\"

[analyzer]
# Root directory to analyze (default: current directory)
# root = \"./src\"

# Glob patterns to exclude from analysis
exclude = [
    \"**/node_modules/**\",
    \"**/dist/**\",
]

# File extensions treated as JavaScript
extensions = [\"js\", \"mjs\", \"cjs\"]

# Respect .gitignore files
respect_gitignore = true

# Rule configurations
# Each rule can be enabled/disabled and have its severity overridden

[rules.amd-function-arity]
enabled = true
# severity = \"warning\"  # Override default severity
# Trailing dependencies that may go without a callback parameter.
# `true` allows any, `false` allows none.
allowExtraDependencies = false
# allowExtraDependencies = [\"css!app/style\", \"domReady!\"]

[rules.no-named-define]
enabled = true

[rules.no-assign-require]
enabled = true
"

end LoaderLint.CommandLine
