/-!
# Severities

How serious a finding is, from `info` up to `error`.

## References

* The specification of amd-lint, §10.5: `Severity`, whose order is `Severity.atLeast` here.
-/

namespace LoaderLint

/-- How serious a finding is. -/
inductive Severity where
  /-- Worth knowing. -/
  | info
  /-- Worth fixing. -/
  | warning
  /-- To be fixed. -/
  | error
deriving DecidableEq, Repr, Inhabited

namespace Severity

/-- The place of a severity in their order. -/
def rank : Severity → Nat
  | info => 0
  | warning => 1
  | error => 2

/-- Whether a severity is at least as serious as a threshold. -/
def atLeast (s threshold : Severity) : Bool := threshold.rank ≤ s.rank

/-- The word for a severity. -/
def name : Severity → String
  | info => "info"
  | warning => "warning"
  | error => "error"

/-- The severity that a word names. -/
def ofName? : String → Option Severity
  | "info" => some info
  | "warning" => some warning
  | "error" => some error
  | _ => none

/-- What is said of a word that names no severity. -/
def unknownMessage (word : String) : String :=
  "unknown variant `" ++ word ++ "`, expected one of `info`, `warning`, `error`"

end Severity

end LoaderLint
