/-!
# Parameters of callbacks

A callback should take one parameter per dependency. A policy tells which dependencies at the end
of the list may go without one.

The module introduces:

* `SurplusPolicy`, `SurplusPolicy.tolerates` — the dependencies that need no parameter;
* `Verdict`, `Verdict.judge` — the comparison of dependencies and parameters;
* `Verdict.message?`, `countCaption` — what is said of it.

## References

* The specification of amd-lint, §4.3: the comparator `judge` of `ArityVerdict` is `Verdict.judge`
  here, and `declared_label` is `countCaption`;
* §4.4: the policy `ExtraDependencies` of the option `allowExtraDependencies` is `SurplusPolicy`
  here.
-/

namespace LoaderLint

/-- Which dependencies may go without a parameter. -/
inductive SurplusPolicy where
  /-- None. -/
  | forbidden
  /-- All. -/
  | allowed
  /-- Those with the listed names, which are in increasing order. -/
  | allowList (names : List String)
deriving DecidableEq, Repr, Inhabited

namespace SurplusPolicy

/-- The name put in its place among names in increasing order; once is enough. -/
def insertName (name : String) : List String → List String
  | [] => [name]
  | other :: rest =>
    if name = other then other :: rest
    else if name < other then name :: other :: rest
    else other :: insertName name rest

/-- The policy that lists the names, whatever their order and repetition. -/
def ofNames (names : List String) : SurplusPolicy :=
  allowList (names.foldl (fun sorted name => insertName name sorted) [])

/-- Whether all the dependencies may go without a parameter. One without a name may not be
listed. -/
def tolerates (p : SurplusPolicy) (names : List (Option String)) : Bool :=
  match p with
  | forbidden => false
  | allowed => true
  | allowList listed =>
    names.all fun
      | some name => listed.contains name
      | none => false

end SurplusPolicy

/-- The comparison of dependencies and parameters. -/
inductive Verdict where
  /-- They fit. -/
  | ok
  /-- There are fewer parameters than dependencies that need one. -/
  | tooFew (expected actual : Nat)
  /-- There are more parameters than dependencies. -/
  | tooMany (expected actual : Nat)
deriving DecidableEq, Repr, Inhabited

namespace Verdict

/-- Compares the dependencies with the number of parameters. The dependencies behind the last
parameter have to be tolerated. -/
def judge (names : List (Option String)) (actual : Nat) (policy : SurplusPolicy) : Verdict :=
  if names.length < actual then tooMany names.length actual
  else if actual < names.length ∧ !policy.tolerates (names.drop actual) then
    tooFew names.length actual
  else ok

/-- The two counts as they are shown. -/
def counts (expected actual : Nat) : String :=
  "(expected " ++ toString expected ++ ", found " ++ toString actual ++ ")."

/-- What is wrong, if anything is. -/
def message? : Verdict → Option String
  | ok => none
  | tooFew expected actual =>
    some ("Not enough parameters in callback " ++ counts expected actual)
  | tooMany expected actual =>
    some ("Too many parameters in callback " ++ counts expected actual)

end Verdict

/-- What is said of a list of `n` dependencies. -/
def countCaption (n : Nat) : String :=
  if n = 1 then "1 dependency declared here" else toString n ++ " dependencies declared here"

end LoaderLint
