import LoaderLint.Config.Basic
import LoaderLint.Rule

/-!
# Selecting rules

The rules that a run uses: those of a preset, or those that it names. Each is built from what the
configuration says under its name.

The module introduces:

* `Preset` — the presets with their rules;
* `policyOf`, `Rule.ofConfig` — a rule with the options that a configuration gives it;
* `selectNamed`, `selectConfigured` — the rules of a run;
* `unknownNames` — the names that are passed over.

## References

* The specification of amd-lint, §12.4: `rules_by_name` and `rules_from_config` are `selectNamed`
  and `selectConfigured` here, `build_rule` is `Rule.ofConfig`, and `Preset` keeps its name;
* §11.3: `options_as` is `RuleId.decodeOptions` here.
-/

namespace LoaderLint

open Toml (Value)

/-- A set of rules under a name. -/
inductive Preset where
  /-- All rules. -/
  | recommended
  /-- The parameters of callbacks only. -/
  | minimal
deriving DecidableEq, Repr, Inhabited

namespace Preset

/-- The presets. -/
def all : List Preset := [recommended, minimal]

/-- The name of a preset. -/
def name : Preset → String
  | recommended => "recommended"
  | minimal => "minimal"

/-- The preset with the name. -/
def ofName? (text : String) : Option Preset := all.find? (·.name = text)

/-- The rules of a preset. -/
def rules : Preset → List RuleId
  | recommended => RuleId.all
  | minimal => [.functionArity]

/-- The preset that a configuration names; without a name it is the recommended one. -/
def ofConfig (c : Config) : Except ConfigError Preset :=
  match c.preset with
  | none => .ok recommended
  | some text =>
    match ofName? text with
    | some p => .ok p
    | none => .error (.invalid ("unknown preset '" ++ text ++ "'"))

end Preset

/-- The first name that is equal to an earlier one. -/
def firstRepeated? : List String → List String → Option String
  | _, [] => none
  | seen, name :: rest =>
    if seen.contains name then some name else firstRepeated? (name :: seen) rest

/-- The policy that lists names, each of them once. -/
def SurplusPolicy.ofDistinct (names : List String) : Except OptionError SurplusPolicy :=
  match firstRepeated? [] names with
  | some name => .error (.duplicateName name)
  | none => .ok (.ofNames names)

/-- The policy that a truth value stands for. -/
def SurplusPolicy.ofFlag (b : Bool) : SurplusPolicy := if b then .allowed else .forbidden

/-- The text of a string. -/
def stringOf? : Value → Option String
  | .string text => some text
  | _ => none

/-- The policy that a value of a document stands for. -/
def policyOf (v : Value) : Except OptionError SurplusPolicy :=
  match v with
  | .boolean b => .ok (.ofFlag b)
  | v =>
    match v.elements?.bind (·.mapM stringOf?) with
    | some names => SurplusPolicy.ofDistinct names
    | none => .error .policyType

/-- The names of the only option of the rule on parameters. -/
def policyKeys : List String := ["allowExtraDependencies", "allow_extra_dependencies"]

/-- The policy that options give, where `given` is the one that they gave already. -/
def policyFrom (given : Option SurplusPolicy) : Toml.Table → Except OptionError SurplusPolicy
  | [] => .ok (given.getD .forbidden)
  | (key, v) :: rest => do
    if policyKeys.contains key then
      if given.isSome then .error (.duplicateField "allowExtraDependencies")
      else policyFrom (some (← policyOf v)) rest
    else .error (.unknownField key policyKeys)

/-- That there are no options. -/
def noOptions : Toml.Table → Except OptionError Unit
  | [] => .ok ()
  | (key, _) :: _ => .error (.unknownField key [])

/-- The policy that the options of a rule give. -/
def RuleId.decodeOptions (id : RuleId) (options : Toml.Table) : Except OptionError SurplusPolicy :=
  match id with
  | .functionArity => policyFrom none options
  | _ => (noOptions options).map fun _ => .forbidden

/-- A rule with the options that a configuration gives it. -/
def Rule.ofConfig (id : RuleId) (c : Config) : Except ConfigError Rule :=
  let options := ((c.section? id.name).map RuleSection.options).getD []
  match id.decodeOptions options with
  | .ok policy => .ok ⟨id, id.defaultSeverity, policy⟩
  | .error cause => .error (.invalidOptions id.name cause)

/-- The rules with the names or codes, in their order; names of no rule are passed over. -/
def selectNamed : List String → Config → Except ConfigError (List Rule)
  | [], _ => .ok []
  | name :: rest, c => do
    match RuleId.ofName? name with
    | some id =>
      let rule ← Rule.ofConfig id c
      return rule :: (← selectNamed rest c)
    | none => selectNamed rest c

/-- The names that are those of no rule, up to a rule whose options do not fit. -/
def unknownNames : List String → Config → List String
  | [], _ => []
  | name :: rest, c =>
    match RuleId.ofName? name with
    | some id => if (Rule.ofConfig id c).isOk then unknownNames rest c else []
    | none => name :: unknownNames rest c

/-- The rules of the preset that a configuration names. -/
def selectConfigured (c : Config) : Except ConfigError (List Rule) := do
  let preset ← Preset.ofConfig c
  selectNamed (preset.rules.map RuleId.name) c

end LoaderLint
