import LoaderLint.Loader.Arity
import LoaderLint.Loader.Call
import LoaderLint.Loader.Dependencies
import LoaderLint.Sink

/-!
# Rules

The rules of the linter. A rule looks at the calls, declarators and assignments of a file in
pre-order and asks for a finding at some of them.

The module introduces:

* `Rule` — the rules with their settings;
* `RuleId` — the rules without them, with their names, codes and descriptions;
* `Rule.requests`, `Rule.check` — what a rule asks for in a file, and what it finds there.

## References

* The specification of amd-lint, §12.1 to §12.3: `AmdFunctionArity`, `NoNamedDefine` and
  `NoAssignRequire` are the three members of `RuleId` here; `is_named_define` and
  `is_global_require` are `isNamedDefine` and `isLoaderTarget`;
* §10.4: the methods of `Rule` are `Rule.profile` and `Rule.check`.
-/

namespace LoaderLint

open Script (Node Visit)

/-- The rules. -/
inductive RuleId where
  /-- Callbacks take one parameter per dependency. -/
  | functionArity
  /-- Modules are defined without a name. -/
  | namedDefine
  /-- The loader is not assigned to. -/
  | assignRequire
deriving DecidableEq, Repr, Inhabited

namespace RuleId

/-- The rules in the order of their codes. -/
def all : List RuleId := [functionArity, namedDefine, assignRequire]

/-- The name of a rule. -/
def name : RuleId → String
  | functionArity => "amd-function-arity"
  | namedDefine => "no-named-define"
  | assignRequire => "no-assign-require"

/-- The code of a rule. -/
def code : RuleId → String
  | functionArity => "AMD001"
  | namedDefine => "AMD002"
  | assignRequire => "AMD003"

/-- What a rule is for. -/
def description : RuleId → String
  | functionArity => "Ensures AMD callbacks declare one parameter per dependency"
  | namedDefine => "Forbids the named module form of `define`"
  | assignRequire => "Forbids assignment to `require` or `window.require`"

/-- The rule with the name or code. -/
def ofName? (text : String) : Option RuleId :=
  all.find? fun r => r.name = text ∨ r.code = text

/-- How serious the findings of a rule are unless something else is said. -/
def defaultSeverity (_ : RuleId) : Severity := .error

end RuleId

/-- A rule with its settings. -/
structure Rule where
  /-- Which rule it is. -/
  id : RuleId
  /-- How serious its findings are. -/
  severity : Severity
  /-- Which dependencies may go without a parameter; only `RuleId.functionArity` looks at it. -/
  policy : SurplusPolicy
deriving DecidableEq, Repr, Inhabited

namespace Rule

/-- A rule with the settings it has unless something else is said. -/
def default (id : RuleId) : Rule := ⟨id, id.defaultSeverity, .forbidden⟩

/-- The name of the rule. -/
def name (r : Rule) : String := r.id.name

/-- Whether a directive that permits a finding has to say why: it does for errors. -/
def requiresReason (r : Rule) : Bool := r.severity = .error

/-- What the rule tells about itself in each of its findings. -/
def profile (r : Rule) : Profile := ⟨r.id.code, r.id.name, r.severity, r.requiresReason⟩

end Rule

/-- The request at a loader call whose callback does not fit its dependencies: at the callback,
with a label at the dependencies. -/
def arityRequest? (policy : SurplusPolicy) (call : Node) : Option Request := do
  let shape ← LoaderCall.of? call
  match Dependencies.of shape.dependencies with
  | .known names =>
    let message ← (Verdict.judge names shape.callback.parameters.length policy).message?
    return ⟨shape.callback, message, some (shape.dependencies, countCaption names.length)⟩
  | .unknown => none

/-- Whether a call defines a module with a name: a string and at least one more argument. -/
def isNamedDefine (call : Node) : Bool :=
  call.calleeName = some "define" &&
    match call.arguments with
    | first :: _ :: _ => first.kind = .string
    | _ => false

/-- The request at a call that defines a module with a name. -/
def namedDefineRequest? (call : Node) : Option Request :=
  if isNamedDefine call then some ⟨call, "Named module form of `define` is not allowed", none⟩
  else none

/-- Whether an assignment to the node assigns to the loader: to its name, or to its name as a
member of `window`. -/
def isLoaderTarget (n : Node) : Bool :=
  match n.kind with
  | .identifier => n.text = "require"
  | .member =>
    (n.field .object).bind Node.identifierName = some "window" &&
      (n.field .property).map Node.text = some "require"
  | _ => false

/-- Whether a declarator or an assignment gives the loader another value. -/
def assignsLoader : Visit → Bool
  | .call _ => false
  | .declarator n => (n.field .name).bind Node.identifierName = some "require"
  | .assignment n => (n.field .left).any isLoaderTarget

/-- The request at a declarator or assignment that gives the loader another value. -/
def assignRequireRequest? (v : Visit) : Option Request :=
  if assignsLoader v then some ⟨v.node, "Invalid assignment to `require`.", none⟩ else none

namespace Rule

/-- What the rule asks for at a node. -/
def request? (r : Rule) (v : Visit) : Option Request :=
  match r.id, v with
  | .functionArity, .call n => arityRequest? r.policy n
  | .namedDefine, .call n => namedDefineRequest? n
  | .assignRequire, v => assignRequireRequest? v
  | _, _ => none

/-- What the rule asks for in a file, in pre-order. -/
def requests (r : Rule) (s : Subject) : List Request := s.root.visits.filterMap r.request?

/-- What the rule finds in a file. -/
def check (r : Rule) (s : Subject) : List Finding :=
  (Sink.reportAll r.profile s (r.requests s)).findings

end Rule

end LoaderLint
