import LoaderLint.Directive
import LoaderLint.Finding
import LoaderLint.Script.Program

/-!
# Reporting findings

A rule asks for findings at nodes. The first request at a node decides: it becomes a finding, or
nothing where a directive permits it, or a warning where the directive lacks the reason that the
rule wants. Later requests at the same node change nothing.

The module introduces:

* `Profile` — what a rule tells about itself in each of its findings;
* `Subject` — the file being looked at;
* `Request`, `Request.outcome` — a request for a finding, and what becomes of it;
* `Sink`, `Sink.report` — the findings recorded so far.

## References

* The specification of amd-lint, §4.5 and §10.3: the report sink `Reporter` is `Sink` here, with
  `report` and `report_with_label` in one `Sink.report`; `FileContext` is `Subject`, and what a
  sink takes over from its rule is `Profile`.
-/

namespace LoaderLint

open Script (Node Program)

/-- What a rule tells about itself in each of its findings. -/
structure Profile where
  /-- Its code. -/
  code : String
  /-- Its name. -/
  name : String
  /-- How serious its findings are. -/
  severity : Severity
  /-- Whether a directive that permits a finding has to say why. -/
  requiresReason : Bool
deriving DecidableEq, Repr, Inhabited

/-- The file being looked at. -/
structure Subject where
  /-- Its path as findings show it. -/
  file : Path
  /-- Its text, in which directives are looked for. -/
  content : String
  /-- The root of its tree. -/
  root : Node
deriving Inhabited

/-- The file at `path` below `base` with the program that it holds. -/
def Subject.of (path base : Path) (p : Program) : Subject :=
  ⟨path.relativeTo base, p.source, p.root⟩

/-- A request for a finding. -/
structure Request where
  /-- The node that the finding is at. -/
  node : Node
  /-- What is wrong. -/
  message : String
  /-- Another node that it refers to, with what is said of it. -/
  label : Option (Node × String)
deriving Inhabited

namespace Subject

/-- The directive that permits findings of the rule at a node: on the lines of the node, else on
those of the statement around it. -/
def permission? (s : Subject) (rule : String) (n : Node) : Option Directive :=
  (Directive.above? s.content n.line rule).orElse fun _ =>
    let line := s.root.statementLine n
    if line = n.line then none else Directive.above? s.content line rule

end Subject

namespace Profile

/-- The finding that a request asks for. -/
def finding (p : Profile) (s : Subject) (r : Request) : Finding where
  code := p.code
  rule := p.name
  severity := p.severity
  location := .ofNode s.file r.node
  message := r.message
  suggestion := none
  labels := r.label.toList.map fun (n, message) => ⟨.ofNode s.file n, message⟩
  locked := false

/-- The warning that a directive at a node lacks the reason it needs. -/
def missingReason (p : Profile) (s : Subject) (n : Node) : Finding where
  code := p.code
  rule := p.name
  severity := .warning
  location := .ofNode s.file n
  message := "Allow directive for '" ++ p.name ++ "' is missing required reason"
  suggestion := some "Add reason=\"...\" to explain why this exception is necessary"
  labels := []
  locked := true

end Profile

/-- What becomes of the first request at a node. -/
def Request.outcome (p : Profile) (s : Subject) (r : Request) : Option Finding :=
  match s.permission? p.name r.node with
  | none => some (p.finding s r)
  | some directive =>
    if p.requiresReason ∧ directive.reason = none then some (p.missingReason s r.node) else none

/-- The findings recorded so far. -/
structure Sink where
  /-- The numbers of the nodes at which a finding was asked for. -/
  seen : List Nat
  /-- The findings, in the order in which they were recorded. -/
  findings : List Finding
deriving DecidableEq, Repr, Inhabited

namespace Sink

/-- No findings. -/
def empty : Sink := ⟨[], []⟩

/-- Records what becomes of a request. -/
def report (p : Profile) (s : Subject) (sink : Sink) (r : Request) : Sink :=
  if sink.seen.contains r.node.id then sink
  else ⟨r.node.id :: sink.seen, sink.findings ++ (r.outcome p s).toList⟩

/-- Records what becomes of requests one after the other. -/
def reportAll (p : Profile) (s : Subject) (requests : List Request) : Sink :=
  requests.foldl (report p s) empty

end Sink

end LoaderLint
