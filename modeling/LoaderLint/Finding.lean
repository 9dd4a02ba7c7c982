import LoaderLint.Path
import LoaderLint.Script.Node
import LoaderLint.Severity

/-!
# Findings

What a rule found, and where.

The module introduces:

* `Location`, `Label`, `Finding` — a finding with its place and the places it refers to;
* `Finding.line`, `Finding.block` — a finding in one line, and with its labels and its suggestion;
* `Diagnostic`, `Finding.diagnostic` — a finding as spans with captions.

## References

* The specification of amd-lint, §10.5: `Violation` is `Finding` here, `Location` and `Label` keep
  their names, a `Suggestion` is its text, and `ViolationDiagnostic` is `Diagnostic`.
-/

namespace LoaderLint

/-- A stretch of a file. -/
structure Location where
  /-- The file. -/
  file : Path
  /-- The line on which the stretch starts, counted from one. -/
  line : Nat
  /-- The byte of that line at which it starts, counted from one. -/
  column : Nat
  /-- The byte of the file at which it starts. -/
  offset : Nat
  /-- Its number of bytes. -/
  length : Nat
deriving DecidableEq, Repr, Inhabited

/-- The stretch of a file that a node covers. -/
def Location.ofNode (file : Path) (n : Script.Node) : Location :=
  ⟨file, n.span.start.line, n.span.start.column, n.span.start.offset, n.span.length⟩

/-- A place that a finding refers to, with what is said of it. -/
structure Label where
  /-- The place. -/
  location : Location
  /-- What is said of it. -/
  message : String
deriving DecidableEq, Repr, Inhabited

/-- What a rule found. -/
structure Finding where
  /-- The code of the rule. -/
  code : String
  /-- The name of the rule. -/
  rule : String
  /-- How serious the finding is. -/
  severity : Severity
  /-- Where it is. -/
  location : Location
  /-- What is wrong. -/
  message : String
  /-- How to mend it. -/
  suggestion : Option String
  /-- The places it refers to. -/
  labels : List Label
  /-- Whether a configured severity leaves the finding alone. -/
  locked : Bool
deriving DecidableEq, Repr, Inhabited

namespace Location

/-- The file, the line and the column. -/
def place (l : Location) : String :=
  l.file.spelling ++ ":" ++ toString l.line ++ ":" ++ toString l.column

end Location

/-- The part of a block that says what a label says. -/
def Label.note (l : Label) : String :=
  "  = note: " ++ l.message ++ " (" ++ toString l.location.line ++ ":" ++
    toString l.location.column ++ ")\n"

namespace Finding

/-- A finding in one line. -/
def line (f : Finding) : String :=
  f.location.place ++ ": " ++ f.severity.name ++ " [" ++ f.code ++ "] " ++ f.message

/-- A finding with its labels and its suggestion, a line each. -/
def block (f : Finding) : String :=
  f.code ++ " " ++ f.rule ++ " at " ++ f.location.place ++ "\n" ++
    "  " ++ f.severity.name ++ ": " ++ f.message ++ "\n" ++
    String.join (f.labels.map Label.note) ++
    (match f.suggestion with
      | some text => "  = help: " ++ text ++ "\n"
      | none => "")

end Finding

/-- A caption of a span. -/
structure Caption where
  /-- The first byte of the span. -/
  offset : Nat
  /-- Its number of bytes. -/
  length : Nat
  /-- What is written beside it. -/
  text : String
deriving DecidableEq, Repr, Inhabited

/-- A finding as it is shown beside its source. -/
structure Diagnostic where
  /-- The headline. -/
  message : String
  /-- How to mend it. -/
  help : Option String
  /-- The captions, that of the finding itself first. -/
  captions : List Caption
deriving DecidableEq, Repr, Inhabited

/-- The finding as it is shown beside its source. -/
def Finding.diagnostic (f : Finding) : Diagnostic where
  message := "[" ++ f.code ++ "] " ++ f.message
  help := f.suggestion
  captions := ⟨f.location.offset, f.location.length, f.rule⟩ ::
    f.labels.map fun l => ⟨l.location.offset, l.location.length, l.message⟩

end LoaderLint
