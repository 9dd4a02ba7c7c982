import LoaderLint.Finding

/-!
# Reports

What a run found.

The module introduces:

* `Report` — the findings of a run and the number of files it looked at;
* `Report.sorted`, `Finding.precedes` — the findings in the order of their places;
* `Report.hasAtLeast`, `Report.counts` — how serious they are;
* `Report.summary`, `Report.text`, `Report.compact` — the report in words.

## References

* The specification of amd-lint, §10.5: `LintResult` is `Report` here; `sort_violations`,
  `has_violations_at` and `count_by_severity` are `Report.sorted`, `Report.hasAtLeast` and
  `Report.counts`;
* §12.5, output formats: `render_text` and `render_compact` are `Report.text` and `Report.compact`.
-/

namespace LoaderLint

/-- What a run found. -/
structure Report where
  /-- The findings. -/
  findings : List Finding
  /-- How many files were looked at. -/
  filesChecked : Nat
deriving DecidableEq, Repr, Inhabited

/-- The order of places: by file, component by component, then by line, then by column. -/
def Location.compare (a b : Location) : Ordering :=
  (a.file.compare b.file).then
    ((Ord.compare a.line b.line).then (Ord.compare a.column b.column))

/-- Whether a finding may stand before another one. -/
def Finding.precedes (a b : Finding) : Bool := (a.location.compare b.location).isLE

namespace Report

/-- Nothing found, nothing looked at. -/
def empty : Report := ⟨[], 0⟩

/-- The report with its findings in the order of their places. Findings at the same place keep
their order. -/
def sorted (r : Report) : Report := { r with findings := r.findings.mergeSort Finding.precedes }

/-- Whether there is a finding at least as serious as the threshold. -/
def hasAtLeast (r : Report) (threshold : Severity) : Bool :=
  r.findings.any (·.severity.atLeast threshold)

/-- Whether there is an error. -/
def hasErrors (r : Report) : Bool := r.hasAtLeast .error

/-- How many findings of the severity there are. -/
def count (r : Report) (s : Severity) : Nat := r.findings.countP (·.severity = s)

/-- How many errors, warnings and remarks there are. -/
def counts (r : Report) : Nat × Nat × Nat := (r.count .error, r.count .warning, r.count .info)

/-- The numbers of a report in one line. -/
def summary (r : Report) : String :=
  "Found " ++ toString (r.count .error) ++ " error(s), " ++ toString (r.count .warning) ++
    " warning(s), " ++ toString (r.count .info) ++ " info(s) in " ++ toString r.filesChecked ++
    " file(s)"

end Report

/-- A colour of a terminal. -/
inductive Colour where
  /-- Red. -/
  | red
  /-- Green. -/
  | green
  /-- Yellow. -/
  | yellow
  /-- Blue. -/
  | blue
deriving DecidableEq, Repr, Inhabited

namespace Colour

/-- The number of a colour. -/
def code : Colour → String
  | red => "31"
  | green => "32"
  | yellow => "33"
  | blue => "34"

/-- A text in a colour. -/
def paint (c : Colour) (text : String) : String :=
  "\x1b[" ++ c.code ++ "m" ++ text ++ "\x1b[0m"

end Colour

/-- The colour of a severity. -/
def Severity.colour : Severity → Colour
  | .error => .red
  | .warning => .yellow
  | .info => .blue

/-- The text with the first occurrence of `old` replaced by `new`. -/
def replaceFirst (old new text : String) : String :=
  match Text.cutAt? old.toList text.toList with
  | some (before, behind) => String.ofList before ++ new ++ String.ofList behind
  | none => text

/-- A finding over several lines, the first mention of its severity in its colour. -/
def Finding.colouredBlock (f : Finding) : String :=
  replaceFirst ("  " ++ f.severity.name ++ ": ")
    ("  " ++ f.severity.colour.paint f.severity.name ++ ": ") f.block

namespace Report

/-- The colour of a summary: that of the most serious finding, or green. -/
def summaryColour (r : Report) : Colour :=
  if r.count .error > 0 then .red
  else if r.count .warning > 0 then .yellow
  else .green

/-- The last line of a report. -/
def summaryLine (coloured : Bool) (r : Report) : String :=
  (if coloured then r.summaryColour.paint r.summary else r.summary) ++ "\n"

/-- The report with a block for each finding and a summary. -/
def text (coloured : Bool) (r : Report) : String :=
  String.join (r.findings.map fun f => (if coloured then f.colouredBlock else f.block) ++ "\n") ++
    r.summaryLine coloured

/-- The report with a line for each finding. -/
def compact (r : Report) : String := String.join (r.findings.map fun f => f.line ++ "\n")

end Report

end LoaderLint
