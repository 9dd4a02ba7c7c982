import LoaderLint.Analyzer.Basic
import LoaderLint.Report
import LoaderLint.Text.Utf8

/-!
# Runs

A run discovers the files of a project and lints them in the order of their paths.

The module introduces:

* `Entry`, `Analyzer.discover` — what a search comes across, and the files among it that are
  linted;
* `Warning` — what a run has to say besides its findings;
* `Outcome`, `Analyzer.run` — what comes out of a run.

## References

* The specification of amd-lint, §10.4: `analyze` is `Analyzer.run` here, and the discovery of
  files is `Analyzer.discover`.
-/

namespace LoaderLint

/-- A file or directory that a search comes across. -/
structure Entry where
  /-- Its path. -/
  path : Path
  /-- The bytes of a regular file; nothing for all else. -/
  content : Option (List UInt8)
deriving DecidableEq, Repr, Inhabited

/-- A regular file. -/
structure SourceFile where
  /-- Its path. -/
  path : Path
  /-- Its bytes. -/
  bytes : List UInt8
deriving DecidableEq, Repr, Inhabited

/-- The regular file that an entry is. -/
def Entry.file? (e : Entry) : Option SourceFile := e.content.map (⟨e.path, ·⟩)

/-- The text of a file, in which a replacement character stands for bytes that are none. -/
def SourceFile.text (f : SourceFile) : String := String.ofList (Text.Utf8.decode f.bytes)

/-- Whether a path is before another one or equal to it. -/
def SourceFile.precedes (f g : SourceFile) : Bool := (f.path.compare g.path).isLE

namespace Analyzer

/-- Whether the extension of a path is one of the configured ones. -/
def hasListedExtension (a : Analyzer) (path : Path) : Bool :=
  path.extension?.any a.config.analyzer.extensions.contains

/-- Whether a pattern leaves the path out. -/
def isExcluded (a : Analyzer) (path : Path) : Bool :=
  a.excluded.any (·.accepts (path.relativeTo a.root).spelling)

/-- Whether the patterns take the path in. -/
def isIncluded (a : Analyzer) (path : Path) : Bool :=
  a.included.isEmpty || a.included.any (·.accepts (path.relativeTo a.root).spelling)

/-- Whether the file at the path is linted. -/
def wants (a : Analyzer) (path : Path) : Bool :=
  a.hasListedExtension path && !a.isExcluded path && a.isIncluded path

/-- The files that are linted, in the order of their paths. -/
def discover (a : Analyzer) (entries : List Entry) : List SourceFile :=
  ((entries.filterMap Entry.file?).filter (a.wants ·.path)).mergeSort SourceFile.precedes

end Analyzer

/-- What a run has to say besides its findings. -/
inductive Warning where
  /-- A file is no UTF-8. -/
  | notUtf8 (path : Path)
  /-- A file is no program. -/
  | notParsed (path : Path)
  /-- A name is that of no rule. -/
  | unknownRule (name : String)
deriving DecidableEq, Repr, Inhabited

/-- The text of a warning. -/
def Warning.message : Warning → String
  | notUtf8 path => path.spelling ++ " is not valid UTF-8, decoding lossily"
  | notParsed path => "Failed to parse " ++ path.spelling
  | unknownRule name => "Unknown rule: " ++ name

/-- What comes out of a run: a report, or the file that ended it. -/
structure Outcome where
  /-- The warnings, in the order in which they arose. -/
  warnings : List Warning
  /-- The report, or the path of the file that is no program. -/
  result : Except Path Report
deriving Inhabited

/-- The outcome with the findings of one more file before its own. -/
def Outcome.adding (found : List Finding) (o : Outcome) : Outcome :=
  { o with result := o.result.map fun r => ⟨found ++ r.findings, r.filesChecked + 1⟩ }

/-- The outcome with more warnings before its own. -/
def Outcome.warning (warnings : List Warning) (o : Outcome) : Outcome :=
  { o with warnings := warnings ++ o.warnings }

/-- The warning that a file is no UTF-8. -/
def SourceFile.warnings (f : SourceFile) : List Warning :=
  if Text.Utf8.isUtf8 f.bytes then [] else [.notUtf8 f.path]

namespace Analyzer

/-- What comes out of linting files one after the other. A file that is no program is passed over
with a warning, or ends the run. -/
def lintAll (a : Analyzer) : List SourceFile → Outcome
  | [] => ⟨[], .ok .empty⟩
  | f :: rest =>
    match a.lint? f.path f.text with
    | some found => ((a.lintAll rest).adding found).warning f.warnings
    | none =>
      let warnings := f.warnings ++ [.notParsed f.path]
      if a.strict then ⟨warnings, .error f.path⟩ else (a.lintAll rest).warning warnings

/-- What comes out of a run over the entries that a search comes across. -/
def run (a : Analyzer) (entries : List Entry) : Outcome :=
  let o := a.lintAll (a.discover entries)
  { o with result := o.result.map Report.sorted }

end Analyzer

end LoaderLint
