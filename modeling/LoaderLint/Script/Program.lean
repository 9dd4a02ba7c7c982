import LoaderLint.Script.Grammar
import LoaderLint.Script.StringValue

/-!
# Programs

A source text together with its tree.

The module introduces:

* `Program`, `Program.parse?` — a text that has no syntax error, with its tree;
* `Program.slice` — the stretch of the text that a node covers;
* `Program.visits`, `Program.statementLine` — the traversal and the lines of its statements.

## References

* The specification of amd-lint, §10.1: `SourceFile` is `Program` here, and its `parse` is
  `Program.parse?`.
-/

namespace LoaderLint.Script

/-- A source text with its tree. -/
structure Program where
  /-- The source text. -/
  source : String
  /-- The root of the tree. -/
  root : Node
deriving Inhabited

/-- The characters behind the first `n` bytes. -/
def dropBytes : Nat → List Char → List Char
  | _, [] => []
  | n, c :: rest => if n = 0 then c :: rest else dropBytes (n - c.utf8Size) rest

/-- The characters among the first `n` bytes. -/
def takeBytes : Nat → List Char → List Char
  | _, [] => []
  | n, c :: rest => if n = 0 then [] else c :: takeBytes (n - c.utf8Size) rest

namespace Program

/-- The program of a source text, or nothing if the text has a syntax error. -/
def parse? (source : String) : Option Program :=
  (Script.parse? source).map fun root => ⟨source, root⟩

/-- The stretch of the source that a span covers. -/
def slice (p : Program) (span : Span) : String :=
  String.ofList (takeBytes span.length (dropBytes span.start.offset p.source.toList))

/-- The calls, declarators and assignments in pre-order. -/
def visits (p : Program) : List Visit := p.root.visits

/-- The calls in pre-order. -/
def calls (p : Program) : List Node := p.root.calls

/-- The line on which the statement around a node starts. -/
def statementLine (p : Program) (n : Node) : Nat := p.root.statementLine n

/-- A one-line summary of the source: its number of bytes. -/
def summary (p : Program) : String :=
  "SourceFile \x7b len: " ++ toString p.source.utf8ByteSize ++ ", .. \x7d"

/-- A one-line summary of the root: where the program starts. -/
def rootSummary (p : Program) : String :=
  let start := p.root.span.start
  "program@" ++ toString start.line ++ ":" ++ toString start.column

end Program

end LoaderLint.Script
