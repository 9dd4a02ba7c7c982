/-!
# Positions in a source text

A position counts bytes of the UTF-8 text from its start, lines from one, and bytes from the start
of the line, also from one. Only a line feed starts a new line.

The module introduces:

* `Position` — a place between two characters, moved forward one character at a time by
  `Position.after`;
* `Span` — the stretch of text from a position to a later byte offset.

## References

* The specification of amd-lint, §10.1: `start_line`, `start_column` and `byte_range` of a node.
-/

namespace LoaderLint.Script

/-- A place in a source text. -/
structure Position where
  /-- The number of bytes before the place. -/
  offset : Nat
  /-- The number of the line, counted from one. -/
  line : Nat
  /-- The number of bytes between the start of the line and the place, plus one. -/
  column : Nat
deriving DecidableEq, Repr, Inhabited

/-- The start of a text. -/
def Position.start : Position := ⟨0, 1, 1⟩

/-- The place behind the character `c` that stands at `p`. -/
def Position.after (p : Position) (c : Char) : Position :=
  if c = '\n' then ⟨p.offset + 1, p.line + 1, 1⟩
  else ⟨p.offset + c.utf8Size, p.line, p.column + c.utf8Size⟩

/-- A stretch of a source text. -/
structure Span where
  /-- Where the stretch begins. -/
  start : Position
  /-- The byte offset of the first byte behind the stretch. -/
  stop : Nat
deriving DecidableEq, Repr, Inhabited

/-- The number of bytes of a stretch. -/
def Span.length (s : Span) : Nat := s.stop - s.start.offset

end LoaderLint.Script
