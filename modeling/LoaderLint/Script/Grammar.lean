import LoaderLint.Script.Grammar.Statement

/-!
# The grammar

The rules tied together: a goal is read by its rule, which reads the goals it needs with one step
less. Every chain of goals takes a character after a few steps, so a number of steps in proportion
to the length of the text is enough for any nesting.

The module introduces:

* `Grammar.rule`, `Grammar.read` — the rule of a goal, and the goal read in a bounded number of
  steps;
* `parse?` — the tree of a source text, or nothing if it has a syntax error.

## References

* The specification of amd-lint, §10.1: the grammar `tree-sitter-javascript` behind `parse` of
  `SourceFile`, which gives no tree where there is an error.
-/

namespace LoaderLint.Script

namespace Grammar

open Reader

/-- The rule of a goal, given readers for all goals. -/
def rule (read : Goal → Reader Node) : Goal → Reader Node
  | .statement => statement read
  | .block => block read
  | .expression context => read (.operators 0 context)
  | .operators level context => operators read level context
  | .operand context => operand read context
  | .constructed => constructed read
  | .element => element read

/-- A goal read in at most `steps` nested steps. -/
def read : Nat → Goal → Reader Node
  | 0, _ => failure
  | steps + 1, goal => rule (read steps) goal

/-- A whole source: the line that names an interpreter, if there is one, and statements. -/
def program (steps : Nat) : Reader Node :=
  enclose .program do
    gap true
    match ← rest with
    | '#' :: '!' :: line =>
      emit (← leaf .interpreterLine (2 + (line.takeWhile (· ≠ '\n')).length))
    | _ => pure ()
    statementsUntil (read steps) List.isEmpty

end Grammar

/-- The tree of a source text, or nothing if the text has a syntax error. The root starts at the
first token or comment, its nodes are numbered in pre-order, and no text with a null character has
one. -/
def parse? (source : String) : Option Node :=
  let cs := source.toList
  if cs.contains '\x00' then none
  else
    let limit := cs.length + 2
    let start := (Cursor.mk cs .start).skipBlanks
    match (Grammar.program (8 * limit)).run ⟨start, [], limit⟩ with
    | some (root, _) => if root.patternsResolved then some root.numbered else none
    | none => none

end LoaderLint.Script
