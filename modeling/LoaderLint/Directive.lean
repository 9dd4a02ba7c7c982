import LoaderLint.Text.Blank
import LoaderLint.Text.Split

/-!
# Allow directives

A comment of the form `amd-lint: allow(names) reason="text"` permits findings of the named rules on
its own line and on the line below it. It is looked for in the text of a line: its opener has to
stand directly before it, blanks aside.

The module introduces:

* `Directive`, `Directive.parse?` — the directive of a line;
* `Directive.covers` — whether a directive permits a rule;
* `Directive.find?`, `Directive.above?` — the directive that decides about a line.

## References

* The specification of amd-lint, §10.3, inline suppression: `AllowDirective` is `Directive` here,
  `parse_allow_directive` is `Directive.parse?`, and `check_allow_with_reason` is
  `Directive.above?`.
-/

namespace LoaderLint

/-- A permission of findings. -/
structure Directive where
  /-- The rules that it names. -/
  rules : List String
  /-- Why they are permitted. -/
  reason : Option String
deriving DecidableEq, Repr, Inhabited

namespace Directive

/-- The word that starts a directive. -/
def keyword : List Char := "amd-lint:".toList

/-- Whether a text ends with the opener of a comment, blanks aside. -/
def opensComment (before : List Char) : Bool :=
  let opener := Text.trimEnd before
  (Text.dropEnd? "//".toList opener).isSome || (Text.dropEnd? "/*".toList opener).isSome ||
    (Text.dropEnd? "/**".toList opener).isSome

/-- The entries of a list with commas, without blanks around them and without empty ones. -/
def entries (body : List Char) : List String :=
  (((body.splitOn ',').map Text.trim).filter (!·.isEmpty)).map String.ofList

/-- The reason in the text behind the list of rules. -/
def reasonIn? (tail : List Char) : Option String := do
  let value ← Text.dropStart? "reason=".toList (Text.trim tail)
  let quoted ← Text.dropStart? ['"'] (Text.trim value)
  let (reason, _) ← Text.cutAt? ['"'] quoted
  return String.ofList reason

/-- What follows the keyword without blanks at its ends and without the end of a comment. -/
def clause (behind : List Char) : List Char :=
  let text := Text.trim behind
  Text.trimEnd ((Text.dropEnd? "*/".toList text).getD text)

/-- The directive of a line: behind the first occurrence of the keyword stand `allow(`, at least
one name, `)`, and a reason if it has one. -/
def parse? (line : List Char) : Option Directive := do
  let (before, behind) ← Text.cutAt? keyword line
  if opensComment before then
    let list ← Text.dropStart? "allow(".toList (clause behind)
    let (body, tail) ← Text.cutAt? [')'] (Text.trim list)
    let rules := entries body
    if rules.isEmpty then none else some ⟨rules, reasonIn? tail⟩
  else none

/-- Whether the directive permits findings of the rule, by its name or by the word for all
rules. -/
def covers (d : Directive) (rule : String) : Bool :=
  d.rules.contains rule || d.rules.contains "all"

/-- The directive on the first of the lines that permits the rule. Numbers of lines that do not
exist are skipped. -/
def find? (lines : List (List Char)) (rule : String) (numbers : List Nat) : Option Directive :=
  numbers.findSome? fun number =>
    ((Text.lineAt? lines number).bind parse?).filter (·.covers rule)

/-- The directive that decides about a line: on the line above it or on the line itself. -/
def above? (content : String) (line : Nat) (rule : String) : Option Directive :=
  find? (Text.lines content.toList) rule [line - 1, line]

end Directive

end LoaderLint
