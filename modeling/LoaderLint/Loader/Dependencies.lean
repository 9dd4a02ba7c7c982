import LoaderLint.Script.StringValue

/-!
# Dependency lists

The names that an argument lists, where the source shows how many there are.

## References

* The specification of amd-lint, §4.2: `DependencyResolution` is `Dependencies` here, and its
  `resolve` is `Dependencies.of`.
-/

namespace LoaderLint

open Script (Node)

/-- The dependencies that an argument names. -/
inductive Dependencies where
  /-- One entry per dependency: its name if the source spells it, nothing otherwise. -/
  | known (names : List (Option String))
  /-- The source does not show how many there are. -/
  | unknown
deriving DecidableEq, Repr, Inhabited

namespace Dependencies

/-- Whether a slot of an array holds a spread. -/
def isSpread (slot : Option Node) : Bool :=
  match slot with
  | some n => n.kind = .spread
  | none => false

/-- The dependencies that an argument names. An array names one per slot unless a spread is among
them, and a string names itself. -/
def of (n : Node) : Dependencies :=
  match n.kind with
  | .array =>
    if n.elements.any isSpread then .unknown
    else .known (n.elements.map (·.bind Node.stringValue?))
  | .string => .known [n.stringValue?]
  | _ => .unknown

/-- How many dependencies there are, if that is known. -/
def count? : Dependencies → Option Nat
  | known names => some names.length
  | unknown => none

end Dependencies

end LoaderLint
