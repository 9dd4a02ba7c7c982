/-!
# Glob patterns

Patterns of paths, as the settings list them. `?` is one character and `*` any number of them,
slashes and dots included; `**` is any number of whole components and has to be a component itself;
brackets list characters.

The module introduces:

* `Glob`, `Glob.parse` — a pattern, read from its text;
* `Glob.Fault` — why a text is no pattern;
* `Glob.accepts` — whether a path fits a pattern.

## References

* The specification of amd-lint, §10.4, file discovery: the `include` and `exclude` globs.
-/

namespace LoaderLint

namespace Glob

/-- A part of a pattern. -/
inductive Token where
  /-- The character itself. -/
  | literal (c : Char)
  /-- Any one character. -/
  | anyChar
  /-- A character in one of the ranges, or in none of them where `negated` is set. -/
  | oneOf (negated : Bool) (ranges : List (Char × Char))
  /-- Any characters. -/
  | anyText
  /-- Any components. -/
  | anyComponents
deriving DecidableEq, Repr, Inhabited

/-- What is wrong with a text. -/
inductive Problem where
  /-- A bracket is not closed. -/
  | range
  /-- Two stars are not a component of their own. -/
  | recursive
  /-- There are more than two stars in a row. -/
  | stars
deriving DecidableEq, Repr, Inhabited

/-- What is said of a problem. -/
def Problem.message : Problem → String
  | range => "invalid range pattern"
  | recursive => "recursive wildcards must form a single path component"
  | stars => "wildcards are either regular `*` or recursive `**`"

/-- Why a text is no pattern. -/
structure Fault where
  /-- The character near which it is wrong, counted from zero. -/
  position : Nat
  /-- What is wrong. -/
  problem : Problem
deriving DecidableEq, Repr, Inhabited

/-- What is said of a fault. -/
def Fault.message (f : Fault) : String :=
  "Pattern syntax error near position " ++ toString f.position ++ ": " ++ f.problem.message

/-- An open bracket. -/
structure Bracket where
  /-- Where it was opened. -/
  position : Nat
  /-- Whether it starts with an exclamation mark. -/
  negated : Bool
  /-- The characters in it so far. -/
  members : List Char
deriving DecidableEq, Repr, Inhabited

/-- The ranges that the characters of a bracket list. A minus between two characters makes a range
of them. -/
def rangesOf : List Char → List (Char × Char)
  | low :: '-' :: high :: rest => (low, high) :: rangesOf rest
  | c :: rest => (c, c) :: rangesOf rest
  | [] => []

/-- The part of a pattern that a bracket is. -/
def Bracket.token (b : Bracket) : Token := .oneOf b.negated (rangesOf b.members)

/-- The parts of the rest of a pattern, from a position on. `bracket` is the one that is open, and
`fresh` tells whether the rest starts a component. The first character of a bracket never closes
it. -/
def scan (bracket : Option Bracket) (position : Nat) (fresh : Bool) :
    List Char → Except Fault (List Token)
  | [] =>
    match bracket with
    | some b => .error ⟨b.position, .range⟩
    | none => .ok []
  | c :: rest =>
    match bracket with
    | some b =>
      if c = ']' ∧ b.members ≠ [] then do
        return b.token :: (← scan none (position + 1) false rest)
      else if c = '!' ∧ b.members = [] ∧ !b.negated then
        scan (some { b with negated := true }) (position + 1) false rest
      else scan (some { b with members := b.members ++ [c] }) (position + 1) false rest
    | none =>
      match c, rest with
      | '?', rest => do return .anyChar :: (← scan none (position + 1) false rest)
      | '[', rest => scan (some ⟨position, false, []⟩) (position + 1) false rest
      | '*', '*' :: '*' :: _ => .error ⟨position + 2, .stars⟩
      | '*', ['*'] =>
        if fresh then .ok [.anyComponents] else .error ⟨position - 1, .recursive⟩
      | '*', '*' :: '/' :: rest =>
        if fresh then do return .anyComponents :: (← scan none (position + 3) true rest)
        else .error ⟨position - 1, .recursive⟩
      | '*', '*' :: _ :: _ =>
        .error ⟨if fresh then position + 2 else position - 1, .recursive⟩
      | '*', rest => do return .anyText :: (← scan none (position + 1) false rest)
      | c, rest => do return .literal c :: (← scan none (position + 1) (c = '/') rest)

end Glob

/-- A pattern of paths. -/
structure Glob where
  /-- Its parts. -/
  tokens : List Glob.Token
deriving DecidableEq, Repr, Inhabited

namespace Glob

/-- The pattern that a text spells. -/
def parse (text : String) : Except Fault Glob :=
  (scan none 0 true text.toList).map Glob.mk

/-- What is left of a text behind any number of its characters. -/
def suffixes : List Char → List (List Char)
  | [] => [[]]
  | c :: rest => (c :: rest) :: suffixes rest

/-- What is left of a text behind each of its slashes. -/
def behindSlashes : List Char → List (List Char)
  | [] => []
  | c :: rest => if c = '/' then rest :: behindSlashes rest else behindSlashes rest

/-- Whether a part of a pattern that stands for one character fits it. -/
def Token.fits (t : Token) (c : Char) : Bool :=
  match t with
  | literal d => c = d
  | anyChar => true
  | oneOf negated ranges => (ranges.any fun (low, high) => low ≤ c && c ≤ high) != negated
  | anyText | anyComponents => false

/-- Whether a text fits the parts of a pattern. Components are skipped up to the start of another
one, or all of them. -/
def tokensMatch : List Token → List Char → Bool
  | [], text => text.isEmpty
  | .anyText :: ts, text => (suffixes text).any (tokensMatch ts)
  | .anyComponents :: ts, text => (text :: behindSlashes text ++ [[]]).any (tokensMatch ts)
  | _ :: _, [] => false
  | t :: ts, c :: text => t.fits c && tokensMatch ts text

/-- Whether a text fits the pattern. -/
def accepts (g : Glob) (text : String) : Bool := tokensMatch g.tokens text.toList

end Glob

end LoaderLint
