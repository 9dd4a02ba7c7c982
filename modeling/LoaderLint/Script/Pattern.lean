import LoaderLint.Script.Node

/-!
# Patterns

Patterns are spelled like expressions, so they are read as expressions and turned into patterns
where the text behind them shows that a pattern was meant: an assignment, an arrow, a declaration
or the head of a loop.

The module introduces:

* `Node.toPattern?` — an expression as a pattern, with the places in which a pattern can stand;
* `Node.toTarget?` — an expression as the target of an assignment;
* `Node.toParameters?` — a parenthesized list as a parameter list;
* `Node.groupSequence?` — a parenthesized list as one expression;
* `Node.patternsResolved` — no object literal is left that only a pattern allows.

## References

* The specification of amd-lint, §10.1: the patterns of the grammar `tree-sitter-javascript`.
-/

namespace LoaderLint.Script

/-- The places in which a pattern can stand. -/
inductive PatternPlace where
  /-- Alone, as the target of an assignment or a declaration. -/
  | target
  /-- In a list, where it may have a default or take the rest. -/
  | element
  /-- In braces. -/
  | member
  /-- A part of a key with its value. -/
  | pairPart
deriving DecidableEq, Repr

namespace Node

/-- An assignment as a pattern with a default. The target must not be in parentheses. -/
def toDefault? (head : Head) (children : List Node) : Option Node :=
  match children.find? (·.head.role = .left) with
  | some left =>
    if left.kind = .parenthesized then none
    else some (.mk { head with kind := .defaultPattern } children)
  | none => none

mutual

/-- An expression as a pattern, if it can be one at the place. -/
def toPattern? (place : PatternPlace) : Node → Option Node
  | mk head children =>
    if place ≠ .target ∧ (head.kind.isTrivia ∨ head.kind = .punctuation) then
      some (mk head children)
    else match place with
      | .member =>
        match head.kind with
        | .pair => (toPatterns? .pairPart children).map (mk { head with kind := .pairPattern })
        | .spread => (toPatterns? .target children).map (mk { head with kind := .restPattern })
        | .shorthand | .shorthandDefault => some (mk head children)
        | _ => none
      | .pairPart =>
        if head.role ≠ .value then some (mk head children)
        else match head.kind with
          | .assignment => toDefault? head children
          | _ => bare? head children
      | .element =>
        match head.kind with
        | .assignment => toDefault? head children
        | .spread => (toPatterns? .target children).map (mk { head with kind := .restPattern })
        | .restPattern => some (mk head children)
        | _ => bare? head children
      | .target =>
        if head.kind.isTrivia then some (mk head children) else bare? head children

/-- The node of these parts as a pattern without a default: a name, a member access, or a literal
of patterns. -/
def bare? (head : Head) (children : List Node) : Option Node :=
  match head.kind with
  | .identifier | .undefined | .member | .subscript | .arrayPattern | .objectPattern =>
    some (mk head children)
  | .array => (toPatterns? .element children).map (mk { head with kind := .arrayPattern })
  | .object => (toPatterns? .member children).map (mk { head with kind := .objectPattern })
  | _ => none

/-- Expressions as patterns, if all of them can be. -/
def toPatterns? (place : PatternPlace) : List Node → Option (List Node)
  | [] => some []
  | n :: rest => do
    let n ← toPattern? place n
    let rest ← toPatterns? place rest
    return n :: rest

end

/-- An expression as the target of an assignment or a loop: a pattern, or anything in
parentheses. -/
def toTarget? (n : Node) : Option Node :=
  if n.kind = .parenthesized then some n else n.toPattern? .target

/-- Whether the nodes are items with one comma between any two, where a last comma may follow. -/
def isListed (lastComma : Bool) : List Node → Bool
  | [] => lastComma
  | [item] => item.kind ≠ .punctuation
  | item :: comma :: rest =>
    item.kind ≠ .punctuation && comma.kind = .punctuation && isListed lastComma rest

/-- The nodes between the brackets of a list, without comments. -/
def listed (n : Node) : List Node :=
  (n.children.drop 1).dropLast.filter (!·.kind.isTrivia)

/-- A parenthesized list as a parameter list. -/
def toParameters? (n : Node) : Option Node :=
  if isListed true n.listed then
    (toPatterns? .element n.children).map (mk { n.head with kind := .parameters })
  else none

/-- The node that spans a sequence of nodes. -/
def spanning (kind : Kind) (first : Node) (nodes : List Node) : Node :=
  mk ⟨0, kind, .plain, ⟨first.span.start, (nodes.getLast?.getD first).span.stop⟩, ""⟩ nodes

/-- A parenthesized list as one expression: several items are a sequence, and comments at its ends
stay outside it. -/
def groupSequence? (n : Node) : Option Node :=
  let items := n.listed
  if items.isEmpty || !isListed false items || items.any (·.kind = .spread) then none
  else
    let inside := (n.children.drop 1).dropLast
    let before := inside.takeWhile (·.kind.isTrivia)
    let behind := (inside.reverse.takeWhile (·.kind.isTrivia)).reverse
    let core := (inside.drop before.length).take (inside.length - before.length - behind.length)
    match core with
    | [] => none
    | [_] => some n
    | first :: _ =>
      some (mk n.head (n.children.take 1 ++ before ++ [spanning .sequence first core] ++ behind ++
        n.children.drop (n.children.length - 1)))

mutual

/-- Whether no object literal of the tree has a key with a default, which only a pattern can
have. -/
def patternsResolved : Node → Bool
  | mk head children =>
    (head.kind ≠ .object || children.all (·.kind ≠ .shorthandDefault)) && allResolved children

/-- Whether `patternsResolved` holds of all the trees. -/
def allResolved : List Node → Bool
  | [] => true
  | n :: rest => n.patternsResolved && allResolved rest

end

end Node

end LoaderLint.Script
