import LoaderLint.Text.Split

/-!
# Paths

A path is kept as it is spelled. Two spellings are compared by their components: repeated slashes,
a slash at the end and single dots do not count, except for a dot at the very start.

The module introduces:

* `Path`, `Path.components` — a path and its components;
* `Path.compare` — the order of paths, component by component;
* `Path.strip?` — a path below another, relative to it;
* `Path.relativeTo`, `Path.join`, `Path.extension?` — what the rest of the library does with paths.

## References

* The specification of amd-lint, §10.4: root-relative paths (`Path.strip?`), and the order of files
  (`Path.compare`).
-/

namespace LoaderLint

/-- A path as it is spelled. -/
structure Path where
  /-- The spelling. -/
  spelling : String
deriving DecidableEq, Repr, Inhabited

namespace Path

/-- A component of a path. -/
inductive Component where
  /-- The slash that an absolute path starts with. -/
  | root
  /-- The dot that a relative path may start with. -/
  | current
  /-- Two dots. -/
  | parent
  /-- A name. -/
  | name (text : List Char)
deriving DecidableEq, Repr, Inhabited

namespace Component

/-- The place of a component among the kinds of components. -/
def rank : Component → Nat
  | root => 0
  | current => 1
  | parent => 2
  | name _ => 3

/-- The order of texts by the numbers of their characters, a text before its extensions. -/
def compareTexts : List Char → List Char → Ordering
  | [], [] => .eq
  | [], _ :: _ => .lt
  | _ :: _, [] => .gt
  | c :: cs, d :: ds => (Ord.compare c.toNat d.toNat).then (compareTexts cs ds)

/-- The order of components: by kind, names by their characters. -/
def compare : Component → Component → Ordering
  | name a, name b => compareTexts a b
  | a, b => Ord.compare a.rank b.rank

end Component

/-- Whether the text between two slashes is no component. -/
def isFiller (piece : List Char) : Bool := piece = [] || piece = ['.']

/-- The component that a text between two slashes is. -/
def componentOf (piece : List Char) : Component :=
  if piece = ['.', '.'] then .parent else .name piece

/-- The slash or dot that a path starts with, and the texts between slashes behind it. -/
def parts (p : Path) : Option Component × List (List Char) :=
  match p.spelling.toList.splitOn '/' with
  | [] => (none, [])
  | first :: body =>
    if first = [] ∧ body ≠ [] then (some .root, body)
    else if first = ['.'] then (some .current, body)
    else (none, first :: body)

/-- The components of a path. -/
def components (p : Path) : List Component :=
  let (front, body) := p.parts
  front.toList ++ (body.filter (!isFiller ·)).map componentOf

/-- The order of lists of components. -/
def compareComponents : List Component → List Component → Ordering
  | [], [] => .eq
  | [], _ :: _ => .lt
  | _ :: _, [] => .gt
  | a :: as, b :: bs => (a.compare b).then (compareComponents as bs)

/-- The order of paths: component by component, a path before the paths below it. -/
def compare (p q : Path) : Ordering := compareComponents p.components q.components

/-- Texts between slashes without those at the end that are no components. -/
def trimFillers (pieces : List (List Char)) : List (List Char) :=
  (pieces.reverse.dropWhile isFiller).reverse

/-- The path that the texts between slashes spell. -/
def ofPieces (pieces : List (List Char)) : Path :=
  ⟨String.ofList (['/'].intercalate pieces)⟩

/-- The path without slashes and dots at its end. -/
def trimmed (p : Path) : Path :=
  match p.parts with
  | (none, body) => ofPieces (trimFillers body)
  | (some .root, body) =>
    ⟨String.ofList ('/' :: ['/'].intercalate (trimFillers body))⟩
  | (some _, body) => ofPieces (['.'] :: trimFillers body)

/-- The texts between slashes that are left when the components are taken from their front. -/
def stripBody? : List (List Char) → List (List Char) → Option (List (List Char))
  | body, [] => some body
  | [], _ :: _ => none
  | piece :: body, wanted :: rest =>
    if isFiller piece then stripBody? body (wanted :: rest)
    else if piece = wanted then stripBody? body rest
    else none

/-- The path relative to `base`, if it is `base` or below it. The rest keeps its spelling, without
slashes and dots at its ends. -/
def strip? (p base : Path) : Option Path :=
  let (baseFront, baseBody) := base.parts
  let wanted := baseBody.filter (!isFiller ·)
  if baseFront = none ∧ wanted = [] then some p.trimmed
  else
    let (front, body) := p.parts
    if front = baseFront then
      (stripBody? body wanted).map fun rest => ofPieces (trimFillers (rest.dropWhile isFiller))
    else none

/-- The path relative to `base` where that is possible, else the path itself. -/
def relativeTo (p base : Path) : Path := (p.strip? base).getD p

/-- Whether a path starts at the root. -/
def isAbsolute (p : Path) : Bool := p.spelling.toList.head? = some '/'

/-- The path `q` as seen from `p`. -/
def join (p q : Path) : Path :=
  if q.isAbsolute then q
  else if p.spelling = "" ∨ p.spelling.toList.getLast? = some '/' then ⟨p.spelling ++ q.spelling⟩
  else ⟨p.spelling ++ "/" ++ q.spelling⟩

/-- The name of a path's last component, if that is a name. -/
def fileName? (p : Path) : Option (List Char) :=
  match p.components.getLast? with
  | some (.name text) => some text
  | _ => none

/-- What stands behind the last dot of a path's name. A name whose only dot is at its start has no
extension. -/
def extension? (p : Path) : Option String :=
  match p.fileName? with
  | some name =>
    let behind := (name.reverse.takeWhile (· ≠ '.')).reverse
    if behind.length + 1 < name.length then some (String.ofList behind) else none
  | none => none

end Path

end LoaderLint
