import LoaderLint.Text.Split

/-!
# Patterns of ignored files

The patterns that ignore files list. `?` is a byte and `*` any number of bytes other than a slash;
`**` is any number of components where it is one itself; brackets list characters, braces list
patterns, and a backslash takes the next character as it is. Bytes are compared, not characters.

The module introduces:

* `Ignore.Token`, `Ignore.Pattern` — a pattern;
* `Ignore.Pattern.parse` — the pattern that a text spells;
* `Ignore.Pattern.accepts` — whether a path fits a pattern.

## References

* The specification of amd-lint, §10.4, file discovery: the patterns that `respect_gitignore` is
  about.
-/

namespace LoaderLint.Ignore

/-- A part of a pattern. -/
inductive Token where
  /-- The character itself. -/
  | literal (c : Char)
  /-- A byte other than a slash. -/
  | anyByte
  /-- Any bytes other than a slash. -/
  | anyBytes
  /-- Any components at the start. -/
  | leading
  /-- Any components at the end, at least one. -/
  | trailing
  /-- A slash, any components behind it, and another slash if there are some. -/
  | between
  /-- A character in one of the ranges, or in none of them where `negated` is set. -/
  | oneOf (negated : Bool) (ranges : List (Char × Char))
  /-- One of the patterns, or nothing if there are none. -/
  | choice (patterns : List (List Token))
deriving Inhabited

/-- What is wrong with a text. -/
inductive Problem where
  /-- The ends of a range are in the wrong order. -/
  | range (low high : Char)
  /-- A brace is closed that is not open. -/
  | unopened
  /-- A brace is not closed. -/
  | unclosed
  /-- There is nothing behind a backslash. -/
  | escape
deriving DecidableEq, Repr, Inhabited

/-- What is said of a problem. -/
def Problem.message : Problem → String
  | range low high =>
    "invalid range; '" ++ String.singleton low ++ "' > '" ++ String.singleton high ++ "'"
  | unopened =>
    "unopened alternate group; missing '\x7b' (maybe escape '\x7d' with '[\x7d]'?)"
  | unclosed =>
    "unclosed alternate group; missing '\x7d' (maybe escape '\x7b' with '[\x7b]'?)"
  | escape => "dangling '\\'"

/-- What the text behind an open bracket holds. -/
inductive Bracket where
  /-- The ranges up to the closing bracket, and the text behind it. -/
  | closed (ranges : List (Char × Char)) (rest : List Char)
  /-- Something that is wrong. -/
  | wrong (p : Problem)
  /-- No closing bracket. -/
  | unclosed
deriving Inhabited

/-- The ranges with the last one, which comes first, extended up to a character. -/
def extendLast (high : Char) : List (Char × Char) → Except Problem (List (Char × Char))
  | [] => .ok []
  | (low, _) :: rest => if high < low then .error (.range low high) else .ok ((low, high) :: rest)

/-- The rest of a bracket, where `ranges` came before, the last one first, `first` tells that none
did, and `pending` that a minus waits for the end of a range. A closing bracket that comes first is
a member, and so is a minus that comes first or last. -/
def bracket (first pending : Bool) (ranges : List (Char × Char)) : List Char → Bracket
  | [] => .unclosed
  | c :: rest =>
    if c = ']' ∧ !first then
      .closed (if pending then ('-', '-') :: ranges else ranges).reverse rest
    else if pending then
      match extendLast c ranges with
      | .ok ranges => bracket false false ranges rest
      | .error p => .wrong p
    else if c = '-' ∧ !first then bracket false true ranges rest
    else bracket false false ((c, c) :: ranges) rest

/-- An open brace. -/
structure Group where
  /-- The patterns in it that are complete, the last one first. -/
  done : List (List Token)
  /-- The parts before it, the last one first. -/
  before : List Token
deriving Inhabited

/-- A pattern that is being read. -/
structure Draft where
  /-- The open braces, the innermost first. -/
  groups : List Group
  /-- The parts behind the innermost one, the last one first. -/
  parts : List Token
  /-- The character before the rest. -/
  previous : Option Char
  /-- Whether brackets are taken as they are, since one was not closed. -/
  literalBrackets : Bool
deriving Inhabited

namespace Draft

/-- The draft with one more part, behind the character. -/
def push (d : Draft) (t : Token) (c : Char) : Draft :=
  { d with parts := t :: d.parts, previous := some c }

/-- Whether a part stands for nothing. -/
def isVacuous : Token → Bool
  | .choice [] => true
  | _ => false

/-- The choice between patterns; those that stand for nothing are left out. -/
def choiceOf (patterns : List (List Token)) : Token :=
  .choice (patterns.filter fun p => !p.all isVacuous)

/-- The draft with one more open brace. -/
def openGroup (d : Draft) : Draft :=
  { d with groups := ⟨[], d.parts⟩ :: d.groups, parts := [], previous := some '\x7b' }

/-- The draft with a comma, which divides the patterns of an open brace. -/
def comma (d : Draft) : Draft :=
  match d.groups with
  | [] => d.push (.literal ',') ','
  | g :: rest =>
    { d with
      groups := { g with done := d.parts :: g.done } :: rest, parts := [], previous := some ',' }

/-- The draft with the innermost brace closed. -/
def closeGroup (d : Draft) : Except Problem Draft :=
  match d.groups with
  | [] => .error .unopened
  | g :: rest =>
    .ok { d with
      groups := rest
      parts := choiceOf ((d.parts :: g.done).map List.reverse).reverse :: g.before
      previous := some '\x7d' }

/-- The draft with two stars that are no component: any bytes. -/
def plainStars (d : Draft) : Draft := (d.push .anyBytes '*').push .anyBytes '*'

/-- The draft with two stars as a component, which takes the place of the slash before it. -/
def component (d : Draft) (t : Token) (c : Char) : Draft :=
  match d.parts with
  | .leading :: _ | .trailing :: _ => { d with previous := some c }
  | _ :: rest => { d with parts := t :: rest, previous := some c }
  | [] => d.push t c

/-- The draft with two stars, and the text behind them. They are a component if they stand between
slashes, at the start, at the end, or at the end of a pattern in braces. -/
def stars (d : Draft) (rest : List Char) : Draft × List Char :=
  let inGroup := !d.groups.isEmpty
  if d.parts.isEmpty then
    match rest with
    | [] => (d.push .leading '*', [])
    | '/' :: rest => (d.push .leading '/', rest)
    | rest => (d.plainStars, rest)
  else if d.previous ≠ some '/' ∧
      !(inGroup && (d.previous = some ',' || d.previous = some '\x7b')) then
    (d.plainStars, rest)
  else
    match rest with
    | [] => (d.component .trailing '*', [])
    | '/' :: rest => (d.component .between '/', rest)
    | c :: rest =>
      if inGroup ∧ (c = ',' ∨ c = '\x7d') then (d.component .trailing '*', c :: rest)
      else (d.plainStars, c :: rest)

/-- The draft with a bracket, and the text behind it. One that is not closed is taken as it is, and
so are all behind it. -/
def bracketed (d : Draft) (rest : List Char) : Except Problem (Draft × List Char) :=
  let (negated, body) := match rest with
    | '!' :: body | '^' :: body => (true, body)
    | body => (false, body)
  match bracket true false [] body with
  | .closed ranges rest => .ok (d.push (.oneOf negated ranges) ']', rest)
  | .wrong p => .error p
  | .unclosed => .ok ({ d.push (.literal '[') '[' with literalBrackets := true }, rest)

/-- The draft with the next part of the text, and the rest of the text. -/
def step (d : Draft) (c : Char) (rest : List Char) : Except Problem (Draft × List Char) :=
  match c, rest with
  | '?', rest => .ok (d.push .anyByte c, rest)
  | '*', '*' :: rest => .ok (d.stars rest)
  | '*', rest => .ok (d.push .anyBytes c, rest)
  | '[', rest =>
    if d.literalBrackets then .ok (d.push (.literal c) c, rest) else d.bracketed rest
  | '\x7b', rest => .ok (d.openGroup, rest)
  | '\x7d', rest => d.closeGroup.map (·, rest)
  | ',', rest => .ok (d.comma, rest)
  | '\\', e :: rest => .ok (d.push (.literal e) e, rest)
  | '\\', [] => .error .escape
  | c, rest => .ok (d.push (.literal c) c, rest)

/-- The draft with all of the text, in at most `limit` steps. -/
def complete : Nat → Draft → List Char → Except Problem Draft
  | limit + 1, d, c :: rest => do
    let (d, rest) ← d.step c rest
    complete limit d rest
  | _, d, _ => .ok d

end Draft

/-- A pattern. -/
structure Pattern where
  /-- Its parts. -/
  tokens : List Token
deriving Inhabited

/-- The bytes of a character. -/
def bytesOf (c : Char) : List UInt8 := String.utf8EncodeChar c

/-- The ranges of bytes that a range of characters stands for. -/
def byteRanges (low high : Char) : List (UInt8 × UInt8) :=
  let single (b : UInt8) : UInt8 × UInt8 := (b, b)
  if low = high then (bytesOf low).map single
  else
    match (bytesOf low).reverse, bytesOf high with
    | a :: before, b :: behind => before.map single ++ (a, b) :: behind.map single
    | _, _ => []

/-- What is left of a text behind any number of its bytes up to the first slash. -/
def suffixesInComponent : List UInt8 → List (List UInt8)
  | [] => [[]]
  | b :: rest => (b :: rest) :: if b = 0x2f then [] else suffixesInComponent rest

/-- What is left of a text behind any number of its bytes. -/
def suffixes : List UInt8 → List (List UInt8)
  | [] => [[]]
  | b :: rest => (b :: rest) :: suffixes rest

/-- What is left of a text behind each of its slashes. -/
def behindSlashes : List UInt8 → List (List UInt8)
  | [] => []
  | b :: rest => if b = 0x2f then rest :: behindSlashes rest else behindSlashes rest

/-- What is left of a text behind the bytes that it starts with. -/
def dropBytes? : List UInt8 → List UInt8 → Option (List UInt8)
  | [], text => some text
  | _ :: _, [] => none
  | b :: bytes, c :: text => if b = c then dropBytes? bytes text else none

mutual

/-- Whether a part and what follows it fit a text. -/
def Token.fits (follow : List UInt8 → Bool) (text : List UInt8) : Token → Bool
  | .literal c => (dropBytes? (bytesOf c) text).any follow
  | .anyByte =>
    match text with
    | b :: rest => b != 0x2f && follow rest
    | [] => false
  | .anyBytes => (suffixesInComponent text).any follow
  | .leading => follow text || (behindSlashes text).any follow
  | .trailing =>
    match text with
    | 0x2f :: rest => (suffixes rest).any follow
    | _ => false
  | .between =>
    match text with
    | 0x2f :: rest => follow rest || (behindSlashes rest).any follow
    | _ => false
  | .oneOf negated ranges =>
    match text with
    | b :: rest =>
      let listed := ranges.any fun (low, high) =>
        (byteRanges low high).any fun (l, h) => l ≤ b && b ≤ h
      listed != negated && follow rest
    | [] => false
  | .choice patterns =>
    match patterns with
    | [] => follow text
    | first :: others => allFit follow text first || anyFits follow text others

/-- Whether parts and what follows them fit a text. -/
def allFit (follow : List UInt8 → Bool) (text : List UInt8) : List Token → Bool
  | [] => follow text
  | t :: ts => t.fits (fun rest => allFit follow rest ts) text

/-- Whether one of the patterns and what follows it fit a text. -/
def anyFits (follow : List UInt8 → Bool) (text : List UInt8) : List (List Token) → Bool
  | [] => false
  | p :: ps => allFit follow text p || anyFits follow text ps

end

namespace Pattern

/-- The pattern that a text spells. -/
def parse (text : List Char) : Except Problem Pattern := do
  let d ← Draft.complete text.length ⟨[], [], none, false⟩ text
  if d.groups.isEmpty then .ok ⟨d.parts.reverse⟩ else .error .unclosed

/-- Whether a path fits the pattern. Two stars alone fit every path. -/
def accepts (p : Pattern) (path : List UInt8) : Bool :=
  match p.tokens with
  | [.leading] => true
  | tokens => allFit List.isEmpty path tokens

end Pattern

end LoaderLint.Ignore
