import LoaderLint.Script.Lexeme
import LoaderLint.Script.Node

/-!
# Reading a source text

A reader goes through a source text once and collects nodes. It stands behind the last token taken;
the comments between that token and the next become nodes of the innermost construct that is open,
so a comment is a child of the innermost node with tokens on both sides of it.

The module introduces:

* `Cursor` — the text ahead with its position;
* `skipTrivia` — the comments and blanks ahead;
* `semicolonImplied` — the rule for an omitted semicolon;
* `Reader` — a state transformer that can fail, with `gap`, `take`, `leaf`, `enclose` and
  `repeating` as its building blocks.

## References

* The specification of amd-lint, §10.1: the grammar `tree-sitter-javascript`, whose comments and
  omitted semicolons are read here.
-/

namespace LoaderLint.Script

/-- The part of a source text that is still to be read. -/
structure Cursor where
  /-- The characters ahead. -/
  rest : List Char
  /-- The position of the first of them. -/
  position : Position
deriving Inhabited

/-- The cursor behind the next `n` characters. -/
def Cursor.advance : Nat → Cursor → Cursor
  | n + 1, ⟨c :: rest, position⟩ => advance n ⟨rest, position.after c⟩
  | _, cursor => cursor

/-- The cursor behind the blanks ahead. -/
def Cursor.skipBlanks (cursor : Cursor) : Cursor :=
  cursor.advance (cursor.rest.takeWhile isBlank).length

/-- A leaf of the next `n` characters. -/
def Cursor.leaf (cursor : Cursor) (kind : Kind) (n : Nat) : Node :=
  .mk ⟨0, kind, .plain, ⟨cursor.position, (cursor.advance n).position.offset⟩,
    String.ofList (cursor.rest.take n)⟩ []

/-- The comment ahead with its length. Markup comments count only where `markup` says so. -/
def Cursor.comment? (cursor : Cursor) (markup : Bool) : Option (Node × Nat) :=
  match commentLength cursor.rest with
  | some n => some (cursor.leaf .comment n, n)
  | none =>
    if markup then (markupCommentLength cursor.rest).map fun n => (cursor.leaf .markupComment n, n)
    else none

/-- The comments ahead, the last one first, in front of those in `found`, and the cursor at the
next token. At most `limit` comments are read. -/
def skipTrivia (markup : Bool) : Nat → List Node → Cursor → List Node × Cursor
  | 0, found, cursor => (found, cursor.skipBlanks)
  | limit + 1, found, cursor =>
    let cursor := cursor.skipBlanks
    match cursor.comment? markup with
    | some (node, n) => skipTrivia markup limit (node :: found) (cursor.advance n)
    | none => (found, cursor)

/-- The text behind the blanks and comments ahead; nothing if a slash starts no comment. Block
comments that do not end take all that is left. -/
def skipForSemicolon : Nat → List Char → Option (List Char)
  | 0, _ => none
  | limit + 1, cs =>
    let cs := cs.dropWhile isAsciiBlank
    match cs with
    | '/' :: '/' :: rest => skipForSemicolon limit (rest.dropWhile (!isLineBreak ·))
    | '/' :: '*' :: rest =>
      skipForSemicolon limit (rest.drop ((blockCommentLength rest).getD rest.length))
    | '/' :: _ => none
    | _ => some cs

/-- Whether the text on a new line starts a statement of its own: it does not when its first
character can only continue an expression. A dot starts a statement only as part of a number, a
plus or minus only when doubled, an exclamation mark unless it is an inequality; the operators `in`
and `instanceof` do not. -/
def startsStatement : List Char → Bool
  | '.' :: rest => (rest.head?.map Char.isDigit).getD false
  | '+' :: rest => rest.head? = some '+'
  | '-' :: rest => rest.head? = some '-'
  | '!' :: rest => rest.head? ≠ some '='
  | 'i' :: 'n' :: rest =>
    if !(rest.head?.map Char.isAlpha).getD false then false
    else if "stanceof".toList.isPrefixOf rest then
      ((rest.drop 8).head?.map Char.isAlpha).getD false
    else true
  | c :: _ => !"`,:;*%><=[(?^|&/".toList.contains c
  | [] => true

/-- The text behind the comments ahead, which start with a slash, and whether they allow a
semicolon where no operator can follow: the first block comment that no other comment follows at
once ends them and allows one if a line break was met inside a block comment; without it they do.
Nothing if a slash starts no comment. -/
def stepOverComments : Nat → Bool → List Char → Option (Bool × List Char)
  | 0, _, _ => none
  | limit + 1, broken, cs =>
    let cs := cs.dropWhile isAsciiBlank
    match cs with
    | '/' :: '/' :: rest => stepOverComments limit broken (rest.dropWhile (!isLineBreak ·))
    | '/' :: '*' :: rest =>
      let n := (blockCommentLength rest).getD rest.length
      let broken := broken || (rest.take n).any isLineBreak
      let ahead := rest.drop n
      if ahead.head? = some '/' then stepOverComments limit broken ahead else some (broken, ahead)
    | '/' :: _ => none
    | _ => some (true, cs)

/-- Whether a semicolon is implied at this place, before any comment is taken as a token. The end
of the text and a closing brace imply one, and so does a line break before text that starts a
statement. Comments with a line break do so only where no operator can follow. -/
def semicolonHere (operators : Bool) : Nat → List Char → Bool
  | 0, _ => false
  | _ + 1, [] => true
  | limit + 1, c :: rest =>
    if c = '\x7d' then true
    else if isLineBreak c then
      match skipForSemicolon (limit + 1) rest with
      | some ahead => startsStatement ahead
      | none => false
    else if isAsciiBlank c then semicolonHere operators limit rest
    else if c = '/' then
      match stepOverComments (limit + 1) false (c :: rest) with
      | some (broken, ahead) =>
        (broken && !operators && ahead.head? ≠ some ',' && ahead.head? ≠ some '=') ||
          semicolonHere operators limit ahead
      | none => false
    else false

/-- Whether a semicolon is implied ahead, at this place or behind one of the comments that
follow. -/
def semicolonImplied (operators : Bool) (limit : Nat) : Nat → Cursor → Bool
  | 0, _ => false
  | steps + 1, cursor =>
    semicolonHere operators limit cursor.rest ||
      let cursor := cursor.skipBlanks
      match cursor.comment? false with
      | some (_, n) => semicolonImplied operators limit steps (cursor.advance n)
      | none => false

/-- The state of a reader. -/
structure ReaderState where
  /-- The text ahead. -/
  cursor : Cursor
  /-- The nodes of the construct that is open, the last one first. -/
  nodes : List Node
  /-- More than the number of characters of the text: a bound for every repetition. -/
  limit : Nat
deriving Inhabited

/-- A reader of a part of a source text. It fails where the text does not fit. -/
abbrev Reader := StateT ReaderState Option

namespace Reader

/-- The characters ahead. -/
def rest : Reader (List Char) := return (← get).cursor.rest

/-- Takes the comments ahead into the construct that is open and goes to the next token. -/
def gap (markup : Bool) : Reader Unit :=
  modify fun s =>
    let (nodes, cursor) := skipTrivia markup s.limit s.nodes s.cursor
    { s with nodes, cursor }

/-- The characters from the next token on, with nothing taken. -/
def peek (markup : Bool) : Reader (List Char) := do
  let s ← get
  return (skipTrivia markup s.limit [] s.cursor).2.rest

/-- The characters from the token behind the next `n` characters on, with nothing taken. -/
def peekPast (n : Nat) : Reader (List Char) := do
  let s ← get
  return (skipTrivia false s.limit [] (s.cursor.advance n)).2.rest

/-- Takes `n` characters. -/
def take (n : Nat) : Reader Unit :=
  modify fun s => { s with cursor := s.cursor.advance n }

/-- Takes `n` characters as a leaf. -/
def leaf (kind : Kind) (n : Nat) : Reader Node := do
  let node := (← get).cursor.leaf kind n
  take n
  return node

/-- Adds a node to the construct that is open. -/
def emit (node : Node) : Reader Unit :=
  modify fun s => { s with nodes := node :: s.nodes }

/-- Whether a condition holds; fails otherwise. -/
def require (condition : Bool) : Reader Unit :=
  if condition then pure () else failure

/-- Takes the punctuation mark, which has to be the next token, without a gap. -/
def sign (mark : String) : Reader Unit := do
  require (punctuatorAt (← rest) = mark)
  take mark.length

/-- Takes the punctuation mark as a node of the construct that is open. -/
def mark (text : String) : Reader Unit := do
  require (punctuatorAt (← rest) = text)
  emit (← leaf .punctuation text.length)

/-- Takes the word, which has to be the next token, without a gap. -/
def word (text : String) : Reader Unit := do
  require (nameAt (← rest) = text)
  take text.length

/-- Takes a punctuation mark where no operator can stand. -/
def expect (text : String) : Reader Unit := do
  gap true
  sign text

/-- Takes a punctuation mark behind an operand. -/
def expectAfter (text : String) : Reader Unit := do
  gap false
  sign text

/-- Whether the punctuation mark is next behind an operand. -/
def followedBy (text : String) : Reader Bool :=
  return punctuatorAt (← peek false) = text

/-- Takes a name as a leaf. Words that are never names are refused. -/
def name (kind : Kind) : Reader Node := do
  let text := nameAt (← rest)
  require (text ≠ "" && !isReserved text)
  leaf kind text.length

/-- Runs a reader on the nodes in `first`, then makes one node of all nodes it leaves, of the kind
that it answers. The node starts at `start` and ends behind the last token taken. -/
def encloseFrom (start : Position) (first : List Node) (body : Reader Kind) : Reader Node := do
  let outer := (← get).nodes
  modify fun s => { s with nodes := first }
  let kind ← body
  let s ← get
  modify fun s => { s with nodes := outer }
  return .mk ⟨0, kind, .plain, ⟨start, s.cursor.position.offset⟩, ""⟩ s.nodes.reverse

/-- Runs a reader, then makes one node of all nodes it leaves, of the kind that it answers. -/
def encloseAs (body : Reader Kind) : Reader Node := do
  encloseFrom (← get).cursor.position [] body

/-- Runs a reader, then makes one node of the kind from all nodes it leaves. -/
def enclose (kind : Kind) (body : Reader Unit) : Reader Node :=
  encloseAs do
    body
    return kind

/-- A node of the kind whose first child is `left`. -/
def extend (left : Node) (kind : Kind) (body : Reader Unit) : Reader Node :=
  encloseFrom left.span.start [left] do
    body
    return kind

/-- Repeats a step from `a` on until it gives nothing, at most `n` times. -/
def repeatFor {α : Type} (step : α → Reader (Option α)) : Nat → α → Reader α
  | 0, _ => failure
  | n + 1, a => do
    match ← step a with
    | some b => repeatFor step n b
    | none => return a

/-- Repeats a step from `a` on until it gives nothing. -/
def repeating {α : Type} (step : α → Reader (Option α)) (a : α) : Reader α := do
  repeatFor step (← get).limit a

/-- Repeats a step while it answers yes. -/
def repeatWhile (step : Reader Bool) : Reader Unit :=
  repeating (fun _ => return if ← step then some () else none) ()

/-- Whether a semicolon is implied behind the next `n` characters. -/
def impliesSemicolonPast (operators : Bool) (n : Nat) : Reader Bool := do
  let s ← get
  return semicolonImplied operators s.limit s.limit (s.cursor.advance n)

/-- Whether a semicolon is implied ahead. -/
def impliesSemicolon (operators : Bool) : Reader Bool := impliesSemicolonPast operators 0

/-- Takes the semicolon that ends a statement, unless it is implied. -/
def semicolon (operators : Bool) : Reader Unit := do
  if ← impliesSemicolon operators then pure () else expectAfter ";"

end Reader

end LoaderLint.Script
