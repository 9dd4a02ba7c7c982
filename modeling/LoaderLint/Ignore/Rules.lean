import LoaderLint.Ignore.Pattern
import LoaderLint.Text.Blank
import LoaderLint.Text.Utf8

/-!
# Rules of ignore files

An ignore file lists patterns, one a line, relative to a directory. An exclamation mark takes back
what earlier lines ignore, a slash at the end restricts a line to directories, and a slash
elsewhere ties it to the directory of the file. The last line that fits a path decides.

The module introduces:

* `Ignore.Rule`, `Ignore.Rule.parse` — the rule of a line;
* `Ignore.Rules`, `Ignore.Rules.ofBytes` — the rules of a file;
* `Ignore.Rules.decide?` — what they say about a path.

## References

* The specification of amd-lint, §10.4, file discovery: the files that `respect_gitignore` is
  about.
-/

namespace LoaderLint.Ignore

/-- A rule of an ignore file. -/
structure Rule where
  /-- The paths that it is about. -/
  pattern : Pattern
  /-- Whether it takes back what earlier rules ignore. -/
  takesBack : Bool
  /-- Whether it is about directories only. -/
  directoriesOnly : Bool
deriving Inhabited

/-- A line of an ignore file in its parts. -/
structure Line where
  /-- The text of its pattern. -/
  body : List Char
  /-- Whether it starts with an exclamation mark. -/
  takesBack : Bool
  /-- Whether it starts with a slash. -/
  anchored : Bool
  /-- Whether it ends with a slash. -/
  directoriesOnly : Bool
deriving DecidableEq, Repr, Inhabited

namespace Line

/-- A line without the slash that it may start with. -/
def ofAnchored (takesBack : Bool) : List Char → Line
  | '/' :: body => ⟨body, takesBack, true, false⟩
  | body => ⟨body, takesBack, false, false⟩

/-- A line without the mark and the slash that it may start with. A backslash before a mark or a
hash takes it as it is. -/
def ofMarked : List Char → Line
  | '\\' :: '!' :: rest => ⟨'!' :: rest, false, false, false⟩
  | '\\' :: '#' :: rest => ⟨'#' :: rest, false, false, false⟩
  | '!' :: rest => ofAnchored true rest
  | rest => ofAnchored false rest

/-- The text without the backslash that it may end with. -/
def withoutBackslash (cs : List Char) : List Char := (Text.dropEnd? ['\\'] cs).getD cs

/-- A line without the slash that it may end with. -/
def withoutEnd (l : Line) : Line :=
  match Text.dropEnd? ['/'] l.body with
  | some body => { l with body := withoutBackslash body, directoriesOnly := true }
  | none => l

/-- The text without blanks at its end, unless the last one is escaped. -/
def withoutBlanks (cs : List Char) : List Char :=
  if (Text.dropEnd? ['\\', ' '] cs).isSome then cs else Text.trimEnd cs

/-- The parts of a line, unless it is a comment or empty. -/
def of? (text : List Char) : Option Line :=
  if text.head? = some '#' then none
  else
    let text := withoutBlanks text
    if text.isEmpty then none else some (ofMarked text).withoutEnd

/-- Whether a text starts with any components. -/
def hasLeadingStars (body : List Char) : Bool :=
  body = ['*', '*'] || (Text.dropStart? ['*', '*', '/'] body).isSome

/-- The pattern of a line: one without a slash is about all directories below, and one that ends
with any components is not about the directory itself. -/
def patternText (l : Line) : List Char :=
  let body :=
    if !l.anchored && !l.body.contains '/' && !hasLeadingStars l.body then
      ['*', '*', '/'] ++ l.body
    else l.body
  if (Text.dropEnd? ['/', '*', '*'] body).isSome then body ++ ['/', '*'] else body

end Line

/-- The rule of a line, if it has one. -/
def Rule.parse? (text : List Char) : Except Problem (Option Rule) :=
  match Line.of? text with
  | none => .ok none
  | some l => (Pattern.parse l.patternText).map fun p => some ⟨p, l.takesBack, l.directoriesOnly⟩

/-- A line that is no rule. -/
structure Fault where
  /-- The number of the line, counted from one. -/
  line : Nat
  /-- The line without blanks at its end. -/
  text : String
  /-- What is wrong with it. -/
  problem : Problem
deriving DecidableEq, Repr, Inhabited

/-- What is said of a line that is no rule. -/
def Fault.message (f : Fault) : String :=
  "line " ++ toString f.line ++ ": error parsing glob '" ++ f.text ++ "': " ++ f.problem.message

/-- The rules of an ignore file. -/
structure Rules where
  /-- The rules, in the order of their lines. -/
  rules : List Rule
  /-- The lines that are none. -/
  faults : List Fault
deriving Inhabited

namespace Rules

/-- No rules. -/
def empty : Rules := ⟨[], []⟩

/-- The bytes between line feeds. -/
def splitLines : List UInt8 → List (List UInt8)
  | [] => [[]]
  | b :: rest =>
    if b = 0x0a then [] :: splitLines rest
    else match splitLines rest with
      | line :: lines => (b :: line) :: lines
      | [] => [[b]]

/-- The rules of lines, from a number on. Lines behind one that is no UTF-8 are left out. -/
def ofLines (number : Nat) : List (List UInt8) → Rules
  | [] => empty
  | bytes :: rest =>
    if Text.Utf8.isUtf8 bytes then
      let text := Text.withoutReturn (Text.Utf8.decode bytes)
      let text := if number = 1 then text.dropWhile (· = '\ufeff') else text
      let others := ofLines (number + 1) rest
      match Rule.parse? text with
      | .ok rule => { others with rules := rule.toList ++ others.rules }
      | .error problem =>
        let fault := ⟨number, String.ofList (Line.withoutBlanks text), problem⟩
        { others with faults := fault :: others.faults }
    else empty

/-- The rules of an ignore file. -/
def ofBytes (bytes : List UInt8) : Rules := ofLines 1 (splitLines bytes)

/-- What the last rule that is about the path says: whether it is ignored. -/
def decide? (r : Rules) (path : List UInt8) (isDirectory : Bool) : Option Bool :=
  (r.rules.reverse.find? fun rule =>
    (!rule.directoriesOnly || isDirectory) && rule.pattern.accepts path).map (!·.takesBack)

end Rules

end LoaderLint.Ignore
