import LoaderLint.Text.Split

/-!
# Command lines

The words of a command line, read as a command with its options. Options of the whole program may
stand before and behind the name of the command; each option may be given once in each of these
places.

The module introduces:

* `Format`, `CheckOptions`, `Command`, `Arguments` — a command with its options;
* `Request` — what a command line asks for;
* `Request.of` — the reading of a command line.

## References

* The specification of amd-lint, §12.5: the commands and their options.
-/

namespace LoaderLint.CommandLine

/-- How a report is printed. -/
inductive Format where
  /-- A coloured block for each finding. -/
  | text
  /-- JSON. -/
  | json
  /-- A line for each finding. -/
  | compact
  /-- The source around each finding. -/
  | pretty
deriving DecidableEq, Repr, Inhabited

/-- The format with the name. -/
def Format.ofName? : String → Option Format
  | "text" => some text
  | "json" => some json
  | "compact" => some compact
  | "pretty" => some pretty
  | _ => none

/-- The options of a check. -/
structure CheckOptions where
  /-- What is checked. -/
  path : String := "."
  /-- How the report is printed. -/
  format : Format := .text
  /-- The rules that are used instead of those of the preset. -/
  rules : Option String := none
  /-- Patterns of files that are left out. -/
  excluded : List String := []
deriving DecidableEq, Repr, Inhabited

/-- A command. -/
inductive Command where
  /-- Checks files. -/
  | check (options : CheckOptions)
  /-- Lists the rules. -/
  | listRules
  /-- Writes a configuration to start from. -/
  | init (force : Bool)
deriving DecidableEq, Repr, Inhabited

/-- A command with the options of the whole program. -/
structure Arguments where
  /-- Whether more is logged. -/
  verbose : Bool
  /-- The configuration that is used. -/
  config : Option String
  /-- The command. -/
  command : Command
deriving DecidableEq, Repr, Inhabited

/-- A name of a command. -/
inductive Verb where
  /-- Checks files. -/
  | check
  /-- Lists the rules. -/
  | listRules
  /-- Writes a configuration to start from. -/
  | init
deriving DecidableEq, Repr, Inhabited

/-- The command with the name. -/
def Verb.ofName? : String → Option Verb
  | "check" => some check
  | "list-rules" => some listRules
  | "init" => some init
  | _ => none

/-- What a command line asks for. -/
inductive Request where
  /-- A command. -/
  | run (arguments : Arguments)
  /-- The version. -/
  | version
  /-- How the program, or a command of it, is used. -/
  | help (verb : Option Verb)
  /-- Nothing: it cannot be read. -/
  | misuse
deriving DecidableEq, Repr, Inhabited

/-- An option. -/
inductive Switch where
  /-- Logs more. -/
  | verbose
  /-- Names the configuration. -/
  | config
  /-- Tells how the program is used. -/
  | help
  /-- Tells the version. -/
  | version
  /-- Says how the report is printed. -/
  | format
  /-- Names rules. -/
  | rules
  /-- Leaves files out. -/
  | exclude
  /-- Replaces a file. -/
  | force
deriving DecidableEq, Repr, Inhabited

namespace Switch

/-- Whether an option has a value. -/
def hasValue : Switch → Bool
  | config | format | rules | exclude => true
  | verbose | help | version | force => false

/-- Whether an option may stand behind the name of a command, or before one. -/
def allowed (s : Switch) : Option Verb → Bool
  | none => s = verbose || s = config || s = help || s = version
  | some .check =>
    s = verbose || s = config || s = help || s = format || s = rules || s = exclude
  | some .listRules => s = verbose || s = config || s = help
  | some .init => s = verbose || s = config || s = help || s = force

/-- The option with the name behind two dashes. -/
def ofLong? : String → Option Switch
  | "verbose" => some verbose
  | "config" => some config
  | "help" => some help
  | "version" => some version
  | "format" => some format
  | "rules" => some rules
  | "exclude" => some exclude
  | "force" => some force
  | _ => none

/-- The option with the letter behind one dash. -/
def ofShort? : Char → Option Switch
  | 'v' => some verbose
  | 'c' => some config
  | 'h' => some help
  | 'V' => some version
  | 'f' => some format
  | 'e' => some exclude
  | _ => none

end Switch

/-- The options given on one side of the name of a command. -/
structure Given where
  /-- The name of the command, if the options stand behind it. -/
  verb : Option Verb
  /-- The options without values. -/
  flags : List Switch := []
  /-- The options with values, in order. -/
  values : List (Switch × String) := []
  /-- Words that are no options. -/
  words : List String := []
deriving DecidableEq, Repr, Inhabited

/-- Why the reading of a command line ends early. -/
inductive Stop where
  /-- It asks how the program is used. -/
  | help (verb : Option Verb)
  /-- It asks for the version. -/
  | version
  /-- It cannot be read. -/
  | misuse
deriving DecidableEq, Repr, Inhabited

namespace Given

/-- The values of an option, in order. -/
def valuesOf (g : Given) (s : Switch) : List String :=
  (g.values.filter (·.1 = s)).map (·.2)

/-- The last value of an option. -/
def value? (g : Given) (s : Switch) : Option String := (g.valuesOf s).getLast?

/-- Whether a value suits an option: paths are not empty, and formats have names. -/
def suits (s : Switch) (value : String) : Bool :=
  match s with
  | .config => value != ""
  | .format => (Format.ofName? value).isSome
  | _ => true

/-- The options with one more that has no value. -/
def addFlag (g : Given) (s : Switch) : Except Stop Given :=
  if !s.allowed g.verb ∨ s.hasValue then .error .misuse
  else if s = .help then .error (.help g.verb)
  else if s = .version then .error .version
  else if g.flags.contains s then .error .misuse
  else .ok { g with flags := s :: g.flags }

/-- The options with one more that has a value. Only patterns may be given more than once. -/
def addValue (g : Given) (s : Switch) (value : String) : Except Stop Given :=
  if !s.allowed g.verb ∨ !s.hasValue ∨ !suits s value then .error .misuse
  else if s ≠ .exclude ∧ g.valuesOf s ≠ [] then .error .misuse
  else .ok { g with values := g.values ++ [(s, value)] }

/-- The options with one more word. Only a check takes one, which is a path. -/
def addWord (g : Given) (word : String) : Except Stop Given :=
  if g.verb = some .check ∧ g.words = [] ∧ word ≠ "" then .ok { g with words := [word] }
  else .error .misuse

end Given

/-- Whether a word is an option, or looks like one. -/
def looksLikeOption (word : List Char) : Bool :=
  match word with
  | '-' :: _ :: _ => true
  | _ => false

/-- The options with those of a word behind one dash: letters of options without values, then one
with a value, which is the rest of the word or the next word. Gives back the words that are
left. -/
def shortOptions (g : Given) (rest : List String) : List Char → Except Stop (Given × List String)
  | [] => .ok (g, rest)
  | c :: letters =>
    match Switch.ofShort? c with
    | none => .error .misuse
    | some s =>
      if s.hasValue then
        match letters, rest with
        | '=' :: value, rest => do return (← g.addValue s (String.ofList value), rest)
        | [], value :: rest =>
          if looksLikeOption value.toList then .error .misuse
          else do return (← g.addValue s value, rest)
        | [], [] => .error .misuse
        | value, rest => do return (← g.addValue s (String.ofList value), rest)
      else do shortOptions (← g.addFlag s) rest letters

/-- The options with that of a word behind two dashes, whose value stands behind an equals sign or
is the next word. Gives back the words that are left. -/
def longOption (g : Given) (rest : List String) (word : List Char) :
    Except Stop (Given × List String) :=
  let (name, value) := match Text.cutAt? ['='] word with
    | some (name, value) => (name, some (String.ofList value))
    | none => (word, none)
  match Switch.ofLong? (String.ofList name) with
  | none => .error .misuse
  | some s =>
    if s.hasValue then
      match value, rest with
      | some value, rest => do return (← g.addValue s value, rest)
      | none, value :: rest =>
        if looksLikeOption value.toList then .error .misuse
        else do return (← g.addValue s value, rest)
      | none, [] => .error .misuse
    else if value.isSome then .error .misuse
    else do return (← g.addFlag s, rest)

/-- The options on one side of the name of a command, and the words that are left: those behind a
word that is no option, with that word, where `words` are not taken in. At most `limit` words are
read. -/
def readOptions : Nat → Given → List String → Except Stop (Given × List String)
  | limit + 1, g, word :: rest =>
    match word.toList with
    | ['-', '-'] => do
      return (← rest.foldlM Given.addWord g, [])
    | '-' :: '-' :: name => do
      let (g, rest) ← longOption g rest name
      readOptions limit g rest
    | '-' :: c :: letters => do
      let (g, rest) ← shortOptions g rest (c :: letters)
      readOptions limit g rest
    | _ =>
      if g.verb.isNone then .ok (g, word :: rest)
      else do readOptions limit (← g.addWord word) rest
  | _, g, rest => .ok (g, rest)

/-- The command that its options make. -/
def commandOf (g : Given) : Verb → Command
  | .check => .check {
      path := g.words.head?.getD "."
      format := ((g.value? .format).bind Format.ofName?).getD .text
      rules := g.value? .rules
      excluded := g.valuesOf .exclude }
  | .listRules => .listRules
  | .init => .init (g.flags.contains .force)

/-- What a question about a command asks for. -/
def helpRequest : List String → Request
  | [] => .help none
  | [word] =>
    match Verb.ofName? word with
    | some verb => .help (some verb)
    | none => if word = "help" then .help none else .misuse
  | _ => .misuse

namespace Request

/-- The request that a reading which ended early stands for. -/
def ofStop : Stop → Request
  | .help verb => .help verb
  | .version => .version
  | .misuse => .misuse

/-- What the options on both sides of the name of a command ask for. A configuration that is named
behind it counts first, then one named before it, then `fallback`, which may not be empty where it
could count. -/
def ofSides (verb : Verb) (before behind : Given) (fallback : Option String) : Request :=
  let named := before.value? .config
  let renamed := behind.value? .config
  if fallback = some "" ∧ (named.isNone ∨ renamed.isNone) then .misuse
  else .run {
    verbose := before.flags.contains .verbose || behind.flags.contains .verbose
    config := renamed <|> named <|> fallback
    command := commandOf behind verb }

/-- What a command line asks for, where `fallback` is the configuration to use if none is named. -/
def of (words : List String) (fallback : Option String) : Request :=
  match readOptions words.length ⟨none, [], [], []⟩ words with
  | .error stop => ofStop stop
  | .ok (_, []) => .misuse
  | .ok (before, name :: rest) =>
    if name = "help" then helpRequest rest
    else
      match Verb.ofName? name with
      | none => .misuse
      | some verb =>
        match readOptions rest.length ⟨some verb, [], [], []⟩ rest with
        | .error stop => ofStop stop
        | .ok (behind, _) => ofSides verb before behind fallback

end Request

end LoaderLint.CommandLine
