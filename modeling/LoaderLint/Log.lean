import LoaderLint.Text.Blank
import LoaderLint.Text.Digits
import LoaderLint.Text.Split

/-!
# Log filters

A filter decides which warnings are shown. It lists directives, divided by commas: a level for
everything, a level for the sources whose names start with a text, or such a text alone for all
levels.

The module introduces:

* `Log.Level`, `Log.Directive`, `Log.Filter` — levels, directives and filters;
* `Log.Filter.parse?` — the filter that a text spells;
* `Log.Filter.shows` — whether a message of a level is shown.

## References

* The specification of amd-lint, §11.2: the filter of the log is `Log.Filter` here.
-/

namespace LoaderLint.Log

/-- How detailed a log is. -/
inductive Level where
  /-- Nothing is shown. -/
  | off
  /-- Errors are shown. -/
  | error
  /-- Warnings too. -/
  | warn
  /-- Remarks too. -/
  | info
  /-- Steps too. -/
  | debug
  /-- Everything is shown. -/
  | trace
deriving DecidableEq, Repr, Inhabited

namespace Level

/-- The levels in increasing order. -/
def all : List Level := [off, error, warn, info, debug, trace]

/-- The place of a level in their order. -/
def rank : Level → Nat
  | off => 0
  | error => 1
  | warn => 2
  | info => 3
  | debug => 4
  | trace => 5

/-- The word for a level. -/
def name : Level → String
  | off => "off"
  | error => "error"
  | warn => "warn"
  | info => "info"
  | debug => "debug"
  | trace => "trace"

/-- The level that a text names, by its word in any case or by its number. -/
def ofText? (text : List Char) : Option Level :=
  match Text.digitsValue? 10 text with
  | some n => all[n]?
  | none => all.find? fun l => l.name.toList = text.map Char.toLower

end Level

/-- A directive of a filter. -/
structure Directive where
  /-- What the name of a source has to start with; all sources if nothing is given. -/
  source : Option (List Char)
  /-- What is shown of them. -/
  level : Level
  /-- Whether the directive is about certain stretches of a run, of which there are none. -/
  confined : Bool
deriving DecidableEq, Repr, Inhabited

namespace Directive

/-- Whether a directive can start with a character. -/
def canStart (c : Char) : Bool :=
  c = '[' || c = '-' || c = ':' || c = '_' || c.isAlphanum || 128 ≤ c.toNat

/-- The directive that a text spells. -/
def parse? (text : List Char) : Option Directive :=
  let text := Text.trim text
  if !(text.head?.any canStart) then none
  else if text.contains '[' then some ⟨none, .off, true⟩
  else
    match Text.cutAt? ['='] text with
    | some (source, []) => some ⟨some source, .trace, false⟩
    | some (source, level) => (Level.ofText? level).map fun l => ⟨some source, l, false⟩
    | none =>
      match Level.ofText? text with
      | some l => some ⟨none, l, false⟩
      | none => some ⟨some text, .trace, false⟩

/-- Whether the directive is about a source. -/
def concerns (d : Directive) (source : List Char) : Bool :=
  !d.confined &&
    match d.source with
    | some start => (Text.dropStart? start source).isSome
    | none => true

/-- How closely the directive describes a source. -/
def specificity (d : Directive) : Nat :=
  match d.source with
  | some start => start.length + 1
  | none => 0

end Directive

/-- Directives, of which the one that describes a source most closely decides about it. -/
structure Filter where
  /-- The directives. -/
  directives : List Directive
deriving DecidableEq, Repr, Inhabited

namespace Filter

/-- The filter that shows remarks and what is more important. -/
def default : Filter := ⟨[⟨none, .info, false⟩]⟩

/-- The filter that a text spells. An empty one shows errors only. -/
def parse? (text : String) : Option Filter :=
  if text.isEmpty then some ⟨[⟨none, .error, false⟩]⟩
  else ((text.toList.splitOn ',').mapM Directive.parse?).map Filter.mk

/-- The directive that decides about a source; of two alike, the later one. -/
def deciding? (f : Filter) (source : List Char) : Option Directive :=
  (f.directives.filter (·.concerns source)).foldl
    (fun best d =>
      match best with
      | some b => if b.specificity ≤ d.specificity then some d else some b
      | none => some d)
    none

/-- Whether a message of a level from a source is shown. -/
def shows (f : Filter) (source : String) (level : Level) : Bool :=
  match f.deciding? source.toList with
  | some d => level.rank ≤ d.level.rank
  | none => false

end Filter

end LoaderLint.Log
