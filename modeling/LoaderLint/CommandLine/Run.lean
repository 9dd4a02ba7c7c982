import LoaderLint.CommandLine.Help
import LoaderLint.CommandLine.Template
import LoaderLint.Config.Decode
import LoaderLint.Log
import LoaderLint.Report.Json
import LoaderLint.Walk

/-!
# Running the program

The program as a function of its command line, its environment and the files it can see.

The module introduces:

* `Drawing` — how findings are drawn beside their source;
* `World` — what the program is run with;
* `Failure`, `Completion` — what comes out of it;
* `World.run` — a run of the program.

## References

* The specification of amd-lint, §12.5: the commands `check`, `list-rules` and `init` are
  `World.run` here;
* §11.3: the lookup of the configuration file, `ConfigSource`, is `World.configFile?` here.
-/

namespace LoaderLint.CommandLine

/-- How a finding is drawn beside its source: from the name and the text of the file and from the
captions of the finding. The program leaves the layout of such a picture to what it is run with. -/
abbrev Drawing := (name source : String) → Diagnostic → String

/-- What the program is run with. -/
structure World where
  /-- The words of its command line. -/
  words : List String
  /-- The variables of its environment. -/
  environment : List (String × String)
  /-- The directory it is run in. -/
  workingDirectory : Path
  /-- The files, from the root directory on. -/
  files : FileTree
  /-- The pictures of findings. -/
  draw : Drawing
deriving Inhabited

/-- Why a command fails: what failed, and what that came from. -/
structure Failure where
  /-- What failed. -/
  headline : String
  /-- What it came from, the nearest cause first. -/
  causes : List String
deriving DecidableEq, Repr, Inhabited

namespace Failure

/-- A cause with the number that it has if there are several. -/
def causeLine (numbered : Bool) (n : Nat) (cause : String) : String :=
  "\n    " ++ (if numbered then toString n ++ ": " else "") ++ cause

/-- The text of a failure. -/
def text (f : Failure) : String :=
  "Error: " ++ f.headline ++
    if f.causes.isEmpty then "\n"
    else
      "\n\nCaused by:" ++
        String.join (f.causes.mapIdx fun n cause => causeLine (1 < f.causes.length) n cause) ++
        "\n"

end Failure

/-- What comes out of a run of the program. -/
structure Completion where
  /-- The exit status. -/
  status : Nat
  /-- What is printed. -/
  output : String
  /-- The warnings that are shown. -/
  warnings : List Warning
  /-- Why the command failed. -/
  failure : Option Failure
  /-- The files afterwards. -/
  files : FileTree
deriving Inhabited

/-- The part of the program that a warning comes from. -/
def sourceOf : Warning → String
  | .notUtf8 _ | .notParsed _ => "amd_lint_core::analyzer"
  | .unknownRule _ => "amd_lint_rules::registry"

/-- The causes of a configuration that cannot be used. -/
def configCauses : ConfigError → List String
  | .unreadable path cause => [(ConfigError.unreadable path cause).message, cause]
  | e => [e.message]

namespace World

/-- The value of a variable. -/
def setting? (w : World) (name : String) : Option String :=
  (w.environment.find? (·.1 = name)).map (·.2)

/-- A path as seen from the working directory. -/
def absolute (w : World) (p : Path) : Path := w.workingDirectory.join p

/-- The filter of warnings. -/
def logFilter (w : World) : Log.Filter :=
  ((w.setting? "RUST_LOG").bind Log.Filter.parse?).getD .default

/-- The warnings that are shown. -/
def shown (w : World) (warnings : List Warning) : List Warning :=
  warnings.filter fun warning => w.logFilter.shows (sourceOf warning) .warn

/-- The directory of the configuration of the user. -/
def userDirectory? (w : World) : Option Path :=
  ((w.setting? "AMD_LINT_CONFIG_DIR").map Path.mk) <|>
    ((w.setting? "HOME").map fun home => Path.join ⟨home⟩ ⟨".amd-lint"⟩)

/-- The places where a configuration is looked for. -/
def configPlaces (w : World) (project : Path) : List Path :=
  [project.join ⟨"amd-lint.toml"⟩, project.join ⟨".amd-lint.toml"⟩] ++
    (w.userDirectory?.map (·.join ⟨"config.toml"⟩)).toList

/-- The file of the configuration: the named one, or the first one that exists. -/
def configFile? (w : World) (project : Path) (named : Option String) : Option Path :=
  (named.map Path.mk) <|>
    (w.configPlaces project).find? fun p => w.files.isFile (w.absolute p)

/-- The configuration in a file. -/
def readConfig (w : World) (p : Path) : Except ConfigError Config :=
  match w.files.read (w.absolute p) with
  | .error fault => .error (.unreadable p fault.message)
  | .ok text => Config.parse text

/-- The configuration of a check. -/
def loadConfig (w : World) (project : Path) (named : Option String) : Except Failure Config :=
  match w.configFile? project named with
  | none => .ok {}
  | some p =>
    match w.readConfig p with
    | .ok c => .ok c
    | .error e => .error ⟨"Failed to load config: " ++ p.spelling, configCauses e⟩

/-- The report in a format, where the findings are below `root`. -/
def render (w : World) (root : Path) (r : Report) : Format → String
  | .text => r.text true
  | .json => r.json ++ "\n"
  | .compact => r.compact
  | .pretty =>
    String.join (r.findings.map fun f =>
      match w.files.read (root.join f.location.file) with
      | .ok source => w.draw f.location.file.spelling source f.diagnostic ++ "\n"
      | .error _ => f.line ++ "\n") ++ r.summaryLine true

/-- The run as it ends with a failure. -/
def failed (w : World) (warnings : List Warning) (f : Failure) : Completion :=
  ⟨1, "", w.shown warnings, some f, w.files⟩

/-- The run as it ends with an output. -/
def done (w : World) (status : Nat) (output : String) (warnings : List Warning) : Completion :=
  ⟨status, output, w.shown warnings, none, w.files⟩

/-- The names in a list with commas. -/
def namesIn (list : String) : List String :=
  ((list.toList.splitOn ',').map Text.trim).filterMap fun name =>
    if name.isEmpty then none else some (String.ofList name)

/-- A check with the configuration and the rules that it uses. -/
def checkWith (w : World) (o : CheckOptions) (config : Config) (rules : List Rule)
    (warnings : List Warning) : Completion :=
  let setup : Setup := { root := some ⟨o.path⟩, rules, excluded := o.excluded, config }
  match setup.build w.workingDirectory with
  | .error fault =>
    w.failed warnings
      ⟨"Failed to build analyzer", ["Invalid glob pattern: " ++ fault.message, fault.message]⟩
  | .ok a =>
    match w.files.search config.analyzer.respectIgnored a.root with
    | .error fault =>
      w.failed warnings
        ⟨"Analysis failed", ["Failed to walk directory: " ++ fault.message, fault.message]⟩
    | .ok entries =>
      let outcome := a.run entries
      let warnings := warnings ++ outcome.warnings
      match outcome.result with
      | .error path =>
        w.failed warnings ⟨"Analysis failed", ["Parse error in " ++ path.spelling]⟩
      | .ok r =>
        w.done (if r.hasAtLeast config.failThreshold then 1 else 0) (w.render a.root r o.format)
          warnings

/-- A check. -/
def check (w : World) (o : CheckOptions) (named : Option String) : Completion :=
  match w.loadConfig ⟨o.path⟩ named with
  | .error f => w.failed [] f
  | .ok config =>
    let names := o.rules.map namesIn
    let selected := match names with
      | some names => selectNamed names config
      | none => selectConfigured config
    let warnings := (unknownNames (names.getD []) config).map Warning.unknownRule
    match selected with
    | .error e => w.failed warnings ⟨"Failed to configure rules", configCauses e⟩
    | .ok rules => w.checkWith o config rules warnings

/-- What is printed when a configuration to start from was written. -/
def createdText : String :=
  "Created ./amd-lint.toml\n\nNext steps:\n  1. Edit amd-lint.toml to configure rules\n" ++
    "  2. Run: amd-lint check\n"

/-- Writes a configuration to start from, unless there is one that is not to be replaced. -/
def init (w : World) (force : Bool) : Completion :=
  if !force ∧ w.files.leadsSomewhere (w.absolute ⟨"./amd-lint.toml"⟩) then
    w.failed [] ⟨"Configuration file already exists at ./amd-lint.toml. Use --force to overwrite.",
      []⟩
  else
    match w.files.write w.workingDirectory "amd-lint.toml" template with
    | .error fault => w.failed [] ⟨fault.message, []⟩
    | .ok files => { w.done 0 createdText [] with files }

/-- A run of the program. -/
def run (w : World) : Completion :=
  match Request.of w.words (w.setting? "AMD_LINT_CONFIG") with
  | .misuse => w.done 2 "" []
  | .version => w.done 0 versionLine []
  | .help verb => w.done 0 (usage verb) []
  | .run arguments =>
    match arguments.command with
    | .check o => w.check o arguments.config
    | .listRules => w.done 0 ruleList []
    | .init force => w.init force

end World

end LoaderLint.CommandLine
