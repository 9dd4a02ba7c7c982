import LoaderLint.CommandLine.Run

/-!
# The program

Collects what the program is run with, runs it, and prints what comes out of it.
-/

namespace LoaderLint.CommandLine

/-- The file or directory at a path, if there is one. -/
partial def loadTree (path : String) : IO (Option FileTree) := do
  let place ← IO.FS.realPath path
  if ← place.isDir then
    let mut entries : List (String × FileTree) := []
    for entry in ← place.readDir do
      if let some t ← loadTree (path ++ "/" ++ entry.fileName) then
        entries := (entry.fileName, t) :: entries
    return some (.directory entries)
  else if ← place.pathExists then
    return some (.file (← IO.FS.readBinFile path).toList)
  else return none

/-- The tree with what is at an absolute path, if there is anything. -/
def addPath (t : FileTree) (path : String) : IO FileTree := do
  match ← loadTree path with
  | some found =>
    return t.put ((path.splitOn "/").filter fun name => name ≠ "" && name ≠ ".") found
  | none => return t

/-- The files that say what is ignored in a directory. -/
def ignoreFiles : List String := ["/.ignore", "/.gitignore", "/.git/info/exclude"]

/-- The tree with the ignore files of the directories above a path. -/
def addIgnoreFiles (t : FileTree) (path : String) : IO FileTree := do
  let names := path.splitOn "/"
  let above := (List.range names.length).map fun n => "/".intercalate (names.take n)
  let mut t := t
  for directory in above do
    for file in ignoreFiles do
      t ← addPath t (directory ++ file)
  return t

/-- A finding with the stretches of its source that have captions, a line each. -/
def plainDrawing : Drawing := fun name source d =>
  let stretch (c : Caption) : String :=
    (String.fromUTF8? (source.toUTF8.extract c.offset (c.offset + c.length))).getD ""
  "  x " ++ d.message ++ "\n  --> " ++ name ++ "\n" ++
    String.join (d.captions.map fun c => "  | " ++ c.text ++ ": " ++ stretch c ++ "\n") ++
    String.join (d.help.toList.map fun help => "  help: " ++ help ++ "\n")

/-- The variables that the program looks at. -/
def variableNames : List String := ["AMD_LINT_CONFIG", "AMD_LINT_CONFIG_DIR", "HOME", "RUST_LOG"]

/-- The values of the variables that the program looks at. -/
def readEnvironment : IO (List (String × String)) := do
  let values ← variableNames.mapM fun name => do
    return (← IO.getEnv name).map fun value => (name, value)
  return values.filterMap id

/-- The paths that a run looks at besides the working directory. -/
def mentioned (w : World) : List Path :=
  match Request.of w.words (w.setting? "AMD_LINT_CONFIG") with
  | .run a =>
    let checked := match a.command with
      | .check o => [⟨o.path⟩]
      | _ => []
    (checked ++ (a.config.map Path.mk).toList ++ w.userDirectory?.toList).map w.absolute
  | _ => []

/-- What the program is run with. -/
def collect (words : List String) : IO World := do
  let directory := (← IO.FS.realPath ".").toString
  let w : World :=
    { words, environment := ← readEnvironment, workingDirectory := ⟨directory⟩,
      files := .directory [], draw := plainDrawing }
  let mut files ← addPath (.directory []) directory
  files ← addIgnoreFiles files directory
  for p in mentioned w do
    files ← addPath files p.spelling
    files ← addIgnoreFiles files p.spelling
  return { w with files }

/-- The text of the configuration file in the working directory. -/
def ownConfig (w : World) (files : FileTree) : Except FileFault String :=
  files.read (w.absolute ⟨"amd-lint.toml"⟩)

/-- Writes the configuration file in the working directory, if the run changed it. -/
def store (w : World) (c : Completion) : IO Unit := do
  match ownConfig w w.files, ownConfig w c.files with
  | .ok before, .ok behind =>
    if before ≠ behind then IO.FS.writeFile "amd-lint.toml" behind
  | .error _, .ok behind => IO.FS.writeFile "amd-lint.toml" behind
  | _, .error _ => return ()

end LoaderLint.CommandLine

open LoaderLint.CommandLine

/-- Runs the program. -/
def main (words : List String) : IO UInt32 := do
  let w ← collect words
  let c := w.run
  IO.print c.output
  for warning in c.warnings do
    IO.eprintln ("WARN " ++ warning.message)
  if let some failure := c.failure then
    IO.eprint failure.text
  if c.status = 2 then
    IO.eprint (usage none)
  store w c
  return c.status.toUInt32
