import LoaderLint.Analyzer.Run
import LoaderLint.FileTree
import LoaderLint.Ignore.Rules

/-!
# Searching file trees

A search comes across everything below a directory that no ignore file rules out. An ignored
directory is not entered. Ignore files count in every directory and in those above the one that is
searched; of two that are about a path, the kind of the file decides first, then its depth.

The module introduces:

* `Level` — the ignore files of a directory;
* `isIgnored` — what they say about a path;
* `FileTree.search` — everything below a path that is not ignored.

## References

* The specification of amd-lint, §10.4, file discovery: the walk over the root that honours ignore
  files is `FileTree.search` here.
-/

namespace LoaderLint

open Ignore (Rules)

/-- The ignore files of a directory, and where the search stands below it. -/
structure Level where
  /-- The path from the directory to the one that is searched, with a slash at its end unless it is
  empty. -/
  below : List UInt8
  /-- The rules for searches. -/
  search : Rules
  /-- The rules of the project for version control. -/
  shared : Rules
  /-- The rules of the working copy for version control. -/
  personal : Rules
deriving Inhabited

/-- The rules of a file that names lead to. -/
def rulesAt (t : FileTree) (names : List String) : Rules :=
  match (names.foldlM FileTree.child? t).bind FileTree.bytes? with
  | some bytes => .ofBytes bytes
  | none => .empty

namespace Level

/-- The ignore files of a directory. Those of version control count where `tracked` says so. -/
def of (tracked : Bool) (t : FileTree) : Level where
  below := []
  search := rulesAt t [".ignore"]
  shared := if tracked then rulesAt t [".gitignore"] else .empty
  personal := if tracked then rulesAt t [".git", "info", "exclude"] else .empty

/-- The level as seen from a directory below. -/
def enter (name : String) (l : Level) : Level :=
  { l with below := l.below ++ name.toUTF8.toList ++ [0x2f] }

/-- The lines of the ignore files of a directory that are no rules, with the names of the files. -/
def faults (l : Level) : List (String × Ignore.Fault) :=
  l.search.faults.map (".ignore", ·) ++ l.shared.faults.map (".gitignore", ·) ++
    l.personal.faults.map (".git/info/exclude", ·)

end Level

/-- Whether a name in the directory that is searched is ignored. `levels` are the directories
around it, the nearest one first. -/
def isIgnored (levels : List Level) (name : String) (isDirectory : Bool) : Bool :=
  let ask (kind : Level → Rules) : Option Bool :=
    levels.findSome? fun l => (kind l).decide? (l.below ++ name.toUTF8.toList) isDirectory
  (ask Level.search <|> ask Level.shared <|> ask Level.personal).getD false

mutual

/-- Everything in a directory that is not ignored, and everything below it. -/
def entriesBelow (tracked : Bool) (levels : List Level) (path : Path) : FileTree → List Entry
  | .file bytes => [⟨path, some bytes⟩]
  | .directory children =>
    ⟨path, none⟩ ::
      entriesAmong tracked (Level.of tracked (.directory children) :: levels) path children

/-- The entries among what a directory holds. -/
def entriesAmong (tracked : Bool) (levels : List Level) (path : Path) :
    List (String × FileTree) → List Entry
  | [] => []
  | (name, t) :: rest =>
    let here :=
      if isIgnored levels name t.bytes?.isNone then []
      else entriesBelow tracked (levels.map (Level.enter name)) (path.join ⟨name⟩) t
    here ++ entriesAmong tracked levels path rest

end

/-- Why a search fails. -/
inductive SearchFault where
  /-- The path that is searched leads nowhere. -/
  | noRoot (path : Path) (cause : FileFault)
  /-- Lines of ignore files above the path are no rules. -/
  | badRules (faults : List (Path × Ignore.Fault))
deriving DecidableEq, Repr, Inhabited

/-- What is said of a search that fails. -/
def SearchFault.message : SearchFault → String
  | noRoot path cause =>
    path.spelling ++ ": IO error for operation on " ++ path.spelling ++ ": " ++ cause.message
  | badRules faults =>
    "\n".intercalate (faults.map fun (path, fault) => path.spelling ++ ": " ++ fault.message)

/-- The levels of directories above a place, the nearest one first. `names` lead to the place, the
last one first, and `above` are the directories on the way. -/
def levelsAbove (tracked : Bool) : List String → List FileTree → List Level
  | name :: names, t :: above =>
    let own := (Level.of tracked t).enter name
    own :: (levelsAbove tracked names above).map (Level.enter name)
  | _, _ => []

/-- The absolute path that names lead to. -/
def Path.ofNames (names : List String) : Path := ⟨"/" ++ "/".intercalate names⟩

/-- The lines of ignore files above a place that are no rules, those nearest to the root first. -/
def faultsAbove (tracked : Bool) : List String → List FileTree → List (Path × Ignore.Fault)
  | _ :: names, t :: above =>
    faultsAbove tracked names above ++
      (Level.of tracked t).faults.map fun (file, fault) =>
        (.ofNames (names.reverse ++ [file]), fault)
  | _, _ => []

namespace FileTree

/-- Everything at a path and below it that is not ignored. A file is searched whatever ignore files
say of it. Lines that are no rules are passed over, except above a directory that is searched. -/
def search (root : FileTree) (tracked : Bool) (path : Path) : Except SearchFault (List Entry) :=
  match root.locate path with
  | .error cause => .error (.noRoot path cause)
  | .ok place =>
    match place.tree with
    | file bytes => .ok [⟨path, some bytes⟩]
    | directory children =>
      let names := place.names.reverse
      let faults := faultsAbove tracked names place.above
      if faults.isEmpty then
        .ok (entriesBelow tracked (levelsAbove tracked names place.above) path
          (directory children))
      else .error (.badRules faults)

end FileTree

end LoaderLint
