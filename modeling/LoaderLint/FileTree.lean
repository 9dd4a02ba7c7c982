import LoaderLint.Path
import LoaderLint.Text.Utf8

/-!
# File trees

The files and directories below a root directory, and the paths that lead to them.

The module introduces:

* `FileTree` — a file, or a directory with what it holds;
* `Place`, `FileTree.locate` — what a path leads to, and the directories around it;
* `FileTree.read`, `FileTree.write` — the text of a file;
* `FileFault` — why a path leads nowhere or a file cannot be used.

## References

* The specification of amd-lint, §10.4, file discovery: the directories that are walked.
-/

namespace LoaderLint

/-- A file, or a directory with what it holds. -/
inductive FileTree where
  /-- A file. -/
  | file (bytes : List UInt8)
  /-- A directory. -/
  | directory (children : List (String × FileTree))
deriving Inhabited

/-- Why a path leads nowhere or a file cannot be used. -/
inductive FileFault where
  /-- There is nothing. -/
  | missing
  /-- A file stands where a directory is needed. -/
  | notDirectory
  /-- A directory stands where a file is needed. -/
  | isDirectory
  /-- A file is no UTF-8. -/
  | notUtf8
deriving DecidableEq, Repr, Inhabited

/-- What is said of a fault. -/
def FileFault.message : FileFault → String
  | missing => "No such file or directory (os error 2)"
  | notDirectory => "Not a directory (os error 20)"
  | isDirectory => "Is a directory (os error 21)"
  | notUtf8 => "stream did not contain valid UTF-8"

namespace FileTree

/-- What a directory holds. -/
def children : FileTree → List (String × FileTree)
  | file _ => []
  | directory entries => entries

/-- What a directory holds under a name. -/
def child? (t : FileTree) (name : String) : Option FileTree :=
  (t.children.find? (·.1 = name)).map (·.2)

/-- The bytes of a file. -/
def bytes? : FileTree → Option (List UInt8)
  | file bytes => some bytes
  | directory _ => none

/-- Entries with the one under the name changed, or added behind the others. -/
def setEntry (name : String) (t : FileTree) : List (String × FileTree) → List (String × FileTree)
  | [] => [(name, t)]
  | (other, u) :: rest =>
    if other = name then (name, t) :: rest else (other, u) :: setEntry name t rest

/-- The tree with another tree at the end of a chain of names. Directories on the way are added
where they are missing. -/
def put : List String → FileTree → FileTree → FileTree
  | [], new, _ => new
  | name :: rest, new, t =>
    directory (setEntry name (put rest new ((t.child? name).getD (directory []))) t.children)

end FileTree

/-- What a path leads to. -/
structure Place where
  /-- The names on the way from the root. -/
  names : List String
  /-- The directories on the way, the nearest one first. -/
  above : List FileTree
  /-- The file or directory. -/
  tree : FileTree
deriving Inhabited

/-- The place that one more text between slashes leads to. -/
def Place.step (p : Place) (piece : List Char) : Except FileFault Place :=
  match p.tree with
  | .file _ => .error .notDirectory
  | .directory _ =>
    if Path.isFiller piece then .ok p
    else if piece = ['.', '.'] then
      match p.above with
      | [] => .ok p
      | up :: rest => .ok ⟨p.names.dropLast, rest, up⟩
    else
      let name := String.ofList piece
      match p.tree.child? name with
      | some t => .ok ⟨p.names ++ [name], p.tree :: p.above, t⟩
      | none => .error .missing

namespace FileTree

/-- The place that a path leads to, from the root on. -/
def locate (root : FileTree) (p : Path) : Except FileFault Place :=
  (p.spelling.toList.splitOn '/').foldlM Place.step ⟨[], [], root⟩

/-- Whether a path leads to a file. -/
def isFile (root : FileTree) (p : Path) : Bool :=
  match root.locate p with
  | .ok place => place.tree.bytes?.isSome
  | .error _ => false

/-- Whether a path leads anywhere. -/
def leadsSomewhere (root : FileTree) (p : Path) : Bool := (root.locate p).isOk

/-- The text of the file that a path leads to. -/
def read (root : FileTree) (p : Path) : Except FileFault String := do
  match (← root.locate p).tree with
  | directory _ => .error .isDirectory
  | file bytes =>
    if Text.Utf8.isUtf8 bytes then .ok (String.ofList (Text.Utf8.decode bytes))
    else .error .notUtf8

/-- The tree with a text in a file of a directory. -/
def write (root : FileTree) (directoryPath : Path) (name : String) (content : String) :
    Except FileFault FileTree := do
  let place ← root.locate directoryPath
  match place.tree, place.tree.child? name with
  | file _, _ => .error .notDirectory
  | directory _, some (directory _) => .error .isDirectory
  | directory _, _ =>
    .ok (put (place.names ++ [name]) (file content.toUTF8.toList) root)

end FileTree

end LoaderLint
