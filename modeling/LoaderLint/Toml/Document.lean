import LoaderLint.Toml.Scalar

/-!
# TOML documents

A document is a list of keys with values under headers. A table may be given piece by piece: by
dotted keys, or by headers of tables inside it. What is given once in full may not be given again.

The module introduces:

* `Item` — a value of a document while it is being read, with how it was given;
* `insertAt?`, `openTable?`, `closeTable?` — a key with its value, the start and the end of a
  table;
* `value?` — a value of any kind;
* `parse?` — the table that a document holds.

## References

* The specification of amd-lint, §11.3: the documents that configurations are read from, in TOML
  1.0.
-/

namespace LoaderLint.Toml

/-- A value of a document while it is being read. -/
inductive Item where
  /-- A value that is given in full. -/
  | value (v : Value)
  /-- A table. It is implicit until it has a header of its own, and dotted if dotted keys made
  it. -/
  | table (implicit dotted : Bool) (entries : List (String × Item))
  /-- An array of tables, each under a header of its own. -/
  | tables (elements : List (List (String × Item)))
deriving Inhabited

/-- The keys of a table while it is being read. -/
abbrev Items := List (String × Item)

mutual

/-- The value that an item has become. -/
def Item.toValue : Item → Value
  | .value v => v
  | .table _ _ entries => .table (itemsToTable entries)
  | .tables elements => .tables (elementsToValues elements)

/-- The table that keys and items have become. -/
def itemsToTable : List (String × Item) → Table
  | [] => []
  | (key, item) :: rest => (key, item.toValue) :: itemsToTable rest

/-- The tables that the elements of an array have become. -/
def elementsToValues : List (List (String × Item)) → List Value
  | [] => []
  | entries :: rest => .table (itemsToTable entries) :: elementsToValues rest

end

/-- The item under a key. -/
def lookup? (key : String) (entries : Items) : Option Item :=
  (entries.find? (·.1 = key)).map (·.2)

/-- The keys with another item under one of them, in its old place, or at the end if the key is
new. -/
def put (key : String) (item : Item) (entries : Items) : Items :=
  if entries.any (·.1 = key) then
    entries.map fun (k, i) => if k = key then (k, item) else (k, i)
  else entries ++ [(key, item)]

/-- The elements with the last one changed. -/
def changeLast {α : Type} (change : α → Option α) : List α → Option (List α)
  | [] => none
  | [last] => (change last).map ([·])
  | first :: rest => (changeLast change rest).map (first :: ·)

/-- Changes the table at the end of a path by `change`, which is told whether dotted keys made that
table. Tables on the way that do not exist are made, and are dotted if `byKey` says that the path
is that of a dotted key; such a path does not enter a table that has a header. -/
def descend? (byKey : Bool) (change : Bool → Items → Option Items) (dotted : Bool) :
    List String → Items → Option Items
  | [], entries => change dotted entries
  | key :: path, entries =>
    match lookup? key entries with
    | none => do
      let inner ← descend? byKey change byKey path []
      return put key (.table true byKey inner) entries
    | some (.table implicit dotted inner) =>
      if byKey ∧ !implicit then none
      else do
        let inner ← descend? byKey change dotted path inner
        return put key (.table implicit dotted inner) entries
    | some (.tables elements) => do
      let elements ← changeLast (descend? byKey change false path) elements
      return put key (.tables elements) entries
    | some (.value _) => none

/-- A path as the way to its last key, and that key. -/
def splitLast : List String → List String × String
  | [] => ([], "")
  | [key] => ([], key)
  | key :: path =>
    let (way, last) := splitLast path
    (key :: way, last)

/-- Adds a key with its value to a table. The table is one that dotted keys made exactly if the key
is dotted, and it must not have the key. -/
def insertAt? (path : List String) (v : Value) (entries : Items) : Option Items :=
  let (way, key) := splitLast path
  descend? true (fun dotted inner =>
    if dotted = way.isEmpty then none
    else if inner.any (·.1 = key) then none
    else some (inner ++ [(key, .value v)])) false way entries

/-- The table that is being read. -/
structure Section where
  /-- The way to it from the root. -/
  path : List String
  /-- Whether it is an element of an array of tables. -/
  element : Bool
  /-- Its keys so far. -/
  entries : Items
deriving Inhabited

/-- A document while it is being read: all tables that are complete, and the one being read. -/
structure Draft where
  /-- The tables that are complete. -/
  root : Items
  /-- The table that is being read. -/
  current : Section
deriving Inhabited

/-- Puts the table that is being read into its place. -/
def closeTable? (d : Draft) : Option Items :=
  match d.current.path with
  | [] => some d.current.entries
  | path =>
    let (way, key) := splitLast path
    descend? false (fun _ inner =>
      match lookup? key inner with
      | none =>
        some (put key (if d.current.element then .tables [d.current.entries]
          else .table false false d.current.entries) inner)
      | some (.tables elements) =>
        if d.current.element then some (put key (.tables (elements ++ [d.current.entries])) inner)
        else none
      | some (.table implicit _ _) =>
        if !d.current.element ∧ implicit then
          some (put key (.table false false d.current.entries) inner)
        else none
      | some (.value _) => none) false way d.root

/-- The keys of the table at the end of a path. -/
def tableAt? : List String → Items → Option Items
  | [], entries => some entries
  | key :: path, entries =>
    match lookup? key entries with
    | some (.table _ _ inner) => tableAt? path inner
    | some (.tables elements) => elements.getLast?.bind (tableAt? path)
    | _ => none

/-- Starts the table under a header. A table that exists only because of tables inside it is taken
out and goes on; any other must be new. -/
def openTable? (d : Draft) (path : List String) : Option Draft := do
  let root ← closeTable? d
  let (way, key) := splitLast path
  let found := (tableAt? way root).bind (lookup? key)
  let start ← match found with
    | none => some []
    | some (.table true false entries) => some entries
    | some _ => none
  let root ← descend? false (fun _ inner => some (inner.filter (·.1 ≠ key))) false way root
  return ⟨root, ⟨path, false, start⟩⟩

/-- Starts an element of the array of tables under a header. -/
def openElement? (d : Draft) (path : List String) : Option Draft := do
  let root ← closeTable? d
  let (way, key) := splitLast path
  let root ← descend? false (fun _ inner =>
    match lookup? key inner with
    | none => some (put key (.tables []) inner)
    | some (.tables _) => some inner
    | some _ => none) false way root
  return ⟨root, ⟨path, true, []⟩⟩

/-- A character of a key without quotes. -/
def isBareKey (c : Char) : Bool :=
  c.isAlphanum || c = '_' || c = '-'

/-- A part of a key. -/
def keyPart? (cs : List Char) : Option (String × List Char) :=
  match cs with
  | '"' :: _ => basicString? cs
  | '\'' :: _ => literalString? cs
  | _ =>
    let body := cs.takeWhile isBareKey
    if body.isEmpty then none else some (String.ofList body, cs.drop body.length)

/-- How deep keys and values may go. -/
def maxDepth : Nat := 80

/-- A key with dots between its parts, and the text behind it and its blanks. Keys are not deeper
than `maxDepth` allows. -/
def key? : Nat → List Char → Option (List String × List Char)
  | 0, _ => none
  | depth + 1, cs => do
    let (part, rest) ← keyPart? (cs.dropWhile isSpace)
    let rest := rest.dropWhile isSpace
    match rest with
    | '.' :: rest => (key? depth rest).map fun (parts, rest) => (part :: parts, rest)
    | _ => some ([part], rest)

/-- The text behind a comment, if one is ahead; nothing if it holds a character that it may not. -/
def skipComment? (cs : List Char) : Option (List Char) :=
  match cs with
  | '#' :: rest =>
    let behind := rest.dropWhile isPrintable
    if behind.isEmpty ∨ (newline? behind).isSome then some behind else none
  | _ => some cs

/-- The text behind blanks, comments and line breaks, as they stand between the elements of an
array. -/
def skipLines? : Nat → List Char → Option (List Char)
  | 0, _ => none
  | steps + 1, cs =>
    match cs.dropWhile isSpace with
    | '#' :: rest => (skipComment? ('#' :: rest)).bind (skipLines? steps)
    | cs =>
      match newline? cs with
      | some rest => skipLines? steps rest
      | none => some cs

/-- The elements of an array behind its opening bracket, given a reader for one; `done` holds those
read, the last one first. -/
def arrayRest? (element : Scan Value) : Nat → List Value → List Char → Option (Value × List Char)
  | 0, _, _ => none
  | steps + 1, done, cs => do
    let cs ← skipLines? (cs.length + 1) cs
    match cs with
    | ']' :: rest => some (.array done.reverse, rest)
    | _ =>
      let (v, rest) ← element cs
      let rest ← skipLines? (rest.length + 1) rest
      match rest with
      | ',' :: rest => arrayRest? element steps (v :: done) rest
      | ']' :: rest => some (.array (v :: done).reverse, rest)
      | _ => none

/-- A key of an inline table with its value, added to the keys before it. -/
def inlinePair? (element : Scan Value) (entries : Items) (cs : List Char) :
    Option (Items × List Char) := do
  let (path, rest) ← key? (maxDepth - 1) cs
  match rest with
  | '=' :: rest =>
    let (v, rest) ← element (rest.dropWhile isSpace)
    let entries ← insertAt? path v entries
    return (entries, rest.dropWhile isSpace)
  | _ => none

/-- The keys of an inline table behind its opening brace. -/
def inlineRest? (element : Scan Value) : Nat → Items → List Char → Option (Value × List Char)
  | 0, _, _ => none
  | steps + 1, entries, cs => do
    let (entries, rest) ← inlinePair? element entries cs
    match rest with
    | ',' :: rest => inlineRest? element steps entries rest
    | '\x7d' :: rest => some (.table (itemsToTable entries), rest)
    | _ => none

/-- A value, given a reader for the values inside it. -/
def valueWith? (inner : Scan Value) (cs : List Char) : Option (Value × List Char) :=
  match cs with
  | '[' :: rest => arrayRest? inner (rest.length + 1) [] rest
  | '\x7b' :: rest =>
    match rest.dropWhile isSpace with
    | '\x7d' :: rest => some (.table [], rest)
    | rest => inlineRest? inner (rest.length + 1) [] rest
  | 't' :: 'r' :: 'u' :: 'e' :: rest => some (.boolean true, rest)
  | 'f' :: 'a' :: 'l' :: 's' :: 'e' :: rest => some (.boolean false, rest)
  | '"' :: _ | '\'' :: _ => (string? cs).map fun (text, rest) => (.string text, rest)
  | _ =>
    match datetime? cs with
    | some (text, rest) => some (.datetime text, rest)
    | none =>
      match float? cs with
      | some (bits, rest) => some (.float bits, rest)
      | none => (integer? cs).map fun (n, rest) => (.integer n, rest)

/-- A value of at most the given depth. -/
def value? : Nat → Scan Value
  | 0 => fun _ => none
  | depth + 1 => valueWith? (value? depth)

/-- The line ahead: a header, a key with its value, or nothing but blanks and a comment. -/
def line? (d : Draft) (cs : List Char) : Option (Draft × List Char) :=
  match cs with
  | '[' :: '[' :: rest => do
    let (path, rest) ← key? (maxDepth - 1) rest
    match rest with
    | ']' :: ']' :: rest => (openElement? d path).map fun d => (d, rest)
    | _ => none
  | '[' :: rest => do
    let (path, rest) ← key? (maxDepth - 1) rest
    match rest with
    | ']' :: rest => (openTable? d path).map fun d => (d, rest)
    | _ => none
  | _ =>
    if cs.isEmpty ∨ cs.head? = some '#' ∨ (newline? cs).isSome then some (d, cs)
    else do
      let (path, rest) ← key? (maxDepth - 1) cs
      match rest with
      | '=' :: rest =>
        let (v, rest) ← value? maxDepth (rest.dropWhile isSpace)
        let entries ← insertAt? path v d.current.entries
        return ({ d with current.entries := entries }, rest)
      | _ => none

/-- The lines of a document one after the other. -/
def lines? : Nat → Draft → List Char → Option Draft
  | 0, _, _ => none
  | steps + 1, d, cs => do
    let (d, rest) ← line? d (cs.dropWhile isSpace)
    let rest ← skipComment? (rest.dropWhile isSpace)
    if rest.isEmpty then some d
    else
      let rest ← newline? rest
      lines? steps d rest

/-- The table that a document holds, or nothing if it is no TOML. A byte order mark may come
first. -/
def parse? (text : String) : Option Table := do
  let cs := match text.toList with
    | '\ufeff' :: rest => rest
    | cs => cs
  let d ← lines? (cs.length + 1) ⟨[], ⟨[], false, []⟩⟩ cs
  let root ← closeTable? d
  return itemsToTable root

end LoaderLint.Toml
