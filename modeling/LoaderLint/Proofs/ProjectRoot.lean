import LoaderLint.Proofs.FileDiscovery
import LoaderLint.Proofs.PathsBelow
import LoaderLint.Walk

/-!
# Where a project stands makes no difference

A run looks at files by their paths relative to the directory that is searched. So a project has
the same report wherever it stands, as long as ignore files above it do not reach into it.

The module introduces:

* `FileTree.WellNamed` — trees in which all names are names of files;
* `FileTree.Hosts` — a project stands at an absolute path, and what is ignored in it does not
  depend on what is above it;
* `Entry.seenFrom`, `SourceFile.seenFrom` — something at a relative path, seen from a directory;
* `Analyzer.rootless` — an analyzer that takes paths for relative ones;
* `Setup.Reports` — what a run over a tree of files reports.

A search from a directory comes across what a search from nowhere comes across, seen from the
directory (`entriesBelow_directory`). A run over that reports what the analyzer without a root
reports (`Analyzer.result_run_seenFrom`). The main result is `Setup.reports_of_moved`.
-/

namespace LoaderLint

/-- All names in the tree are names that files can have. -/
inductive FileTree.WellNamed : FileTree → Prop
  | file {bytes : List UInt8} : WellNamed (.file bytes)
  | directory {children : List (String × FileTree)} :
      (∀ e ∈ children, IsFileName e.1) → (∀ e ∈ children, WellNamed e.2) →
      WellNamed (.directory children)

/-! ## Searches -/

/-- What is at a relative path, seen from a directory. -/
def Entry.seenFrom (root : Path) (e : Entry) : Entry := { e with path := root.join e.path }

/-- What a directory `q` holds is what a directory `r` holds, seen from `root`, and `r` holds plain
paths only. -/
def Path.LiesAt (root q r : Path) : Prop :=
  ∀ name, IsFileName name →
    (r.join ⟨name⟩).IsPlain ∧ q.join ⟨name⟩ = root.join (r.join ⟨name⟩)

/-- The root of a search holds what the empty path holds, seen from the root. -/
theorem Path.liesAt_root (root : Path) : Path.LiesAt root root ⟨""⟩ := by
  intro name hname
  have hplain := Path.isPlain_of_isFileName hname
  -- joining a name to the empty path gives the name
  have hjoin : Path.join ⟨""⟩ ⟨name⟩ = ⟨name⟩ := by
    rw [Path.join, hplain.isAbsolute_eq_false, if_neg Bool.false_ne_true, if_pos (.inl rfl)]
    simp
  rw [hjoin]
  exact ⟨hplain, rfl⟩

/-- A path below the root holds what the plain path holds, seen from the root. -/
theorem Path.liesAt_join {root r : Path} (hroot : root.isAbsolute = true) (hr : r.IsPlain) :
    Path.LiesAt root (root.join r) r :=
  fun _ hname => ⟨hr.join_isFileName hname, Path.join_join hroot hr hname⟩

section

variable {tracked : Bool} {root : Path}

mutual

/-- A search at a plain path below a directory comes across the same as one at the plain path. -/
theorem entriesBelow_join (hroot : root.isAbsolute = true) :
    ∀ {levels : List Level} {r : Path} {t : FileTree}, r.IsPlain → t.WellNamed →
      entriesBelow tracked levels (root.join r) t =
        (entriesBelow tracked levels r t).map (Entry.seenFrom root)
  | _, _, .file _, _, _ => by rw [entriesBelow, entriesBelow]; rfl
  | levels, r, .directory children, hr, ht => by
    cases ht with
    | directory hnames hall =>
      rw [entriesBelow, entriesBelow, List.map_cons,
        entriesAmong_liesAt hroot hnames hall (Path.liesAt_join hroot hr)]
      rfl

/-- A search among the children of a directory below the root comes across the same as one among
the children of the plain path. -/
theorem entriesAmong_liesAt (hroot : root.isAbsolute = true) :
    ∀ {levels : List Level} {q r : Path} {children : List (String × FileTree)},
      (∀ e ∈ children, IsFileName e.1) → (∀ e ∈ children, e.2.WellNamed) →
      Path.LiesAt root q r →
      entriesAmong tracked levels q children =
        (entriesAmong tracked levels r children).map (Entry.seenFrom root)
  | _, _, _, [], _, _, _ => by rw [entriesAmong, entriesAmong, List.map_nil]
  | levels, q, r, (name, t) :: rest, hnames, hall, hlies => by
    rw [List.forall_mem_cons] at hnames hall
    obtain ⟨hplain, hjoin⟩ := hlies name hnames.1
    rw [entriesAmong, entriesAmong, List.map_append,
      entriesAmong_liesAt hroot hnames.2 hall.2 hlies, hjoin]
    -- whether a child is ignored depends on its name, and not on where the search stands
    congr 1
    by_cases hignored : isIgnored levels name t.bytes?.isNone = true
    · simp only [hignored, if_true, List.map_nil]
    · simp only [hignored]
      exact entriesBelow_join hroot hplain hall.1

end

mutual

/-- A search at a plain path comes across plain paths only. -/
theorem isPlain_of_mem_entriesBelow :
    ∀ {levels : List Level} {r : Path} {t : FileTree}, r.IsPlain → t.WellNamed →
      ∀ e ∈ entriesBelow tracked levels r t, e.path.IsPlain
  | _, r, .file _, hr, _, e, he => by
    rw [entriesBelow, List.mem_singleton] at he
    rw [he]
    exact hr
  | levels, r, .directory children, hr, ht, e, he => by
    cases ht with
    | directory hnames hall =>
      rw [entriesBelow, List.mem_cons] at he
      rcases he with rfl | he
      · exact hr
      · exact isPlain_of_mem_entriesAmong
          (fun _ hname => hr.join_isFileName hname) hnames hall e he

/-- A search in a directory that holds plain paths only comes across plain paths only. -/
theorem isPlain_of_mem_entriesAmong :
    ∀ {levels : List Level} {r : Path} {children : List (String × FileTree)},
      (∀ name, IsFileName name → (r.join ⟨name⟩).IsPlain) → (∀ e ∈ children, IsFileName e.1) →
      (∀ e ∈ children, e.2.WellNamed) →
      ∀ e ∈ entriesAmong tracked levels r children, e.path.IsPlain
  | _, _, [], _, _, _, _, he => by
    rw [entriesAmong] at he
    cases he
  | levels, r, (name, t) :: rest, hr, hnames, hall, e, he => by
    rw [List.forall_mem_cons] at hnames hall
    rw [entriesAmong, List.mem_append] at he
    rcases he with he | he
    · by_cases hignored : isIgnored levels name t.bytes?.isNone = true
      · simp only [hignored, if_true] at he
        cases he
      · simp only [hignored] at he
        exact isPlain_of_mem_entriesBelow (hr name hnames.1) hall.1 e he
    · exact isPlain_of_mem_entriesAmong hr hnames.2 hall.2 e he

end

/-- A search in a project comes across the project itself, and across what a search from nowhere
comes across, seen from the project. -/
theorem entriesBelow_directory (hroot : root.isAbsolute = true)
    {project : List (String × FileTree)} (hnames : (FileTree.directory project).WellNamed)
    (levels : List Level) :
    entriesBelow tracked levels root (.directory project) =
      ⟨root, none⟩ :: (entriesAmong tracked (Level.of tracked (.directory project) :: levels) ⟨""⟩
        project).map (Entry.seenFrom root) := by
  cases hnames with
  | directory hnames hall =>
    rw [entriesBelow, entriesAmong_liesAt hroot hnames hall (Path.liesAt_root root)]

end

/-! ## Runs -/

/-- A file at a relative path, seen from a directory. -/
def SourceFile.seenFrom (root : Path) (f : SourceFile) : SourceFile :=
  { f with path := root.join f.path }

/-- Files at plain paths have the same order, seen from any root. -/
theorem SourceFile.precedes_seenFrom {root : Path} (hroot : root.isAbsolute = true)
    {f g : SourceFile} (hf : f.path.IsPlain) (hg : g.path.IsPlain) :
    (f.seenFrom root).precedes (g.seenFrom root) = f.precedes g :=
  congrArg Ordering.isLE (Path.compare_join hroot hf hg)

/-- The regular files of what is seen from a root are the regular files, seen from it. -/
theorem filterMap_file?_seenFrom (root : Path) (entries : List Entry) :
    (entries.map (Entry.seenFrom root)).filterMap Entry.file? =
      (entries.filterMap Entry.file?).map (SourceFile.seenFrom root) := by
  rw [List.filterMap_map, List.map_filterMap]
  refine List.filterMap_congr fun e _ => ?_
  obtain ⟨path, content⟩ := e
  cases content <;> rfl

/-- Files that were come across at plain paths have plain paths. -/
theorem isPlain_of_mem_files {entries : List Entry} (hplain : ∀ e ∈ entries, e.path.IsPlain) :
    ∀ f ∈ entries.filterMap Entry.file?, f.path.IsPlain := by
  intro f hf
  obtain ⟨e, he, hfile⟩ := List.mem_filterMap.1 hf
  obtain ⟨bytes, -, rfl⟩ := Option.map_eq_some_iff.1 hfile
  exact hplain e he

namespace Analyzer

/-- The analyzer that takes paths for relative ones. -/
def rootless (a : Analyzer) : Analyzer := { a with root := ⟨""⟩ }

variable {a : Analyzer}

/-- A path below the root is relative to it as the plain path is to no root. -/
theorem relativeTo_root_join (ha : a.root.isAbsolute = true) {r : Path} (hr : r.IsPlain) :
    (a.root.join r).relativeTo a.root = r.relativeTo a.rootless.root := by
  rw [Path.relativeTo_join ha hr, show a.rootless.root = ⟨""⟩ from rfl, Path.relativeTo_empty hr]

/-- The analyzer wants a file below its root exactly if it wants the plain path without a root. -/
theorem wants_join (ha : a.root.isAbsolute = true) {r : Path} (hr : r.IsPlain) :
    a.wants (a.root.join r) = a.rootless.wants r := by
  simp only [wants, hasListedExtension, isExcluded, isIncluded, relativeTo_root_join ha hr,
    Path.extension?_join ha hr]
  rfl

/-- What is found in a file below the root is what is found in it at the plain path. -/
theorem lint?_join (ha : a.root.isAbsolute = true) {r : Path} (hr : r.IsPlain) (source : String) :
    a.lint? (a.root.join r) source = a.rootless.lint? r source := by
  -- a path is looked at relative to the root only
  have hfindings : a.findings (a.root.join r) = a.rootless.findings r := by
    funext p
    rw [findings, Subject.of, relativeTo_root_join ha hr]
    rfl
  rw [lint?, hfindings]
  rfl

/-- The files that are linted are those that are linted without a root, in the same order. -/
theorem discover_seenFrom (ha : a.root.isAbsolute = true) {entries : List Entry}
    (hplain : ∀ e ∈ entries, e.path.IsPlain) :
    a.discover (entries.map (Entry.seenFrom a.root)) =
      (a.rootless.discover entries).map (SourceFile.seenFrom a.root) := by
  have hfiles := isPlain_of_mem_files hplain
  have hwanted : a.wanted (entries.map (Entry.seenFrom a.root)) =
      (a.rootless.wanted entries).map (SourceFile.seenFrom a.root) := by
    rw [wanted, filterMap_file?_seenFrom, List.filter_map, wanted]
    congr 1
    exact List.filter_congr fun f hf => wants_join ha (hfiles f hf)
  rw [discover_eq_mergeSort, hwanted, discover_eq_mergeSort]
  -- plain paths have the same order below the root, so sorting may come before or after the move
  symm
  refine List.map_mergeSort fun f hf g hg => ?_
  rw [SourceFile.precedes_seenFrom ha (hfiles f (List.mem_of_mem_filter hf))
    (hfiles g (List.mem_of_mem_filter hg))]

/-- What is collected from files below the root is what is collected from them at their plain
paths. -/
theorem collected_seenFrom (ha : a.root.isAbsolute = true) {files : List SourceFile}
    (hplain : ∀ f ∈ files, f.path.IsPlain) :
    a.collected (files.map (SourceFile.seenFrom a.root)) = a.rootless.collected files := by
  -- each file is linted alike, and each is a program or not by its text alone
  have hfound : (files.map (SourceFile.seenFrom a.root)).filterMap
      (fun f => a.lint? f.path f.text) =
        files.filterMap fun f => a.rootless.lint? f.path f.text := by
    rw [List.filterMap_map]
    exact List.filterMap_congr fun f hf => lint?_join ha (hplain f hf) f.text
  have hchecked : ((files.map (SourceFile.seenFrom a.root)).filter (·.parses)).length =
      (files.filter (·.parses)).length := by
    rw [List.filter_map, List.length_map]
    rfl
  rw [collected, collected, hfound, hchecked]

/-- A run from a directory reports what a run from nowhere reports. -/
theorem result_run_seenFrom (ha : a.root.isAbsolute = true) (hlenient : a.strict = false)
    {entries : List Entry} (hplain : ∀ e ∈ entries, e.path.IsPlain) :
    (a.run (entries.map (Entry.seenFrom a.root))).result =
      .ok (a.rootless.collected (a.rootless.discover entries)).sorted := by
  rw [result_run_eq_ok a (.inl hlenient), discover_seenFrom ha hplain, collected_seenFrom ha]
  intro f hf
  exact isPlain_of_mem_files hplain f (List.mem_of_mem_filter (List.mem_mergeSort.1 hf))

end Analyzer

/-! ## Projects at different places -/

/-- The project stands at an absolute path of the tree. A search at that path succeeds, and it
comes across what it would come across if there were nothing above the project. -/
structure FileTree.Hosts (files : FileTree) (tracked : Bool) (root : Path)
    (project : List (String × FileTree)) : Prop where
  /-- The path starts at the root of the tree. -/
  absolute : root.isAbsolute = true
  /-- The path leads to the project, and nothing above reaches into it. -/
  placed : ∃ place, files.locate root = .ok place ∧ place.tree = .directory project ∧
    faultsAbove tracked place.names.reverse place.above = [] ∧
    entriesBelow tracked (levelsAbove tracked place.names.reverse place.above) root
      (.directory project) = entriesBelow tracked [] root (.directory project)

/-- A search in a project that is hosted comes across what it would without anything above it. -/
theorem FileTree.Hosts.search_eq {files : FileTree} {tracked : Bool} {root : Path}
    {project : List (String × FileTree)} (h : files.Hosts tracked root project) :
    files.search tracked root = .ok (entriesBelow tracked [] root (.directory project)) := by
  obtain ⟨place, hlocate, htree, hfaults, hentries⟩ := h.placed
  rw [FileTree.search, hlocate]
  simp only [htree, hfaults, hentries, List.isEmpty_nil, if_true]

/-! ## Quiet surroundings -/

/-- There are no rules in the ignore files of a directory. -/
def Level.IsQuiet (l : Level) : Prop :=
  l.search = .empty ∧ l.shared = .empty ∧ l.personal = .empty

theorem Level.IsQuiet.enter {l : Level} (h : l.IsQuiet) (name : String) :
    (l.enter name).IsQuiet := h

/-- Directories without ignore files ignore nothing. -/
theorem isIgnored_append_quiet {levels above : List Level} (hquiet : ∀ l ∈ above, l.IsQuiet)
    (name : String) (isDirectory : Bool) :
    isIgnored (levels ++ above) name isDirectory = isIgnored levels name isDirectory := by
  -- empty rules decide nothing, whichever of the three ignore files they are from
  have hsilent : ∀ kind : Level → Ignore.Rules, (∀ l ∈ above, kind l = .empty) →
      above.findSome? (fun l => (kind l).decide? (l.below ++ name.toUTF8.toList) isDirectory) =
        none := by
    intro kind hkind
    rw [List.findSome?_eq_none_iff]
    intro l hl
    rw [hkind l hl]
    rfl
  simp only [isIgnored, List.findSome?_append, hsilent Level.search fun l hl => (hquiet l hl).1,
    hsilent Level.shared fun l hl => (hquiet l hl).2.1,
    hsilent Level.personal fun l hl => (hquiet l hl).2.2, Option.or_none]

section

variable {tracked : Bool}

mutual

/-- Directories without ignore files make no difference to a search below them. -/
theorem entriesBelow_append_quiet :
    ∀ {levels above : List Level} {path : Path} {t : FileTree}, (∀ l ∈ above, l.IsQuiet) →
      entriesBelow tracked (levels ++ above) path t = entriesBelow tracked levels path t
  | _, _, _, .file _, _ => by rw [entriesBelow, entriesBelow]
  | levels, above, path, .directory children, hquiet => by
    rw [entriesBelow, entriesBelow, ← List.cons_append, entriesAmong_append_quiet hquiet]

/-- Directories without ignore files make no difference to a search among the children of one below
them. -/
theorem entriesAmong_append_quiet :
    ∀ {levels above : List Level} {path : Path} {children : List (String × FileTree)},
      (∀ l ∈ above, l.IsQuiet) →
      entriesAmong tracked (levels ++ above) path children =
        entriesAmong tracked levels path children
  | _, _, _, [], _ => by rw [entriesAmong, entriesAmong]
  | levels, above, path, (name, t) :: rest, hquiet => by
    -- the levels above know the names below them, and are as quiet with one name more
    have hentered : ∀ l ∈ above.map (Level.enter name), l.IsQuiet := by
      intro l hl
      obtain ⟨l', hl', rfl⟩ := List.mem_map.1 hl
      exact (hquiet l' hl').enter name
    rw [entriesAmong, entriesAmong, entriesAmong_append_quiet hquiet, List.map_append,
      entriesBelow_append_quiet hentered, isIgnored_append_quiet hquiet]

end

/-- The directories above are as quiet as what stands in them. -/
theorem isQuiet_levelsAbove {names : List String} {above : List FileTree}
    (hquiet : ∀ t ∈ above, (Level.of tracked t).IsQuiet) :
    ∀ l ∈ levelsAbove tracked names above, l.IsQuiet := by
  -- one directory for each name on the way up
  induction names generalizing above with
  | nil => simp [levelsAbove]
  | cons name names ih =>
    cases above with
    | nil => simp [levelsAbove]
    | cons t above =>
      rw [List.forall_mem_cons] at hquiet
      rw [levelsAbove, List.forall_mem_cons]
      refine ⟨hquiet.1.enter name, fun l hl => ?_⟩
      obtain ⟨l', hl', rfl⟩ := List.mem_map.1 hl
      exact (ih hquiet.2 l' hl').enter name

/-- Directories without ignore files have no faulty ones. -/
theorem faultsAbove_of_quiet {names : List String} {above : List FileTree}
    (hquiet : ∀ t ∈ above, (Level.of tracked t).IsQuiet) :
    faultsAbove tracked names above = [] := by
  induction names generalizing above with
  | nil => simp [faultsAbove]
  | cons name names ih =>
    cases above with
    | nil => simp [faultsAbove]
    | cons t above =>
      rw [List.forall_mem_cons] at hquiet
      obtain ⟨hsearch, hshared, hpersonal⟩ := hquiet.1
      rw [faultsAbove, ih hquiet.2, Level.faults, hsearch, hshared, hpersonal]
      rfl

end

/-- A project below directories without ignore files is hosted. -/
theorem FileTree.hosts_of_quiet {files : FileTree} {tracked : Bool} {root : Path}
    {project : List (String × FileTree)} (hroot : root.isAbsolute = true) {place : Place}
    (hplace : files.locate root = .ok place) (htree : place.tree = .directory project)
    (hquiet : ∀ t ∈ place.above, (Level.of tracked t).IsQuiet) :
    files.Hosts tracked root project where
  absolute := hroot
  placed := ⟨place, hplace, htree, faultsAbove_of_quiet hquiet,
    @entriesBelow_append_quiet tracked [] _ root _ (isQuiet_levelsAbove hquiet)⟩

/-! ## Reports -/

namespace Setup

/-- A run as the setup asks for it, over the files of a tree, reports something. -/
def Reports (s : Setup) (workingDirectory : Path) (files : FileTree) (report : Report) : Prop :=
  ∃ a entries, s.build workingDirectory = .ok a ∧
    files.search s.config.analyzer.respectIgnored a.root = .ok entries ∧
    (a.run entries).result = .ok report

/-- An analyzer depends on an absolute root in its own root only. -/
theorem build_absolute (s : Setup) {root : Path} (hroot : root.isAbsolute = true)
    (workingDirectory : Path) :
    { s with root := some root }.build workingDirectory =
      ({ s with root := some ⟨"/"⟩ }.build ⟨"/"⟩).map
        fun a : Analyzer => { a with root := root } := by
  have hslash : Path.isAbsolute ⟨"/"⟩ = true := by decide
  simp only [build, effectiveExcluded, effectiveIncluded, Option.getD_some, hroot, hslash, if_true]
  -- the patterns are the same on both sides, and so is the first one that cannot be used
  generalize List.mapM Glob.parse _ = excluded
  generalize List.mapM Glob.parse _ = included
  cases excluded with
  | error fault => rfl
  | ok excluded =>
    cases included with
    | error fault => rfl
    | ok included => rfl

theorem strict_of_build {s : Setup} {workingDirectory : Path} {a : Analyzer}
    (h : s.build workingDirectory = .ok a) : a.strict = s.strict := by
  obtain ⟨excluded, included, -, -, rfl⟩ := build_eq_ok_iff.1 h
  rfl

/-- What a run reports from a project does not depend on its root. -/
theorem reports_of_hosts {s : Setup} (hlenient : s.strict = false) {root : Path}
    {project : List (String × FileTree)} (hnames : (FileTree.directory project).WellNamed)
    {files : FileTree} (hfiles : files.Hosts s.config.analyzer.respectIgnored root project)
    (workingDirectory : Path) {a : Analyzer}
    (ha : { s with root := some ⟨"/"⟩ }.build ⟨"/"⟩ = .ok a) :
    { s with root := some root }.Reports workingDirectory files
      (a.rootless.collected (a.rootless.discover (entriesAmong s.config.analyzer.respectIgnored
        [Level.of s.config.analyzer.respectIgnored (.directory project)] ⟨""⟩
        project))).sorted := by
  have hbuild :
      { s with root := some root }.build workingDirectory = .ok { a with root := root } := by
    rw [build_absolute s hfiles.absolute, ha]
    rfl
  refine ⟨_, _, hbuild, hfiles.search_eq, ?_⟩
  rw [entriesBelow_directory hfiles.absolute hnames]
  have hplain : ∀ e ∈ entriesAmong s.config.analyzer.respectIgnored
      [Level.of s.config.analyzer.respectIgnored (.directory project)] ⟨""⟩ project,
      e.path.IsPlain := by
    cases hnames with
    | directory hnames hall =>
      exact isPlain_of_mem_entriesAmong (fun name hname => (Path.liesAt_root root name hname).1)
        hnames hall
  -- the project itself is no file, so the entry for it changes nothing
  exact Analyzer.result_run_seenFrom (a := { a with root := root }) hfiles.absolute
    ((strict_of_build ha).trans hlenient) hplain

/-- A project has one report wherever it stands: an absolute root may be spelled in any way and
have names in it that the patterns of the setup leave out. If a pattern cannot be used, it cannot
be used at any place. -/
theorem reports_of_moved {s : Setup} (hlenient : s.strict = false)
    {project : List (String × FileTree)} (hnames : (FileTree.directory project).WellNamed)
    {root₁ root₂ : Path} {files₁ files₂ : FileTree}
    (h₁ : files₁.Hosts s.config.analyzer.respectIgnored root₁ project)
    (h₂ : files₂.Hosts s.config.analyzer.respectIgnored root₂ project)
    (workingDirectory₁ workingDirectory₂ : Path) :
    (∃ fault, { s with root := some root₁ }.build workingDirectory₁ = .error fault ∧
      { s with root := some root₂ }.build workingDirectory₂ = .error fault) ∨
    ∃ report, { s with root := some root₁ }.Reports workingDirectory₁ files₁ report ∧
      { s with root := some root₂ }.Reports workingDirectory₂ files₂ report := by
  -- the patterns are read once, for a root that stands for all of them
  cases hbuild : { s with root := some ⟨"/"⟩ }.build ⟨"/"⟩ with
  | error fault =>
    refine .inl ⟨fault, ?_, ?_⟩
    · rw [build_absolute s h₁.absolute, hbuild]
      rfl
    · rw [build_absolute s h₂.absolute, hbuild]
      rfl
  | ok a =>
    exact .inr ⟨_, reports_of_hosts hlenient hnames h₁ workingDirectory₁ hbuild,
      reports_of_hosts hlenient hnames h₂ workingDirectory₂ hbuild⟩

/-- A module with a name that stands below directories with names that are left out by default,
beside a directory that is left out. -/
theorem reports_of_moved_below_dist :
    let project := [("main.js", FileTree.file "define('x', \x7b\x7d);".toUTF8.toList),
      ("dist", .directory [("out.js", .file "define('y', \x7b\x7d);".toUTF8.toList)])]
    let s : Setup := { rules := [.default .namedDefine] }
    let files₁ := FileTree.directory [("srv", .directory [("dist", .directory project)])]
    let files₂ := FileTree.directory [("node_modules", .directory project)]
    files₁.Hosts true ⟨"/srv/./dist/"⟩ project ∧ files₂.Hosts true ⟨"/node_modules"⟩ project ∧
    ∃ report, { s with root := some ⟨"/srv/./dist/"⟩ }.Reports ⟨"/"⟩ files₁ report ∧
      { s with root := some ⟨"/node_modules"⟩ }.Reports ⟨"/"⟩ files₂ report ∧
      report.filesChecked = 1 ∧ report.findings.map (·.location.file.spelling) = ["main.js"] := by
  intro project s files₁ files₂
  have hnames : (FileTree.directory project).WellNamed := by
    refine .directory (by decide) ?_
    simp only [project, List.forall_mem_cons, List.not_mem_nil, false_implies, implies_true,
      and_true]
    refine ⟨.file, .directory (by decide) ?_⟩
    simp only [List.forall_mem_cons, List.not_mem_nil, false_implies, implies_true, and_true]
    exact .file
  have h₁ : files₁.Hosts true ⟨"/srv/./dist/"⟩ project := by
    refine FileTree.hosts_of_quiet (by decide) rfl rfl ?_
    rintro t (_ | ⟨_, _ | ⟨_, _ | _⟩⟩)
    · exact ⟨rfl, rfl, rfl⟩
    · exact ⟨rfl, rfl, rfl⟩
  have h₂ : files₂.Hosts true ⟨"/node_modules"⟩ project := by
    refine FileTree.hosts_of_quiet (by decide) rfl rfl ?_
    rintro t (_ | ⟨_, _ | _⟩)
    exact ⟨rfl, rfl, rfl⟩
  -- the run is evaluated at one of the two places, and the theorem gives the other
  have hrun : (({ s with root := some ⟨"/node_modules"⟩ }.build ⟨"/"⟩).toOption.bind fun a =>
      (files₂.search true a.root).toOption.bind fun entries =>
        (a.run entries).result.toOption.map fun report : Report =>
          (report.filesChecked,
            report.findings.map (fun f : Finding => f.location.file.spelling))) =
        some (1, ["main.js"]) := by
    decide +kernel
  refine ⟨h₁, h₂, ?_⟩
  rcases reports_of_moved (s := s) rfl hnames h₁ h₂ ⟨"/"⟩ ⟨"/"⟩ with
    ⟨fault, -, hfault⟩ | ⟨report, hreport₁, hreport₂⟩
  · rw [hfault] at hrun
    cases hrun
  · refine ⟨report, hreport₁, hreport₂, ?_⟩
    obtain ⟨a, entries, hbuild, hsearch, hresult⟩ := hreport₂
    have hsearch : files₂.search true a.root = .ok entries := hsearch
    rw [hbuild, Except.toOption, Option.bind_some, hsearch, Except.toOption, Option.bind_some,
      hresult, Except.toOption, Option.map_some, Option.some.injEq, Prod.mk.injEq] at hrun
    exact hrun

end Setup

end LoaderLint
