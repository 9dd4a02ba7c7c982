import LoaderLint.Proofs.FileDiscovery
import LoaderLint.Walk

/-!
# One more pattern that leaves files out

A run may ask for one more pattern that leaves files out. If it or the configuration has such
patterns already, the files that fit the new one disappear and nothing else changes. If there were
none, the new pattern takes the place of the two that count by default, so files that only these
left out appear.

The module introduces:

* `Setup.Discovers` — the files that a run over a tree of files lints;
* `Setup.excluding` — a run with one more pattern that leaves files out;
* `Setup.HasExclusions` — a run for which the patterns by default do not count.

The main result is `Setup.discovers_excluding`, and `Setup.discovers_more_without_defaults` shows
the case in which more files are linted.
-/

namespace LoaderLint

namespace Setup

/-- A run as the setup asks for it, over the files of a tree, discovers these files. -/
def Discovers (s : Setup) (workingDirectory : Path) (files : FileTree) (found : List SourceFile) :
    Prop :=
  ∃ a entries, s.build workingDirectory = .ok a ∧
    files.search s.config.analyzer.respectIgnored a.root = .ok entries ∧ a.discover entries = found

/-- The setup with one more pattern that leaves files out, behind its own. -/
def excluding (s : Setup) (text : String) : Setup := { s with excluded := s.excluded ++ [text] }

/-- The setup or its configuration has patterns that leave files out. -/
def HasExclusions (s : Setup) : Prop := s.excluded ≠ [] ∨ s.config.analyzer.excluded ≠ []

variable {s : Setup} {workingDirectory : Path} {files : FileTree} {found less : List SourceFile}
variable {text : String} {glob : Glob}

/-! ## What counts -/

theorem base_excluding : (s.excluding text).base workingDirectory = s.base workingDirectory := rfl

/-- With one more pattern, the given ones count and it counts, too. -/
theorem leavesOut_excluding_iff {t : String} :
    (s.excluding text).LeavesOut t ↔
      (t ∈ s.excluded ∨ t ∈ s.config.analyzer.excluded) ∨ t = text := by
  simp only [LeavesOut, excluding, List.mem_append, List.mem_singleton, List.append_eq_nil_iff,
    List.cons_ne_nil, and_false, false_and, or_false]
  tauto

/-- Where patterns are given, they alone count. -/
theorem HasExclusions.leavesOut_iff (h : s.HasExclusions) {t : String} :
    s.LeavesOut t ↔ t ∈ s.excluded ∨ t ∈ s.config.analyzer.excluded := by
  have hgiven : ¬(s.excluded = [] ∧ s.config.analyzer.excluded = []) := by
    rw [not_and_or]
    exact h
  simp only [LeavesOut, ← and_assoc, hgiven, false_and, or_false]

/-- A pattern that can be read changes nothing about whether there is an analyzer. -/
theorem exists_build_excluding_iff (htext : Glob.IsPattern text) :
    (∃ a, (s.excluding text).build workingDirectory = .ok a) ↔
      ∃ a, s.build workingDirectory = .ok a := by
  rw [exists_build_eq_ok_iff, exists_build_eq_ok_iff]
  refine ⟨fun h t ht => h t (ht.imp_left (Or.imp_left (List.mem_append_left _))), fun h t ht => ?_⟩
  rcases ht with (ht | ht) | ht
  · rcases List.mem_append.1 ht with ht | ht
    · exact h t (.inl (.inl ht))
    · rw [List.mem_singleton.1 ht]
      exact htext
  · exact h t (.inl (.inr ht))
  · exact h t (.inr ht)

/-! ## The files that are asked for -/

/-- Where patterns are given, one more of them leaves out the files that fit it. -/
theorem wants_excluding_iff (h : s.HasExclusions) {root path : Path} :
    (s.excluding text).Wants root path ↔
      s.Wants root path ∧ ¬Glob.Fits text (path.relativeTo root) := by
  constructor
  · rintro ⟨hextension, hout, hin⟩
    refine ⟨⟨hextension, fun t ht => hout t ?_, hin⟩, hout text ?_⟩
    · exact leavesOut_excluding_iff.2 (.inl (h.leavesOut_iff.1 ht))
    · exact leavesOut_excluding_iff.2 (.inr rfl)
  · rintro ⟨⟨hextension, hout, hin⟩, htext⟩
    refine ⟨hextension, fun t ht => ?_, hin⟩
    rcases leavesOut_excluding_iff.1 ht with ht | rfl
    · exact hout t (h.leavesOut_iff.2 ht)
    · exact htext

/-- A file that is asked for with one more pattern is asked for without it, unless the patterns by
default counted and left it out. -/
theorem wants_of_wants_excluding {root path : Path} (h : (s.excluding text).Wants root path) :
    s.Wants root path ∨ ¬s.HasExclusions ∧
      (Glob.Fits "**/node_modules/**" (path.relativeTo root) ∨
        Glob.Fits "**/dist/**" (path.relativeTo root)) := by
  by_cases hgiven : s.HasExclusions
  · exact .inl ((wants_excluding_iff hgiven).1 h).1
  by_cases hdefault : Glob.Fits "**/node_modules/**" (path.relativeTo root) ∨
      Glob.Fits "**/dist/**" (path.relativeTo root)
  · exact .inr ⟨hgiven, hdefault⟩
  · -- what counts without the new pattern are the two patterns that the path does not fit
    refine .inl ⟨h.extension, fun t ht hfits => ?_, h.takenIn⟩
    obtain ⟨hown, hconfigured⟩ : s.excluded = [] ∧ s.config.analyzer.excluded = [] := by
      rw [HasExclusions, not_or, not_not, not_not] at hgiven
      exact hgiven
    rw [LeavesOut, hown, hconfigured] at ht
    rcases ht with ht | ht | ⟨-, -, rfl | rfl⟩
    · cases ht
    · cases ht
    · exact hdefault (.inl hfits)
    · exact hdefault (.inr hfits)

/-! ## Discovered files -/

/-- Where patterns are given, one more of them takes the files that fit it out of the discovered
ones. -/
theorem discover_excluding (h : s.HasExclusions) (hglob : Glob.parse text = .ok glob)
    {a b : Analyzer} (ha : s.build workingDirectory = .ok a)
    (hb : (s.excluding text).build workingDirectory = .ok b) (entries : List Entry) :
    b.discover entries = (a.discover entries).filter fun f =>
      !glob.accepts (f.path.relativeTo (s.base workingDirectory)).spelling := by
  have hfits : ∀ p, Glob.Fits text p ↔ glob.accepts p.spelling = true := by
    intro p
    simp only [Glob.Fits, hglob, Except.ok.injEq, exists_eq_left']
  have hwants : ∀ path, b.wants path =
      (!glob.accepts (path.relativeTo (s.base workingDirectory)).spelling && a.wants path) := by
    intro path
    rw [Bool.eq_iff_iff, Bool.and_eq_true, Bool.not_eq_true', ← Bool.not_eq_true, wants_iff ha,
      wants_iff hb, root_of_build ha, root_of_build hb, base_excluding, wants_excluding_iff h,
      hfits, and_comm]
  -- the new condition is the last one that a file has to meet, and it may as well be put after
  -- sorting
  simp only [Analyzer.discover, hwants, ← List.filter_filter]
  rw [filter_mergeSort SourceFile.precedes_trans SourceFile.precedes_total]

/-- A setup discovers files exactly if it can be built and the search succeeds. -/
theorem exists_discovers_iff :
    (∃ found, s.Discovers workingDirectory files found) ↔
      (∃ a, s.build workingDirectory = .ok a) ∧ ∃ entries,
        files.search s.config.analyzer.respectIgnored (s.base workingDirectory) = .ok entries := by
  constructor
  · rintro ⟨found, a, entries, ha, hsearch, -⟩
    rw [root_of_build ha] at hsearch
    exact ⟨⟨a, ha⟩, entries, hsearch⟩
  · rintro ⟨⟨a, ha⟩, entries, hsearch⟩
    rw [← root_of_build ha] at hsearch
    exact ⟨a.discover entries, a, entries, ha, hsearch, rfl⟩

/-- If a search comes across the wanted files in the order of their paths, they are discovered as
they come. -/
theorem discovers_of_pairwise
    (hwanted : ((s.build workingDirectory).toOption.bind fun a =>
      (files.search s.config.analyzer.respectIgnored a.root).toOption.map a.wanted) = some found)
    (hordered : found.Pairwise fun f g => f.precedes g = true) :
    s.Discovers workingDirectory files found := by
  obtain ⟨a, ha, hwanted⟩ := Option.bind_eq_some_iff.1 hwanted
  obtain ⟨entries, hentries, rfl⟩ := Option.map_eq_some_iff.1 hwanted
  refine ⟨a, entries, eq_ok_of_toOption ha, eq_ok_of_toOption hentries, ?_⟩
  rw [Analyzer.discover_eq_mergeSort]
  exact List.mergeSort_of_pairwise hordered

/-- One more pattern that leaves files out, over any tree of files. Whether files can be discovered
at all does not depend on it. Each file that is discovered with the pattern is discovered without
it, except where no other patterns that leave files out are given: then it may also be a file that
one of the two patterns by default left out. If other patterns are given, exactly the files that
fit the new one disappear, and the rest stays in its order. -/
theorem discovers_excluding (s : Setup) {text : String} {glob : Glob}
    (hglob : Glob.parse text = .ok glob) (workingDirectory : Path) (files : FileTree) :
    ((∃ found, s.Discovers workingDirectory files found) ↔
      ∃ less, (s.excluding text).Discovers workingDirectory files less) ∧
    ∀ found less, s.Discovers workingDirectory files found →
      (s.excluding text).Discovers workingDirectory files less →
      (∀ f ∈ less, f ∈ found ∨ ¬s.HasExclusions ∧
        (Glob.Fits "**/node_modules/**" (f.path.relativeTo (s.base workingDirectory)) ∨
          Glob.Fits "**/dist/**" (f.path.relativeTo (s.base workingDirectory)))) ∧
      (s.HasExclusions → less = found.filter fun f =>
        !glob.accepts (f.path.relativeTo (s.base workingDirectory)).spelling) := by
  constructor
  · rw [exists_discovers_iff, exists_discovers_iff, exists_build_excluding_iff ⟨glob, hglob⟩]
    rfl
  · rintro found less ⟨a, entries, ha, hsearch, rfl⟩ ⟨b, entries', hb, hsearch', rfl⟩
    -- both runs search the same directory in the same way
    obtain rfl : entries = entries' := by
      rw [root_of_build ha] at hsearch
      rw [root_of_build hb, base_excluding] at hsearch'
      exact Except.ok.inj (hsearch.symm.trans hsearch')
    refine ⟨fun f hf => ?_, fun h => discover_excluding h hglob ha hb entries⟩
    rw [Analyzer.mem_discover_iff, wants_iff hb, root_of_build hb, base_excluding] at hf
    rw [Analyzer.mem_discover_iff, wants_iff ha, root_of_build ha]
    exact (wants_of_wants_excluding hf.2).imp_left fun h => ⟨hf.1, h⟩

/-- A run that leaves out minified files, and one more pattern for a directory. The file in the
directory disappears, and the files in a directory that would be left out by default stay. -/
theorem discovers_excluding_directory :
    let files : FileTree :=
      .directory [("p", .directory [("a.js", .file []), ("a.min.js", .file []),
      ("dist", .directory [("b.js", .file [])]), ("lib", .directory [("c.js", .file [])])])]
    let s : Setup := { root := some ⟨"/p"⟩, excluded := ["*.min.js"] }
    let file (path : String) : SourceFile := ⟨⟨path⟩, []⟩
    Glob.IsPattern "lib/**" ∧ s.HasExclusions ∧
      s.Discovers ⟨"/"⟩ files [file "/p/a.js", file "/p/dist/b.js", file "/p/lib/c.js"] ∧
      (s.excluding "lib/**").Discovers ⟨"/"⟩ files [file "/p/a.js", file "/p/dist/b.js"] := by
  intro files s file
  let glob : Glob := ⟨[.literal 'l', .literal 'i', .literal 'b', .literal '/', .anyComponents]⟩
  have hglob : Glob.parse "lib/**" = .ok glob := rfl
  have hgiven : s.HasExclusions := .inl (List.cons_ne_nil _ _)
  have hfound : s.Discovers ⟨"/"⟩ files
    [file "/p/a.js", file "/p/dist/b.js", file "/p/lib/c.js"] :=
    discovers_of_pairwise (by decide +kernel) (by decide)
  obtain ⟨hexists, hless⟩ := s.discovers_excluding hglob ⟨"/"⟩ files
  obtain ⟨less, hdiscovers⟩ := hexists.1 ⟨_, hfound⟩
  have hfilter : less = [file "/p/a.js", file "/p/dist/b.js"] := by
    rw [(hless _ _ hfound hdiscovers).2 hgiven]
    decide +kernel
  exact ⟨⟨glob, hglob⟩, hgiven, hfound, hfilter ▸ hdiscovers⟩

/-- Where no patterns are given, one more of them can make more files discovered: a file in a
directory that is left out by default appears when a pattern for another directory is added. -/
theorem discovers_more_without_defaults :
    let files : FileTree := .directory [("p", .directory [("node_modules", .directory
      [("a.js", .file [])])])]
    let s : Setup := { root := some ⟨"/p"⟩ }
    Glob.IsPattern "vendor/**" ∧ s.Discovers ⟨"/"⟩ files [] ∧
      (s.excluding "vendor/**").Discovers ⟨"/"⟩ files [⟨⟨"/p/node_modules/a.js"⟩, []⟩] := by
  intro files s
  refine ⟨⟨_, rfl⟩, ?_, ?_⟩
  · exact discovers_of_pairwise (by decide +kernel) (by decide)
  · exact discovers_of_pairwise (by decide +kernel) (by decide)

end Setup

end LoaderLint
