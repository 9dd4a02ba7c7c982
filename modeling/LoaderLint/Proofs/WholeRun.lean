import LoaderLint.Proofs.PlaceOrder

/-!
# What comes out of a whole run

A run lints the wanted files in the order of their paths. Which entries a search came across first
makes no difference, as long as no two files have the same path.

The module introduces:

* `SourceFile.parses` — whether a file is a program;
* `Analyzer.wanted` — the files to be linted, in the order in which the search came across them;
* `Analyzer.collected` — what the files that are programs have to report together.

`Analyzer.result_lintAll_cons` says what one more file does to a run. From it follow the two ways
in which a run over a list of files can end, `Analyzer.result_lintAll_eq_ok` and
`Analyzer.result_lintAll_eq_error`. The main result is `Analyzer.run_of_nodup_paths`.
-/

namespace LoaderLint

open Script (Program)

/-- Whether the file is a program. -/
def SourceFile.parses (f : SourceFile) : Bool := (Program.parse? f.text).isSome

namespace Analyzer

/-! ## Discovered files -/

/-- The regular files that are linted, in the order in which a search came across them. -/
def wanted (a : Analyzer) (entries : List Entry) : List SourceFile :=
  (entries.filterMap Entry.file?).filter (a.wants ·.path)

theorem discover_eq_mergeSort (a : Analyzer) (entries : List Entry) :
    a.discover entries = (a.wanted entries).mergeSort SourceFile.precedes := rfl

/-- Sorting neither adds files nor leaves any out. -/
theorem discover_perm (a : Analyzer) (entries : List Entry) :
    (a.discover entries).Perm (a.wanted entries) :=
  List.mergeSort_perm _ _

/-- If the files have different paths, so have those that are linted. -/
theorem nodup_paths_wanted (a : Analyzer) {entries : List Entry}
    (hpaths : ((entries.filterMap Entry.file?).map (·.path.components)).Nodup) :
    ((a.wanted entries).map (·.path.components)).Nodup :=
  hpaths.sublist (List.filter_sublist.map _)

/-- Files with different paths are discovered in one order, however a search comes across them. -/
theorem discover_eq_of_perm (a : Analyzer) {entries others : List Entry}
    (hpaths : ((entries.filterMap Entry.file?).map (·.path.components)).Nodup)
    (hperm : others.Perm entries) : a.discover others = a.discover entries :=
  SourceFile.mergeSort_eq_of_perm (a.nodup_paths_wanted hpaths)
    ((hperm.filterMap Entry.file?).filter _)

/-- Leaving out the files that are no programs leaves out the same files among the wanted ones. -/
theorem wanted_filter_parses (a : Analyzer) (entries : List Entry) :
    a.wanted (entries.filter fun e => e.file?.all (·.parses)) =
      (a.wanted entries).filter (·.parses) := by
  have hfiles : (entries.filter fun e => e.file?.all (·.parses)).filterMap Entry.file? =
      (entries.filterMap Entry.file?).filter (·.parses) := by
    rw [List.filterMap_filter, List.filter_filterMap]
    congr 1
    funext e
    cases e.file? with
    | none => rfl
    | some f => by_cases hparses : f.parses <;> simp [hparses, Option.filter]
  rw [wanted, wanted, hfiles, List.filter_comm]

/-- Leaving out the files that are no programs leaves out the same files among the discovered
ones. -/
theorem discover_filter_parses (a : Analyzer) {entries : List Entry}
    (hpaths : ((entries.filterMap Entry.file?).map (·.path.components)).Nodup) :
    a.discover (entries.filter fun e => e.file?.all (·.parses)) =
      (a.discover entries).filter (·.parses) := by
  rw [discover_eq_mergeSort, wanted_filter_parses]
  symm
  refine SourceFile.eq_mergeSort_of_perm ?_ ((a.discover_perm entries).filter _) ?_
  · exact (a.nodup_paths_wanted hpaths).sublist (List.filter_sublist.map _)
  · exact (List.pairwise_mergeSort SourceFile.precedes_trans SourceFile.precedes_total _).filter _

/-! ## Linting one file after the other -/

/-- A file is linted exactly if it is a program. -/
theorem isSome_lint? (a : Analyzer) (f : SourceFile) :
    (a.lint? f.path f.text).isSome = f.parses :=
  Option.isSome_map

/-- A file that is a program has a list of findings. -/
theorem exists_lint?_eq_some (a : Analyzer) {f : SourceFile} (h : f.parses = true) :
    ∃ found, a.lint? f.path f.text = some found := by
  rwa [← Option.isSome_iff_exists, isSome_lint?]

/-- What one more file does to the result of a run. -/
theorem result_lintAll_cons (a : Analyzer) (f : SourceFile) (rest : List SourceFile) :
    (a.lintAll (f :: rest)).result =
      match a.lint? f.path f.text with
      | some found =>
        (a.lintAll rest).result.map fun r => ⟨found ++ r.findings, r.filesChecked + 1⟩
      | none => if a.strict then .error f.path else (a.lintAll rest).result := by
  rw [lintAll]
  cases a.lint? f.path f.text with
  | some found => rfl
  | none => cases a.strict <;> rfl

/-- What the files that are programs have to report together: their findings one after the other,
and how many they are. -/
def collected (a : Analyzer) (files : List SourceFile) : Report :=
  ⟨(files.filterMap fun f => a.lint? f.path f.text).flatten, (files.filter (·.parses)).length⟩

/-- Files that are no programs have nothing to report. -/
theorem collected_filter_parses (a : Analyzer) (files : List SourceFile) :
    a.collected (files.filter (·.parses)) = a.collected files := by
  have hfound : (files.filter (·.parses)).filterMap (fun f => a.lint? f.path f.text) =
      files.filterMap fun f => a.lint? f.path f.text := by
    rw [List.filterMap_filter]
    congr 1
    funext f
    rw [← a.isSome_lint? f]
    cases a.lint? f.path f.text <;> rfl
  rw [collected, collected, hfound, List.filter_filter]
  simp only [Bool.and_self]

/-- A run that passes over files that are no programs, or that meets none, collects all
findings. -/
theorem result_lintAll_eq_ok (a : Analyzer) {files : List SourceFile}
    (h : a.strict = false ∨ ∀ f ∈ files, f.parses = true) :
    (a.lintAll files).result = .ok (a.collected files) := by
  induction files with
  | nil => rfl
  | cons f rest ih =>
    have hrest := ih (h.imp_right fun h g hg => h g (List.mem_cons_of_mem f hg))
    have hparses := a.isSome_lint? f
    rw [result_lintAll_cons, hrest]
    cases hlint : a.lint? f.path f.text with
    | some found =>
      rw [hlint] at hparses
      simp [Except.map, collected, hlint, ← hparses]
    | none =>
      rw [hlint] at hparses
      -- a file that is no program can only stand here if the run passes over it
      have hlenient : a.strict = false :=
        h.resolve_right fun h => by simp [h f List.mem_cons_self] at hparses
      simp [hlenient, collected, hlint, ← hparses]

/-- A strict run ends at the first file that is no program. -/
theorem result_lintAll_eq_error (a : Analyzer) (hstrict : a.strict = true)
    {before after : List SourceFile} {f : SourceFile} (hbefore : ∀ g ∈ before, g.parses = true)
    (hf : f.parses = false) : (a.lintAll (before ++ f :: after)).result = .error f.path := by
  induction before with
  | nil =>
    have hlint : a.lint? f.path f.text = none := by
      rw [← Option.isNone_iff_eq_none, ← Option.not_isSome, isSome_lint?, hf]
      rfl
    rw [List.nil_append, result_lintAll_cons, hlint]
    simp [hstrict]
  | cons g before ih =>
    have hrest := ih fun g' hg' => hbefore g' (List.mem_cons_of_mem g hg')
    obtain ⟨found, hlint⟩ := a.exists_lint?_eq_some (hbefore g List.mem_cons_self)
    rw [List.cons_append, result_lintAll_cons, hlint, hrest]
    rfl

/-- Where all files are programs, a strict run is like any other one, warnings included. -/
theorem lintAll_lenient (a : Analyzer) {files : List SourceFile}
    (h : ∀ f ∈ files, f.parses = true) :
    { a with strict := false }.lintAll files = a.lintAll files := by
  induction files with
  | nil => rfl
  | cons f rest ih =>
    have hrest := ih fun g hg => h g (List.mem_cons_of_mem f hg)
    obtain ⟨found, hlint⟩ := a.exists_lint?_eq_some (h f List.mem_cons_self)
    have hlint' : { a with strict := false }.lint? f.path f.text = some found := hlint
    rw [lintAll, lintAll, hlint, hlint', hrest]

/-! ## Whole runs -/

/-- The result of a run that collects all findings is stably sorted. -/
theorem result_run_eq_ok (a : Analyzer) {entries : List Entry}
    (h : a.strict = false ∨ ∀ f ∈ a.discover entries, f.parses = true) :
    (a.run entries).result = .ok (a.collected (a.discover entries)).sorted := by
  rw [run, a.result_lintAll_eq_ok h]
  rfl

/-- A strict run over files in the order of their paths, not all of which are programs, ends with
the first one that is none. -/
theorem result_run_eq_error (a : Analyzer) (hstrict : a.strict = true) {entries : List Entry}
    (hordered : (a.discover entries).Pairwise fun f g => f.path.compare g.path = .lt)
    (h : ∃ f ∈ a.discover entries, f.parses = false) :
    ∃ f ∈ a.discover entries, f.parses = false ∧
      (∀ g ∈ a.discover entries, g.parses = false → g = f ∨ f.path.compare g.path = .lt) ∧
      (a.run entries).result = .error f.path := by
  obtain ⟨f, hf⟩ : ∃ f, (a.discover entries).find? (!·.parses) = some f := by
    rw [← Option.isSome_iff_exists, List.find?_isSome]
    exact h.imp fun f hf => ⟨hf.1, by simp [hf.2]⟩
  obtain ⟨hparses, before, after, hsplit, hbefore⟩ := List.find?_eq_some_iff_append.1 hf
  simp only [Bool.not_eq_true', Bool.not_not] at hparses hbefore
  rw [hsplit] at hordered ⊢
  refine ⟨f, by simp, hparses, ?_, ?_⟩
  · -- a file before `f` is a program, so any other one that is none stands behind `f`
    intro g hg hparses'
    rcases List.mem_append.1 hg with hg | hg
    · simp [hbefore g hg] at hparses'
    · rcases List.mem_cons.1 hg with rfl | hg
      · exact .inl rfl
      · have hbehind := (List.pairwise_append.1 hordered).2.1
        exact .inr ((List.pairwise_cons.1 hbehind).1 g hg)
  · rw [run, hsplit, a.result_lintAll_eq_error hstrict hbefore hparses]
    rfl

/-- What comes out of a run over files with different paths. It does not depend on the order in
which the search came across them; the discovered files are the wanted ones, in the order of their
paths.

A lenient run always gives a report: it counts the files that are programs, and its findings are
those of these files one after the other, stably sorted by their places. So the same comes out if
the files that are no programs are left out. A strict run is like a lenient one if all discovered
files are programs; otherwise it ends with the first file that is none. -/
theorem run_of_nodup_paths (a : Analyzer) {entries : List Entry}
    (hpaths : ((entries.filterMap Entry.file?).map (·.path.components)).Nodup) :
    (∀ others, others.Perm entries → a.run others = a.run entries) ∧
    (a.discover entries).Perm (a.wanted entries) ∧
    (a.discover entries).Pairwise (fun f g => f.path.compare g.path = .lt) ∧
    (a.strict = false → ∃ report,
      (a.run entries).result = .ok report ∧
      report.filesChecked = ((a.discover entries).filter (·.parses)).length ∧
      IsStableSort Finding.precedes
        ((a.discover entries).filterMap fun f => a.lint? f.path f.text).flatten
        report.findings ∧
      (a.run (entries.filter fun e => e.file?.all (·.parses))).result = .ok report) ∧
    (a.strict = true →
      ((∀ f ∈ a.discover entries, f.parses = true) →
        a.run entries = { a with strict := false }.run entries) ∧
      ((∃ f ∈ a.discover entries, f.parses = false) → ∃ f ∈ a.discover entries,
        f.parses = false ∧
        (∀ g ∈ a.discover entries, g.parses = false → g = f ∨ f.path.compare g.path = .lt) ∧
        (a.run entries).result = .error f.path)) := by
  have hordered := SourceFile.pairwise_lt_mergeSort (a.nodup_paths_wanted hpaths)
  rw [← discover_eq_mergeSort] at hordered
  refine ⟨?_, a.discover_perm entries, hordered, ?_, ?_⟩
  · intro others hperm
    rw [run, run, a.discover_eq_of_perm hpaths hperm]
  · intro hlenient
    refine ⟨_, a.result_run_eq_ok (.inl hlenient), rfl,
      Report.isStableSort_sorted (a.collected (a.discover entries)), ?_⟩
    rw [a.result_run_eq_ok (.inl hlenient), a.discover_filter_parses hpaths,
      collected_filter_parses]
  · intro hstrict
    refine ⟨fun hall => ?_, ?_⟩
    · rw [run, run, ← a.lintAll_lenient hall]
      rfl
    · exact a.result_run_eq_error hstrict hordered

/-- Two programs and two files that are none, in no order, with a directory and a file that is not
wanted between them. A lenient run looks at the two programs; a strict one ends at `p/b.js`. -/
theorem run_of_nodup_paths_mixed :
    let file (path content : String) : Entry :=
      ⟨⟨path⟩, some (content.toList.map (·.toNat.toUInt8))⟩
    let entries : List Entry :=
      [file "p/z.js" "define('z');", file "p/c.js" "(", ⟨⟨"p"⟩, none⟩, file "p/notes.txt" ")",
        file "p/b.js" ")", file "p/a.js" "define('a');"]
    let a : Analyzer :=
      ⟨⟨"p"⟩, [⟨.namedDefine, .error, .forbidden⟩], [], [], [], {}, false⟩
    ((entries.filterMap Entry.file?).map (·.path.components)).Nodup ∧
      a.run entries.reverse = a.run entries ∧
      (∃ report, (a.run entries).result = .ok report ∧ report.filesChecked = 2 ∧
        report.findings.Pairwise fun f g => f.precedes g = true) ∧
      ({ a with strict := true }.run entries).result = .error ⟨"p/b.js"⟩ := by
  intro file entries a
  have hpaths : ((entries.filterMap Entry.file?).map (·.path.components)).Nodup := by
    decide +kernel
  have hcount : ((a.wanted entries).filter (·.parses)).length = 2 := by decide +kernel
  have hfirst : ∀ f ∈ a.wanted entries, f.parses = false →
      (∀ g ∈ a.wanted entries, g.parses = false → g = f ∨ f.path.compare g.path = .lt) →
      f.path = ⟨"p/b.js"⟩ := by
    decide +kernel
  have hbad : ∃ f ∈ a.wanted entries, f.parses = false := by decide +kernel
  obtain ⟨hperm, hwanted, -, hlenient, -⟩ := a.run_of_nodup_paths hpaths
  obtain ⟨-, -, -, -, hstrict⟩ := { a with strict := true }.run_of_nodup_paths hpaths
  have hmem : ∀ {f}, f ∈ a.discover entries ↔ f ∈ a.wanted entries := hwanted.mem_iff
  refine ⟨hpaths, hperm _ entries.reverse_perm, ?_, ?_⟩
  · obtain ⟨report, hreport, hchecked, hsorted, -⟩ := hlenient rfl
    exact ⟨report, hreport, by rw [hchecked, (hwanted.filter _).length_eq, hcount],
      hsorted.ordered⟩
  · obtain ⟨f, hf, hparses, hleast, hresult⟩ :=
      (hstrict rfl).2 (hbad.imp fun f hf => ⟨hmem.2 hf.1, hf.2⟩)
    rw [hresult, hfirst f (hmem.1 hf) hparses fun g hg => hleast g (hmem.2 hg)]

end Analyzer

end LoaderLint
