import LoaderLint.Proofs.AcceptedCounts
import LoaderLint.Proofs.ColouredReports
import LoaderLint.Proofs.NodeFindings
import LoaderLint.Proofs.SortedReports
import LoaderLint.Proofs.WholeRun

/-!
# Compact reports

A compact report has one line for each finding. That takes more than a line feed behind each
finding: no line feed may be in what is said of it. The texts of the rules are fixed, apart from
numbers and from the name of the rule, so that nothing of a source, of a directive or of a
configuration gets into them. What is left is the path of the file.

`Rule.lacks_newline_of_mem_requests` goes through the rules, and `Analyzer.exists_lint?_of_mem_run`
leads from the findings of a run back to files. The main result is `Report.compact_lines`.
-/

namespace LoaderLint

open Script (Node)
open Text (Lacks lacks_append)

/-! ## Texts of the rules -/

/-- The caption of dependencies is one line. -/
theorem Text.lacks_newline_countCaption (n : ℕ) : Lacks '\n' (countCaption n) := by
  unfold countCaption
  split
  · decide
  · rw [lacks_append]
    exact ⟨lacks_toString rfl n, by decide⟩

/-- The names and codes of rules are one line each. -/
theorem RuleId.lacks_newline (id : RuleId) : Lacks '\n' id.name ∧ Lacks '\n' id.code := by
  cases id <;> decide

namespace Rule

/-- What a rule asks for is said in one line, and so is what it says of another node. -/
theorem lacks_newline_of_mem_requests {r : Rule} {s : Subject} {q : Request}
    (hq : q ∈ r.requests s) :
    Lacks '\n' q.message ∧ ∀ label ∈ q.label, Lacks '\n' label.2 := by
  obtain ⟨id, severity, policy⟩ := r
  cases id with
  | functionArity =>
    rw [requests_functionArity] at hq
    obtain ⟨call, -, hrequest⟩ := List.mem_filterMap.1 hq
    obtain ⟨shape, names, message, -, -, hmessage, rfl⟩ := exists_shape_of_arityRequest? hrequest
    obtain ⟨-, rfl⟩ := Verdict.message?_judge hmessage
    constructor
    · simp only [lacks_append, Text.lacks_toString (c := '\n') rfl, and_true]
      refine ⟨⟨⟨?_, by decide⟩, by decide⟩, by decide⟩
      split <;> decide
    · rintro label hlabel
      cases hlabel
      exact Text.lacks_newline_countCaption names.length
  | namedDefine =>
    rw [requests_namedDefine] at hq
    obtain ⟨n, -, rfl⟩ := List.mem_map.1 hq
    have hmessage : Lacks '\n' "Named module form of `define` is not allowed" := by decide
    exact ⟨hmessage, nofun⟩
  | assignRequire =>
    rw [requests_assignRequire] at hq
    obtain ⟨n, -, rfl⟩ := List.mem_map.1 hq
    have hmessage : Lacks '\n' "Invalid assignment to `require`." := by decide
    exact ⟨hmessage, nofun⟩

/-- All that is said in a finding of a rule is said in one line. -/
theorem lacks_newline_of_mem_check {r : Rule} {s : Subject} {f : Finding} (hf : f ∈ r.check s) :
    Lacks '\n' f.message ∧ (∀ label ∈ f.labels, Lacks '\n' label.message) ∧
      ∀ text ∈ f.suggestion, Lacks '\n' text := by
  obtain ⟨q, hq, rfl | rfl⟩ := exists_request_of_mem_check hf
  · obtain ⟨hmessage, hlabel⟩ := lacks_newline_of_mem_requests hq
    refine ⟨hmessage, fun label hmem => ?_, nofun⟩
    obtain ⟨said, hsaid, rfl⟩ := List.mem_map.1 hmem
    exact hlabel said (Option.mem_toList.1 hsaid)
  · refine ⟨?_, nofun, fun text htext => ?_⟩
    · -- the name of the rule is the only part that is not fixed
      have hname : Lacks '\n' r.profile.name := r.id.lacks_newline.1
      simp only [Profile.missingReason, lacks_append, hname, and_true]
      decide
    · cases htext
      decide

/-- A configured severity is all that a finding of a rule does not have from the rule. -/
theorem exists_mem_check_of_mem_configuredCheck {r : Rule} {s : Subject} {c : Config} {f : Finding}
    (hf : f ∈ r.configuredCheck c s) : ∃ g ∈ r.check s, ∃ severity, f = { g with severity } := by
  rw [configuredCheck_eq_map] at hf
  obtain ⟨g, hg, rfl⟩ := List.mem_map.1 hf
  exact ⟨g, hg, _, rfl⟩

/-- A finding is shown in one line if the path of its file is one. -/
theorem lacks_newline_line {r : Rule} {s : Subject} {c : Config} {f : Finding}
    (hf : f ∈ r.configuredCheck c s) (hfile : Lacks '\n' s.file.spelling) :
    Lacks '\n' f.line := by
  obtain ⟨n, -, hlocation⟩ := exists_node_of_mem_configuredCheck hf List.mem_cons_self
  obtain ⟨g, hg, severity, rfl⟩ := exists_mem_check_of_mem_configuredCheck hf
  have hcode : Lacks '\n' g.code := code_of_mem_check hg ▸ r.id.lacks_newline.2
  have hplace : Lacks '\n' g.location.place := by
    rw [show g.location = _ from hlocation]
    simp only [Location.place, Location.ofNode, lacks_append, hfile,
      Text.lacks_toString (c := '\n') rfl, true_and, and_true]
    decide
  have hname : Lacks '\n' severity.name := severity.lacks_name (by decide)
  have hmessage := (lacks_newline_of_mem_check hg).1
  simp only [Finding.line, lacks_append, hplace, hname, hcode, hmessage, true_and, and_true]
  decide

end Rule

/-! ## Reports -/

/-- A report whose findings are shown in one line each is cut at its line feeds into these
lines. -/
theorem Report.splitOn_compact {r : Report} (h : ∀ f ∈ r.findings, Lacks '\n' f.line) :
    List.splitOn '\n' r.compact.toList = r.findings.map (·.line.toList) ++ [[]] := by
  have hcompact : r.compact.toList =
      (r.findings.map (·.line.toList)).flatMap (· ++ ['\n']) ++ [] := by
    rw [compact, String.toList_join, List.append_nil, List.flatMap_map, List.flatMap_map]
    simp only [String.toList_append]
    rfl
  rw [hcompact, Text.splitOn_flatMap_append (List.forall_mem_map.2 h)]
  rfl

namespace Analyzer

/-- What is found in a source is shown in one line each if the path of the source is one. -/
theorem lacks_newline_of_lint? {a : Analyzer} {path : Path} {source : String}
    {found : List Finding}
    (h : a.lint? path source = some found) (hpath : Lacks '\n' (path.relativeTo a.root).spelling) :
    ∀ f ∈ found, Lacks '\n' f.line := by
  obtain ⟨p, -, rfl⟩ := Option.map_eq_some_iff.1 h
  intro f hf
  obtain ⟨r, -, hr⟩ := List.mem_flatMap.1 hf
  exact r.lacks_newline_line hr hpath

/-- Each finding of a run over files is one of a file. -/
theorem exists_lint?_of_mem_lintAll {a : Analyzer} {files : List SourceFile} {report : Report}
    (h : (a.lintAll files).result = .ok report) {f : Finding} (hf : f ∈ report.findings) :
    ∃ file ∈ files, ∃ found, a.lint? file.path file.text = some found ∧ f ∈ found := by
  -- one more file adds its own findings, or it is passed over
  induction files generalizing report with
  | nil =>
    cases h
    cases hf
  | cons file rest ih =>
    rw [result_lintAll_cons] at h
    split at h
    · rename_i found hfound
      cases hrest : (a.lintAll rest).result with
      | error path =>
        rw [hrest] at h
        cases h
      | ok others =>
        rw [hrest] at h
        cases h
        rcases List.mem_append.1 hf with hf | hf
        · exact ⟨file, List.mem_cons_self, found, hfound, hf⟩
        · obtain ⟨g, hg, hlint⟩ := ih hrest hf
          exact ⟨g, List.mem_cons_of_mem file hg, hlint⟩
    · split at h
      · cases h
      · obtain ⟨g, hg, hlint⟩ := ih h hf
        exact ⟨g, List.mem_cons_of_mem file hg, hlint⟩

/-- Each finding of a run is one of a file that is linted. -/
theorem exists_lint?_of_mem_run {a : Analyzer} {entries : List Entry} {report : Report}
    (h : (a.run entries).result = .ok report) {f : Finding} (hf : f ∈ report.findings) :
    ∃ file ∈ a.discover entries, ∃ found,
      a.lint? file.path file.text = some found ∧ f ∈ found := by
  rw [run] at h
  cases hall : (a.lintAll (a.discover entries)).result with
  | error path =>
    simp only [hall] at h
    cases h
  | ok collected =>
    simp only [hall] at h
    cases h
    -- sorting neither adds nor drops findings
    exact exists_lint?_of_mem_lintAll hall (collected.isStableSort_sorted.perm.mem_iff.1 hf)

end Analyzer

namespace Report

/-- A compact report has one line for each finding.

Whatever is in the source, in the directives and in the settings of a rule, nothing that the rule
says in a finding has a line feed. So the findings in a source with a path of one line, and those
of a run over files with such paths, are as many as the lines of the compact report, and each line
shows the finding with its number. The last line feed ends the last line. -/
theorem compact_lines :
    (∀ (r : Rule) (c : Config) (s : Subject), ∀ f ∈ r.configuredCheck c s,
      Lacks '\n' f.message ∧ (∀ label ∈ f.labels, Lacks '\n' label.message) ∧
        ∀ text ∈ f.suggestion, Lacks '\n' text) ∧
    (∀ (a : Analyzer) (path : Path) (source : String) (r : Report),
      a.lint? path source = some r.findings → Lacks '\n' (path.relativeTo a.root).spelling →
      List.splitOn '\n' r.compact.toList = r.findings.map (·.line.toList) ++ [[]]) ∧
    ∀ (a : Analyzer) (entries : List Entry) (r : Report),
      (a.run entries).result = .ok r →
      (∀ file ∈ a.discover entries, Lacks '\n' (file.path.relativeTo a.root).spelling) →
      List.splitOn '\n' r.compact.toList = r.findings.map (·.line.toList) ++ [[]] := by
  refine ⟨?_, ?_, ?_⟩
  · intro r c s f hf
    obtain ⟨g, hg, severity, rfl⟩ := Rule.exists_mem_check_of_mem_configuredCheck hf
    have hsaid := Rule.lacks_newline_of_mem_check hg
    exact hsaid
  · intro a path source r hlint hpath
    exact splitOn_compact (Analyzer.lacks_newline_of_lint? hlint hpath)
  · intro a entries r hrun hpaths
    refine splitOn_compact fun f hf => ?_
    obtain ⟨file, hfile, found, hlint, hfound⟩ := Analyzer.exists_lint?_of_mem_run hrun hf
    exact Analyzer.lacks_newline_of_lint? hlint (hpaths file hfile) f hfound

/-- A dependency and the name of a module that spell line feeds, a name with one in the settings of
the rule, and a directive without a reason. There are two findings, and the report has two
lines. -/
theorem compact_lines_escaped :
    let source := "require(['\\n', c], function () \x7b\x7d)\n\n" ++
      "define('\\n', 1) // amd-lint: allow(all)"
    let entries : List Entry := [⟨⟨"p/a.js"⟩, some (source.toList.map (·.toNat.toUInt8))⟩]
    let a : Analyzer := ⟨⟨"p"⟩,
      [⟨.functionArity, .error, .allowList ["\n"]⟩, ⟨.namedDefine, .error, .forbidden⟩], [], [],
      [], {}, false⟩
    ∃ r, (a.run entries).result = .ok r ∧
      (∀ file ∈ a.discover entries, Lacks '\n' (file.path.relativeTo a.root).spelling) ∧
      r.findings.length = 2 ∧
      List.splitOn '\n' r.compact.toList = r.findings.map (·.line.toList) ++ [[]] := by
  intro source entries a
  have hrun := @Analyzer.result_run_eq_ok a entries (.inl rfl)
  have hpaths : ∀ file ∈ a.discover entries,
      Lacks '\n' (file.path.relativeTo a.root).spelling := by
    decide +kernel
  have hfindings : (a.collected (a.discover entries)).findings.length = 2 := by decide +kernel
  refine ⟨_, hrun, hpaths, ?_, compact_lines.2.2 a entries _ hrun hpaths⟩
  rw [(isStableSort_sorted _).perm.length_eq, hfindings]

end Report

end LoaderLint
