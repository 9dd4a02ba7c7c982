import LoaderLint.Analyzer.Basic
import LoaderLint.Proofs.ReportSink
import LoaderLint.Report

/-!
# Directives only remove or downgrade findings

The same tree is looked at with two texts, one of which has no directive about the rule. Both runs
ask for the same findings in the same order and have seen the same nodes at every point, so they
differ in single outcomes only.

The module introduces:

* `Finding.unexplained` — the warning that takes the place of a finding;
* `Finding.overridden` — a finding under the severity that a configuration may have for its rule;
* `Weakened` — a list of findings some of which were deleted or replaced by such a warning;
* `Rule.effectiveSeverity` — the severity of the findings of a rule under a configuration.

`Sink.weakened_reportAll` compares two runs of requests, one request at a time. The main result is
`findings_weakened`: directives weaken what a rule finds, and they make no analysis worse in which
findings are warnings or errors. The last condition matters: a warning about a missing reason is
locked, so it would stand out among remarks.
-/

namespace LoaderLint

open Script (Node Program)

/-- The warning that takes the place of a finding where a directive lacks the reason it needs. -/
def Finding.unexplained (f : Finding) : Finding where
  code := f.code
  rule := f.rule
  severity := .warning
  location := f.location
  message := "Allow directive for '" ++ f.rule ++ "' is missing required reason"
  suggestion := some "Add reason=\"...\" to explain why this exception is necessary"
  labels := []
  locked := true

/-- `Weakened fs gs`: going through `fs` in order and keeping, deleting or downgrading each finding
gives `gs`. -/
inductive Weakened : List Finding → List Finding → Prop
  | nil : Weakened [] []
  | keep (f : Finding) {fs gs : List Finding} : Weakened fs gs → Weakened (f :: fs) (f :: gs)
  | delete (f : Finding) {fs gs : List Finding} : Weakened fs gs → Weakened (f :: fs) gs
  | downgrade (f : Finding) {fs gs : List Finding} :
      Weakened fs gs → Weakened (f :: fs) (f.unexplained :: gs)

namespace Weakened

variable {fs gs fs' gs' : List Finding}

/-- Lists that are weakened side by side are weakened as a whole. -/
theorem append (h : Weakened fs gs) (h' : Weakened fs' gs') :
    Weakened (fs ++ fs') (gs ++ gs') := by
  induction h with
  | nil => exact h'
  | keep f _ ih => exact ih.keep f
  | delete f _ ih => exact ih.delete f
  | downgrade f _ ih => exact ih.downgrade f

/-- What is left comes from a finding that was there: the finding itself, or its warning. -/
theorem exists_mem (h : Weakened fs gs) {g : Finding} (hg : g ∈ gs) :
    ∃ f ∈ fs, g = f ∨ g = f.unexplained := by
  induction h with
  | nil => cases hg
  | keep f _ ih =>
    rcases List.mem_cons.1 hg with rfl | hg
    · exact ⟨g, List.mem_cons_self, .inl rfl⟩
    · obtain ⟨f', hf', heq⟩ := ih hg
      exact ⟨f', List.mem_cons_of_mem f hf', heq⟩
  | delete f _ ih =>
    obtain ⟨f', hf', heq⟩ := ih hg
    exact ⟨f', List.mem_cons_of_mem f hf', heq⟩
  | downgrade f _ ih =>
    rcases List.mem_cons.1 hg with rfl | hg
    · exact ⟨f, List.mem_cons_self, .inr rfl⟩
    · obtain ⟨f', hf', heq⟩ := ih hg
      exact ⟨f', List.mem_cons_of_mem f hf', heq⟩

end Weakened

/-! ## Configured severities -/

namespace Finding

/-- The finding with the severity that is configured for its rule, if there is one and the finding
is not locked. Nothing else of it changes. -/
def overridden (severity : Option Severity) (f : Finding) : Finding :=
  { f with severity := if f.locked then f.severity else severity.getD f.severity }

/-- Without a configured severity a finding stays as it is. -/
theorem overridden_none (f : Finding) : f.overridden none = f := by
  rw [overridden, Option.getD_none, ite_self]

/-- A configured severity is put into a finding that is not locked. -/
theorem overridden_some (f : Finding) (severity : Severity) :
    f.overridden (some severity) = f.withSeverity severity := by
  unfold overridden withSeverity
  split
  · rfl
  · rfl

end Finding

/-! ## Two runs of requests -/

/-- A warning about a missing reason takes the place of the finding asked for. -/
theorem Profile.missingReason_eq_unexplained (p : Profile) (s : Subject) (r : Request) :
    p.missingReason s r.node = (p.finding s r).unexplained := rfl

section Runs

variable {p : Profile} {file : Path} {root : Node} {content clean : String}

/-- One request: with directives its outcome is the finding asked for, nothing, or the warning. -/
theorem Request.weakened_outcome (hclean : ¬Directive.Covered clean p.name) (r : Request) :
    Weakened (r.outcome p ⟨file, clean, root⟩).toList
      (r.outcome p ⟨file, content, root⟩).toList := by
  rw [Request.outcome_of_not_covered (s := ⟨file, clean, root⟩) hclean]
  unfold Request.outcome
  split
  · exact Weakened.nil.keep _
  · split
    · rw [Profile.missingReason_eq_unexplained]
      exact Weakened.nil.downgrade _
    · exact Weakened.nil.delete _

/-- A run of requests, the nodes of which need not be different. -/
theorem Sink.weakened_reportAll (hclean : ¬Directive.Covered clean p.name) (rs : List Request) :
    Weakened (Sink.reportAll p ⟨file, clean, root⟩ rs).findings
      (Sink.reportAll p ⟨file, content, root⟩ rs).findings := by
  induction rs using List.reverseRecOn with
  | nil => exact .nil
  | append_singleton rs r ih =>
    rw [findings_reportAll_append, findings_reportAll_append]
    refine ih.append ?_
    -- whether the node was seen before is the same in both runs
    split
    · exact .nil
    · exact Request.weakened_outcome hclean r

end Runs

/-! ## Analyses -/

namespace Rule

variable {c : Config} {s : Subject} {r : Rule} {f : Finding}

/-- How serious the findings of a rule are: as configured, else as the rule has it. -/
def effectiveSeverity (c : Config) (r : Rule) : Severity := (c.severityOf? r.name).getD r.severity

/-- What is found where nothing is covered is not locked and has the severity of the rule. -/
theorem unlocked_of_mem_check (hclean : ¬Directive.Covered s.content r.name) (hf : f ∈ r.check s) :
    f.locked = false ∧ f.severity = r.severity := by
  obtain ⟨q, -, houtcome⟩ := Sink.exists_outcome_of_mem_findings hf
  rw [Request.outcome_of_not_covered (p := r.profile) hclean] at houtcome
  cases houtcome
  exact ⟨rfl, rfl⟩

/-- A configuration changes the findings of a rule one by one, through its severity only. -/
theorem configuredCheck_eq_map (c : Config) (s : Subject) (r : Rule) :
    r.configuredCheck c s = (r.check s).map (Finding.overridden (c.severityOf? r.name)) := by
  unfold configuredCheck
  cases c.severityOf? r.name with
  | none => exact (List.map_id'' Finding.overridden_none _).symm
  | some severity => exact List.map_congr_left fun f _ => (f.overridden_some severity).symm

/-- Where nothing is covered, the configured findings have the effective severity. -/
theorem severity_of_mem_configuredCheck (hclean : ¬Directive.Covered s.content r.name)
    (hf : f ∈ r.configuredCheck c s) : f.severity = r.effectiveSeverity c := by
  rw [configuredCheck_eq_map] at hf
  obtain ⟨g, hg, rfl⟩ := List.mem_map.1 hf
  obtain ⟨hlocked, hseverity⟩ := unlocked_of_mem_check hclean hg
  rw [effectiveSeverity, ← hseverity]
  exact if_neg (by simp [hlocked])

variable {file : Path} {root : Node} {content clean : String}

/-- Directives weaken what a rule finds. -/
theorem weakened_check (hclean : ¬Directive.Covered clean r.name) :
    Weakened (r.check ⟨file, clean, root⟩) (r.check ⟨file, content, root⟩) :=
  Sink.weakened_reportAll hclean _

/-- With directives the configured findings are findings without them, or locked warnings in
their place. -/
theorem exists_mem_configuredCheck (hclean : ¬Directive.Covered clean r.name)
    (hf : f ∈ r.configuredCheck c ⟨file, content, root⟩) :
    ∃ g ∈ r.configuredCheck c ⟨file, clean, root⟩, f = g ∨ f.severity = .warning := by
  rw [configuredCheck_eq_map] at hf ⊢
  obtain ⟨f', hf', rfl⟩ := List.mem_map.1 hf
  obtain ⟨g, hg, rfl | rfl⟩ := (weakened_check hclean).exists_mem hf'
  · exact ⟨_, List.mem_map_of_mem hg, .inl rfl⟩
  · -- the lock keeps the configured severity away from the warning
    exact ⟨_, List.mem_map_of_mem hg, .inr rfl⟩

end Rule

/-- What is not a remark is at least a warning. -/
theorem Severity.atLeast_of_warning_atLeast {severity threshold : Severity}
    (hne : severity ≠ .info)
    (h : Severity.warning.atLeast threshold = true) : severity.atLeast threshold = true := by
  cases severity <;> cases threshold <;> simp_all [atLeast, rank]

/-- Directives can only remove or downgrade. Let one text have no directive about a rule. On the
same tree, what any rule finds with another text is what it finds with the first one, gone through
in order, where each finding is kept, deleted, or replaced by the locked warning at its location.
So an analysis whose rules have findings that are warnings or errors reaches no threshold with
directives that it does not reach without them. -/
theorem findings_weakened (root : Node) (content clean : String) :
    (∀ (r : Rule) (file : Path), ¬Directive.Covered clean r.name →
      Weakened (r.check ⟨file, clean, root⟩) (r.check ⟨file, content, root⟩)) ∧
    ∀ (a : Analyzer) (path : Path) (threshold : Severity),
      (∀ r ∈ a.activeRules, ¬Directive.Covered clean r.name ∧
        (r.effectiveSeverity a.config = .warning ∨ r.effectiveSeverity a.config = .error)) →
      Report.hasAtLeast ⟨a.findings path ⟨content, root⟩, 1⟩ threshold = true →
        Report.hasAtLeast ⟨a.findings path ⟨clean, root⟩, 1⟩ threshold = true := by
  refine ⟨fun r file hclean => Rule.weakened_check hclean, ?_⟩
  intro a path threshold hrules hreached
  simp only [Report.hasAtLeast, List.any_eq_true, Analyzer.findings,
    List.mem_flatMap] at hreached ⊢
  obtain ⟨f, ⟨r, hr, hf⟩, hsevere⟩ := hreached
  obtain ⟨hclean, hseverity⟩ := hrules r hr
  obtain ⟨g, hg, rfl | hwarning⟩ := Rule.exists_mem_configuredCheck hclean hf
  · exact ⟨f, ⟨r, hr, hg⟩, hsevere⟩
  · -- the finding behind the warning is a warning itself, or an error
    refine ⟨g, ⟨r, hr, hg⟩, Severity.atLeast_of_warning_atLeast ?_ (hwarning ▸ hsevere)⟩
    rw [Rule.severity_of_mem_configuredCheck (s := ⟨_, clean, root⟩) hclean hg]
    rcases hseverity with h | h <;> simp [h]

/-- A directive without a reason turns an error into a warning. The run without directives has the
error, so it reaches the threshold that the warning reaches. -/
theorem findings_weakened_unexplained :
    let source := "// amd-lint: allow(all)\ndefine('x', \x7b\x7d);\n"
    let location : Location := ⟨⟨"m.js"⟩, 2, 1, 24, 15⟩
    let finding : Finding := ⟨"AMD002", "no-named-define", .error, location,
      "Named module form of `define` is not allowed", none, [], false⟩
    let warning : Finding := ⟨"AMD002", "no-named-define", .warning, location,
      "Allow directive for 'no-named-define' is missing required reason",
      some "Add reason=\"...\" to explain why this exception is necessary", [], true⟩
    let a : Analyzer := ⟨⟨"/p"⟩, [.default .namedDefine], [], [], [], {}, false⟩
    ∃ program, Program.parse? source = some program ∧
      (Rule.default .namedDefine).check ⟨⟨"m.js"⟩, source, program.root⟩ = [warning] ∧
      Weakened [finding] [warning] ∧
      Report.hasAtLeast ⟨a.findings ⟨"/p/m.js"⟩ ⟨source, program.root⟩, 1⟩ .warning = true ∧
      Report.hasAtLeast ⟨a.findings ⟨"/p/m.js"⟩ ⟨"", program.root⟩, 1⟩ .warning = true := by
  intro source location finding warning a
  have hruns : (Program.parse? source).map (fun program =>
      let check content := (Rule.default .namedDefine).check ⟨⟨"m.js"⟩, content, program.root⟩
      (check "", check source,
        Report.hasAtLeast ⟨a.findings ⟨"/p/m.js"⟩ ⟨source, program.root⟩, 1⟩ .warning)) =
      some ([finding], [warning], true) := by
    decide +kernel
  obtain ⟨program, hprogram, hresult⟩ := Option.map_eq_some_iff.1 hruns
  simp only [Prod.mk.injEq] at hresult
  obtain ⟨hclean, hwarned, hreached⟩ := hresult
  have huncovered : ∀ rule, ¬Directive.Covered "" rule := by
    rintro rule ⟨line, hline, -⟩
    cases hline
  obtain ⟨hweakened, hthreshold⟩ := findings_weakened program.root source ""
  refine ⟨program, hprogram, hwarned, ?_, hreached, ?_⟩
  · rw [← hclean, ← hwarned]
    exact hweakened _ _ (huncovered _)
  · refine hthreshold a _ _ (fun r hr => ⟨huncovered _, .inr ?_⟩) hreached
    rw [List.mem_singleton.1 (List.mem_filter.1 hr).1]
    rfl

end LoaderLint
