import LoaderLint.Proofs.DirectiveEffect

/-!
# Rules that do not interfere

An analysis runs its rules one after the other, and no rule sees what another one finds. Each
finding has the name of the rule that found it, so rules with different names can be told apart in
what comes out, and a configuration reaches a rule through its name only.

The main result is `Analyzer.lint?_of_nodup_names`: an analysis is put together from what each rule
finds by itself, so that its findings of one rule are those of that rule alone, and switching rules
off is the same as leaving them out.
-/

namespace LoaderLint

open Script (Program)

/-! ## The names of findings -/

/-- What becomes of a request has the name of the rule. -/
theorem Request.rule_of_outcome {p : Profile} {s : Subject} {q : Request} {f : Finding}
    (h : q.outcome p s = some f) : f.rule = p.name := by
  rcases eq_of_outcome h with rfl | rfl
  · rfl
  · rfl

namespace Rule

variable {r : Rule} {s : Subject} {c : Config} {f : Finding}

/-- All findings of a rule have its name. -/
theorem rule_of_mem_check (hf : f ∈ r.check s) : f.rule = r.name := by
  obtain ⟨q, -, houtcome⟩ := Sink.exists_outcome_of_mem_findings hf
  exact Request.rule_of_outcome houtcome

/-- The configured findings of a rule have its name, too. -/
theorem rule_of_mem_configuredCheck (hf : f ∈ r.configuredCheck c s) : f.rule = r.name := by
  rw [configuredCheck_eq_map] at hf
  obtain ⟨g, hg, rfl⟩ := List.mem_map.1 hf
  have hrule : g.rule = r.name := rule_of_mem_check hg
  exact hrule

/-- Two configurations with the same section for a rule have the same effect on its findings. -/
theorem configuredCheck_congr {c' : Config} (h : c'.section? r.name = c.section? r.name) :
    r.configuredCheck c' s = r.configuredCheck c s := by
  rw [configuredCheck_eq_map, configuredCheck_eq_map, Config.severityOf?, h,
    Config.severityOf?]

end Rule

/-! ## Lists of rules -/

/-- Where each rule finds things under its own name, the findings under a name are those of the
rules with that name. -/
theorem filter_rule_flatMap {found : Rule → List Finding}
    (hfound : ∀ r, ∀ f ∈ found r, f.rule = r.name) (name : String) (rules : List Rule) :
    (rules.flatMap found).filter (·.rule = name) =
      (rules.filter (·.name = name)).flatMap found := by
  induction rules with
  | nil => rfl
  | cons r rest ih =>
    rw [List.flatMap_cons, List.filter_append, ih, List.filter_cons]
    by_cases hname : r.name = name
    · have hall : (found r).filter (·.rule = name) = found r :=
        List.filter_eq_self.2 fun f hf => by simp [hfound r f hf, hname]
      simp [hall, hname]
    · have hnone : (found r).filter (·.rule = name) = [] :=
        List.filter_eq_nil_iff.2 fun f hf => by simp [hfound r f hf, hname]
      simp [hnone, hname]

/-- Among rules with different names, the only one with the name of a rule is that rule. -/
theorem filter_name_eq_singleton {rules : List Rule} {r : Rule}
    (hnames : (rules.map Rule.name).Nodup) (hr : r ∈ rules) :
    rules.filter (·.name = r.name) = [r] := by
  induction rules with
  | nil => cases hr
  | cons first rest ih =>
    rw [List.map_cons, List.nodup_cons] at hnames
    obtain ⟨hfirst, hrest⟩ := hnames
    rcases List.mem_cons.1 hr with rfl | hr
    · have hnone : rest.filter (·.name = r.name) = [] := by
        refine List.filter_eq_nil_iff.2 fun other hother => ?_
        have hne : other.name ≠ r.name := fun h => hfirst (h ▸ List.mem_map_of_mem hother)
        simpa using hne
      simp [hnone]
    · have hne : first.name ≠ r.name := fun h => hfirst (h ▸ List.mem_map_of_mem hr)
      rw [List.filter_cons_of_neg (by simpa using hne)]
      exact ih hrest hr

namespace Analyzer

/-- The findings of an analysis under the name of one of its rules are those of that rule alone. -/
theorem filter_rule_findings {a : Analyzer} (hnames : (a.rules.map Rule.name).Nodup) {r : Rule}
    (hr : r ∈ a.rules) (path : Path) (p : Program) :
    (a.findings path p).filter (·.rule = r.name) = { a with rules := [r] }.findings path p := by
  have hactive : a.activeRules.filter (·.name = r.name) =
      { a with rules := [r] }.activeRules := by
    rw [activeRules, List.filter_comm, filter_name_eq_singleton hnames hr]
    rfl
  rw [findings, filter_rule_flatMap (fun _ _ hf => Rule.rule_of_mem_configuredCheck hf), hactive]
  rfl

/-- A configuration that differs from another one by switching rules off finds what that one finds
without them. -/
theorem findings_of_switched_off (a : Analyzer) {names : List String} {c : Config}
    (hoff : ∀ name ∈ names, c.isEnabled name = false)
    (hsame : ∀ name, name ∉ names → c.section? name = a.config.section? name) (path : Path)
    (p : Program) :
    { a with config := c }.findings path p =
      { a with rules := a.rules.filter (·.name ∉ names) }.findings path p := by
  have hactive : { a with config := c }.activeRules =
      { a with rules := a.rules.filter (·.name ∉ names) }.activeRules := by
    rw [activeRules, activeRules, List.filter_filter]
    refine List.filter_congr fun r _ => ?_
    by_cases hmem : r.name ∈ names
    · simp [hmem, hoff r.name hmem]
    · simp [hmem, Config.isEnabled, hsame r.name hmem]
  rw [findings, findings, hactive]
  -- what is left on has the same section in both configurations
  refine List.flatMap_congr fun r hr => Rule.configuredCheck_congr (hsame r.name ?_)
  simpa using (List.mem_filter.1 (List.mem_filter.1 hr).1).2

/-- What an analysis with rules of different names gives for a source that is a program. It gives,
rule by rule in their order and for those only that are left on, what the rule finds by itself
under the severity that is configured for it. So the findings under the name of a rule are the same
as when this rule runs alone. And switching rules off in a configuration, which otherwise stays as
it is, is the same as leaving these rules out. -/
theorem lint?_of_nodup_names (a : Analyzer) (path : Path) {source : String} {p : Program}
    (hp : Program.parse? source = some p) (hnames : (a.rules.map Rule.name).Nodup) :
    a.lint? path source = some
      ((a.rules.filter fun r => a.config.isEnabled r.name).flatMap fun r =>
        (r.check (.of path a.root p)).map (Finding.overridden (a.config.severityOf? r.name))) ∧
    (∀ r ∈ a.rules,
      (a.lint? path source).map (·.filter (·.rule = r.name)) =
        { a with rules := [r] }.lint? path source) ∧
    (∀ (names : List String) (c : Config), (∀ name ∈ names, c.isEnabled name = false) →
      (∀ name, name ∉ names → c.section? name = a.config.section? name) →
      { a with config := c }.lint? path source =
        { a with rules := a.rules.filter (·.name ∉ names) }.lint? path source) := by
  have hlint : ∀ b : Analyzer, b.lint? path source = some (b.findings path p) := by
    intro b
    rw [lint?, hp, Option.map_some]
  refine ⟨?_, ?_, ?_⟩
  · rw [hlint, findings]
    simp only [Rule.configuredCheck_eq_map]
    rfl
  · intro r hr
    rw [hlint, hlint, Option.map_some, filter_rule_findings hnames hr]
  · intro names c hoff hsame
    rw [hlint, hlint, a.findings_of_switched_off hoff hsame]

/-- Two rules and a source with a finding of each. The second one stands below a directive without
a reason, so it is a locked warning, which the configured severity does not change. -/
theorem lint?_of_nodup_names_locked :
    let source := "define('x', \x7b\x7d);\n// amd-lint: allow(all)\nvar require = f;\n"
    let named : Rule := .default .namedDefine
    let assigned : Rule := .default .assignRequire
    let c : Config := { rules := [("no-named-define", { severity := some .info }),
      ("no-assign-require", { severity := some .error })] }
    let off : Config := { rules := [("no-assign-require", { severity := some .error }),
      ("no-named-define", { enabled := some false })] }
    let a : Analyzer := ⟨⟨"/p"⟩, [named, assigned], [], [], [], c, false⟩
    let path : Path := ⟨"/p/m.js"⟩
    let remark : Finding := ⟨"AMD002", "no-named-define", .info, ⟨⟨"m.js"⟩, 1, 1, 0, 15⟩,
      "Named module form of `define` is not allowed", none, [], false⟩
    let warning : Finding := ⟨"AMD003", "no-assign-require", .warning, ⟨⟨"m.js"⟩, 3, 5, 45, 11⟩,
      "Allow directive for 'no-assign-require' is missing required reason",
      some "Add reason=\"...\" to explain why this exception is necessary", [], true⟩
    (a.rules.map Rule.name).Nodup ∧
      a.lint? path source = some [remark, warning] ∧
      { a with rules := [named] }.lint? path source = some [remark] ∧
      { a with rules := [assigned] }.lint? path source = some [warning] ∧
      { a with config := off }.lint? path source = some [warning] := by
  intro source named assigned c off a path remark warning
  have hnames : (a.rules.map Rule.name).Nodup := by decide
  have hfound : a.lint? path source = some [remark, warning] := by decide +kernel
  obtain ⟨p, hp, -⟩ := Option.map_eq_some_iff.1 hfound
  obtain ⟨-, halone, hoff⟩ := a.lint?_of_nodup_names path hp hnames
  have hnamed : { a with rules := [named] }.lint? path source = some [remark] := by
    rw [← halone named (by simp [a]), hfound]
    decide
  have hassigned : { a with rules := [assigned] }.lint? path source = some [warning] := by
    rw [← halone assigned (by simp [a]), hfound]
    decide
  refine ⟨hnames, hfound, hnamed, hassigned, ?_⟩
  rw [← hassigned]
  refine hoff ["no-named-define"] off (by decide) fun name hname => ?_
  have hne : "no-named-define" ≠ name := by simpa [eq_comm] using hname
  by_cases hother : "no-assign-require" = name
  · subst hother
    rfl
  · simp [Config.section?, off, a, c, hne, hother]

end Analyzer

end LoaderLint
