import LoaderLint.Proofs.ReportHistory
import LoaderLint.Proofs.RuleIndependence

/-!
# Two ways to set a severity

A rule can be given a severity when it is built, or a configuration can set the severity for its
name. The first way decides two things, how serious the findings of the rule are and whether
directives need a reason; the second one changes findings afterwards, and leaves locked ones alone.
So the two agree up to the warnings about missing reasons, and where no reason is missing they
agree altogether.

The module introduces:

* `Directive.AllExplained` — a text in which each directive about a rule has a reason;
* `Rule.atDefault` — a rule that was given no severity;
* `Config.SetsSeverities` — a configuration sets the severities that rules have, where another one
  sets none;
* `Analyzer.configuredBy` — an analysis in which the severities come from a configuration.

`Request.outcome_eq_filter` compares the two ways at one request, `Rule.check_eq_filter` at all
that a rule asks for in a file. The main result is `Analyzer.findings_of_setsSeverities`.
-/

namespace LoaderLint

open Script (Node Program)

/-! ## Directives with reasons -/

namespace Directive

/-- Each directive of the text about the rule has a reason. -/
def AllExplained (content rule : String) : Prop :=
  ∀ line ∈ Text.lines content.toList, ∀ d, parse? line = some d → d.Lists rule →
    d.reason.isSome = true

/-- Whether the directives of a text have reasons can be decided line by line. -/
theorem allExplained_iff {content rule : String} :
    AllExplained content rule ↔
      (Text.lines content.toList).all (fun line =>
        (parse? line).all fun d => !d.covers rule || d.reason.isSome) = true := by
  simp only [AllExplained, List.all_eq_true, Option.all_eq_true, Bool.or_eq_true,
    Bool.not_eq_true', ← Bool.not_eq_true, covers_eq_true_iff, imp_iff_not_or]

instance (content rule : String) : Decidable (AllExplained content rule) :=
  decidable_of_iff _ allExplained_iff.symm

/-- Where all directives about a rule have reasons, so has the one that decides. -/
theorem AllExplained.reason_of_decides {content rule : String} (h : AllExplained content rule)
    {numbers : List ℕ} {d : Directive} (hd : Decides content rule numbers d) :
    d.reason.isSome = true := by
  obtain ⟨before, k, after, -, hline, hlists, -⟩ := hd
  obtain ⟨line, hmem, hparse, -⟩ := hline.exists_line
  exact h line hmem d hparse hlists

end Directive

/-! ## One request -/

namespace Request

/-- A finding that is locked is the warning that the directive that decides has no reason. -/
theorem exists_decides_of_locked {p : Profile} {s : Subject} {q : Request} {f : Finding}
    (hf : q.outcome p s = some f) (hlocked : f.locked = true) :
    f = p.missingReason s q.node ∧
      ∃ d, Directive.Decides s.content p.name (s.candidateLines q.node) d ∧ d.reason = none := by
  unfold outcome at hf
  split at hf
  · -- what is not permitted becomes the finding asked for, which is not locked
    cases hf
    cases hlocked
  · rename_i d hd
    split at hf
    · rename_i hreason
      cases hf
      exact ⟨rfl, d, Subject.permission?_eq_some_iff.1 hd, hreason.2⟩
    · cases hf

end Request

namespace Rule

/-- The rule as it is if no severity is given to it. -/
def atDefault (r : Rule) : Rule := { r with severity := r.id.defaultSeverity }

theorem requiresReason_atDefault (r : Rule) : r.atDefault.requiresReason = true := rfl

/-- A rule asks for the same findings whatever its severity is. -/
theorem requests_atDefault (r : Rule) (s : Subject) : r.atDefault.requests s = r.requests s := rfl

end Rule

/-- No severity is put into a warning about a missing reason. -/
theorem Profile.overridden_missingReason (p : Profile) (s : Subject) (n : Node)
    (severity : Option Severity) :
    (p.missingReason s n).overridden severity = p.missingReason s n := rfl

/-- One request of a rule, with the severity given to the rule and with the same severity put in
afterwards. The second way may give one warning more, about a missing reason. -/
theorem Request.outcome_eq_filter (r : Rule) (s : Subject) (q : Request) :
    q.outcome r.profile s =
      ((q.outcome r.atDefault.profile s).map (Finding.overridden (some r.severity))).filter
        fun f => !f.locked || r.severity = .error := by
  have hname : r.atDefault.profile.name = r.profile.name := rfl
  unfold outcome
  rw [hname]
  cases s.permission? r.profile.name q.node with
  | none => rfl
  | some d =>
    dsimp only
    by_cases hreason : d.reason = none
    · have hdefault : r.atDefault.profile.requiresReason = true ∧ d.reason = none :=
        ⟨r.requiresReason_atDefault, hreason⟩
      rw [if_pos hdefault, Option.map_some, Profile.overridden_missingReason]
      by_cases herror : r.severity = .error
      · have hgiven : r.profile.requiresReason = true ∧ d.reason = none :=
          ⟨decide_eq_true herror, hreason⟩
        rw [if_pos hgiven, Option.filter_some_pos (by simp [herror])]
        rfl
      · -- a rule below errors wants no reasons
        have hgiven : ¬(r.profile.requiresReason = true ∧ d.reason = none) :=
          fun h => herror (of_decide_eq_true h.1)
        rw [if_neg hgiven, Option.filter_some_neg (by simp [herror, Profile.missingReason])]
    · -- where there is a reason, no rule asks for one
      have hexplained : ∀ required : Bool, ¬(required = true ∧ d.reason = none) :=
        fun _ h => hreason h.2
      rw [if_neg (hexplained _), if_neg (hexplained _)]
      rfl

/-! ## One rule -/

namespace Rule

/-- What a rule finds with the severity given to it, and with the same severity put in
afterwards. -/
theorem check_eq_filter (r : Rule) (s : Subject) :
    r.check s =
      ((r.atDefault.check s).map (Finding.overridden (some r.severity))).filter
        fun f => !f.locked || r.severity = .error := by
  -- both runs are asked for the same findings, so they answer the same requests
  rw [check, check, requests_atDefault, Sink.findings_eq_filterMap_firsts,
    Sink.findings_eq_filterMap_firsts, List.map_filterMap, List.filter_filterMap]
  exact List.filterMap_congr fun q _ => q.outcome_eq_filter r s

/-- A locked finding of a rule is the warning that the directive that decides at a node has no
reason. -/
theorem exists_decides_of_mem_check {r : Rule} {s : Subject} {f : Finding} (hf : f ∈ r.check s)
    (hlocked : f.locked = true) :
    ∃ n, f = r.profile.missingReason s n ∧
      ∃ d, Directive.Decides s.content r.name (s.candidateLines n) d ∧ d.reason = none := by
  obtain ⟨q, -, houtcome⟩ := Sink.exists_outcome_of_mem_findings hf
  exact ⟨q.node, Request.exists_decides_of_locked houtcome hlocked⟩

end Rule

/-! ## Analyses -/

/-- The configuration sets the severities that the rules have, and `plain` sets none for them. Both
leave on the same of these rules. -/
structure Config.SetsSeverities (c plain : Config) (rules : List Rule) : Prop where
  /-- Nothing is said about the severity of a rule. -/
  silent : ∀ r ∈ rules, plain.severityOf? r.name = none
  /-- The severity of a rule is set to the one it has. -/
  set : ∀ r ∈ rules, c.severityOf? r.name = some r.severity
  /-- A rule is left on by both or by neither. -/
  enabled : ∀ r ∈ rules, c.isEnabled r.name = plain.isEnabled r.name

namespace Analyzer

/-- The analyzer whose rules were given no severities, under another configuration. -/
def configuredBy (a : Analyzer) (c : Config) : Analyzer :=
  { a with rules := a.rules.map Rule.atDefault, config := c }

variable {a : Analyzer} {c : Config}

/-- Severities do not change which rules are active. -/
theorem activeRules_configuredBy (h : c.SetsSeverities a.config a.rules) :
    (a.configuredBy c).activeRules = a.activeRules.map Rule.atDefault := by
  rw [activeRules, activeRules, configuredBy, List.filter_map]
  -- a rule has the same name without its severity, so a configuration says the same about it
  congr 1
  exact List.filter_congr fun r hr => h.enabled r hr

/-- Under the configuration, the findings of a rule have the severity put in. -/
theorem findings_configuredBy (h : c.SetsSeverities a.config a.rules) (path : Path) (p : Program) :
    (a.configuredBy c).findings path p =
      a.activeRules.flatMap fun r =>
        (r.atDefault.check (.of path a.root p)).map (Finding.overridden (some r.severity)) := by
  rw [findings, activeRules_configuredBy h, List.flatMap_map]
  refine List.flatMap_congr fun r hr => ?_
  have hset : c.severityOf? r.atDefault.name = some r.severity :=
    h.set r (List.mem_of_mem_filter hr)
  rw [Rule.configuredCheck_eq_map, show (a.configuredBy c).config = c from rfl, hset]
  rfl

/-- Without severities in the configuration the findings are those of the rules. -/
theorem findings_of_silent (h : c.SetsSeverities a.config a.rules) (path : Path) (p : Program) :
    a.findings path p = a.activeRules.flatMap fun r => r.check (.of path a.root p) := by
  refine List.flatMap_congr fun r hr => ?_
  rw [Rule.configuredCheck, h.silent r (List.mem_of_mem_filter hr)]

/-- Given severities are severities put in afterwards, less the warnings about missing reasons of
rules below errors. -/
theorem findings_eq_filter (h : c.SetsSeverities a.config a.rules) (path : Path) (p : Program) :
    a.findings path p =
      ((a.configuredBy c).findings path p).filter
        fun f => !f.locked || c.severityOf? f.rule = some .error := by
  rw [findings_of_silent h, findings_configuredBy h, List.filter_flatMap]
  refine List.flatMap_congr fun r hr => ?_
  rw [r.check_eq_filter]
  refine List.filter_congr fun f hf => ?_
  -- a finding of the rule leads back to the severity that is set for it
  obtain ⟨g, hg, rfl⟩ := List.mem_map.1 hf
  have hrule : g.rule = r.name := Rule.rule_of_mem_check (r := r.atDefault) hg
  simp [Finding.overridden, hrule, h.set r (List.mem_of_mem_filter hr)]

/-- A locked finding under the configuration is the warning of a rule that a directive has no
reason. -/
theorem exists_decides_of_mem_findings (h : c.SetsSeverities a.config a.rules) {path : Path}
    {p : Program} {f : Finding} (hf : f ∈ (a.configuredBy c).findings path p)
    (hlocked : f.locked = true) :
    ∃ r ∈ a.rules, ∃ n, f = r.profile.missingReason (.of path a.root p) n ∧
      ∃ d, Directive.Decides p.source r.name ((Subject.of path a.root p).candidateLines n) d ∧
        d.reason = none := by
  rw [findings_configuredBy h, List.mem_flatMap] at hf
  obtain ⟨r, hr, hf⟩ := hf
  obtain ⟨g, hg, rfl⟩ := List.mem_map.1 hf
  obtain ⟨n, rfl, hd⟩ := Rule.exists_decides_of_mem_check hg hlocked
  exact ⟨r, List.mem_of_mem_filter hr, n, rfl, hd⟩

/-- The two ways to set severities, over any tree and any text. If each directive about one of the
rules has a reason, the findings are the same. In general, rules that were given their severities
find what they find with the severities put in by a configuration, less the warnings about missing
reasons of rules below errors. Only such warnings are locked: each stands at a node where the
directive that decides has no reason. -/
theorem findings_of_setsSeverities (h : c.SetsSeverities a.config a.rules) (path : Path)
    (content : String) (root : Node) :
    let given := a.findings path ⟨content, root⟩
    let configured := (a.configuredBy c).findings path ⟨content, root⟩
    ((∀ r ∈ a.rules, Directive.AllExplained content r.name) → given = configured) ∧
    given = configured.filter (fun f => !f.locked || c.severityOf? f.rule = some .error) ∧
    ∀ f ∈ configured, f.locked = true →
      ∃ r ∈ a.rules, ∃ n d,
        Directive.Decides content r.name
          ((Subject.of path a.root ⟨content, root⟩).candidateLines n) d ∧
        d.reason = none ∧
        f = {
          code := r.id.code
          rule := r.name
          severity := .warning
          location := .ofNode (path.relativeTo a.root) n
          message := "Allow directive for '" ++ r.name ++ "' is missing required reason"
          suggestion := some "Add reason=\"...\" to explain why this exception is necessary"
          labels := []
          locked := true } := by
  intro given configured
  have hfilter : given = configured.filter _ := findings_eq_filter h path ⟨content, root⟩
  refine ⟨fun hexplained => ?_, hfilter, ?_⟩
  · rw [hfilter, List.filter_eq_self]
    intro f hf
    by_cases hlocked : f.locked = true
    · obtain ⟨r, hr, n, -, d, hd, hreason⟩ := exists_decides_of_mem_findings h hf hlocked
      have hsome := (hexplained r hr).reason_of_decides hd
      simp [hreason] at hsome
    · simp [hlocked]
  · intro f hf hlocked
    obtain ⟨r, hr, n, hwarning, d, hd, hreason⟩ := exists_decides_of_mem_findings h hf hlocked
    exact ⟨r, hr, n, d, hd, hreason, hwarning⟩

/-- A rule that gives remarks, and two modules with names, the second one below a directive.
Without a reason in the directive the configuration gives one warning more; with a reason there is
none. -/
theorem findings_of_setsSeverities_remarks :
    let source := "define('x', \x7b\x7d);\n// amd-lint: allow(all)\ndefine('y', \x7b\x7d);\n"
    let explained := "\n// amd-lint: allow(all) reason=\"generated\"\n"
    let a : Analyzer := ⟨⟨"/p"⟩, [⟨.namedDefine, .info, .forbidden⟩], [], [], [], {}, false⟩
    let c : Config := { rules := [("no-named-define", { severity := some .info })] }
    let path : Path := ⟨"/p/m.js"⟩
    let remark : Finding := ⟨"AMD002", "no-named-define", .info, ⟨⟨"m.js"⟩, 1, 1, 0, 15⟩,
      "Named module form of `define` is not allowed", none, [], false⟩
    let warning : Finding := ⟨"AMD002", "no-named-define", .warning, ⟨⟨"m.js"⟩, 3, 1, 41, 15⟩,
      "Allow directive for 'no-named-define' is missing required reason",
      some "Add reason=\"...\" to explain why this exception is necessary", [], true⟩
    c.SetsSeverities a.config a.rules ∧
      (∀ r ∈ a.rules, Directive.AllExplained explained r.name) ∧
      ∃ program, Program.parse? source = some program ∧
        (a.configuredBy c).findings path ⟨source, program.root⟩ = [remark, warning] ∧
        a.findings path ⟨source, program.root⟩ = [remark] ∧
        (a.configuredBy c).findings path ⟨explained, program.root⟩ = [remark] ∧
        a.findings path ⟨explained, program.root⟩ = [remark] := by
  intro source explained a c path remark warning
  have h : c.SetsSeverities a.config a.rules :=
    ⟨List.forall_mem_singleton.2 rfl, List.forall_mem_singleton.2 rfl,
      List.forall_mem_singleton.2 rfl⟩
  have hexplained : ∀ r ∈ a.rules, Directive.AllExplained explained r.name :=
    List.forall_mem_singleton.2 (by decide +kernel)
  have hruns : (Program.parse? source).map (fun program =>
      ((a.configuredBy c).findings path ⟨source, program.root⟩,
        (a.configuredBy c).findings path ⟨explained, program.root⟩)) =
      some ([remark, warning], [remark]) := by
    decide +kernel
  obtain ⟨program, hprogram, hpair⟩ := Option.map_eq_some_iff.1 hruns
  obtain ⟨hsource, hconfigured⟩ := Prod.mk.inj hpair
  obtain ⟨-, hfilter, -⟩ := findings_of_setsSeverities h path source program.root
  obtain ⟨hsame, -⟩ := findings_of_setsSeverities h path explained program.root
  refine ⟨h, hexplained, program, hprogram, hsource, ?_, hconfigured, ?_⟩
  · rw [hfilter, hsource]
    decide
  · rw [hsame hexplained, hconfigured]

end Analyzer

end LoaderLint
