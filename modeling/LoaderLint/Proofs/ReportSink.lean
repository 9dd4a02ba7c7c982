import LoaderLint.Sink
import Mathlib.Data.List.Induction
import Mathlib.Data.List.Nodup

/-!
# What becomes of a request for a finding

A directive permits a finding at a node from one of at most four lines: that of the node and the
line above it, and the same two lines of the statement around the node. The first of these lines
with a directive about the rule decides, and no other line of the file matters.

The module introduces:

* `Directive.OnLine`, `Directive.Decides` — the directive of a line, and the one that decides;
* `Directive.Covered` — a text in which some directive is about a rule;
* `Subject.candidateLines` — the lines on which a directive about a node is looked for.

`Sink.findings_reportAll_append` says what one more request adds to a run of requests, from which
`Sink.findings_reportAll_of_nodup` follows for requests at different nodes. The main result is
`Sink.findings_first_report`: the exact effect of the first request at a node.
-/

namespace LoaderLint

open Script (Node)

/-! ## The directive that decides -/

namespace Directive

/-- The line with the number `k`, counted from one, has the directive `d`. -/
def OnLine (content : String) (k : ℕ) (d : Directive) : Prop :=
  (Text.lineAt? (Text.lines content.toList) k).bind parse? = some d

/-- The directive lists the rule by its name, or all rules. -/
def Lists (d : Directive) (rule : String) : Prop := rule ∈ d.rules ∨ "all" ∈ d.rules

/-- `d` is the directive on the first of the lines that has one about the rule. -/
def Decides (content rule : String) (numbers : List ℕ) (d : Directive) : Prop :=
  ∃ before k after, numbers = before ++ k :: after ∧ OnLine content k d ∧ d.Lists rule ∧
    ∀ j ∈ before, ∀ e, OnLine content j e → ¬e.Lists rule

/-- Some line of the text has a directive about the rule. -/
def Covered (content rule : String) : Prop :=
  ∃ line ∈ Text.lines content.toList, ∃ d, parse? line = some d ∧ d.Lists rule

/-- A text without directives covers nothing. -/
theorem not_covered_of_lines {content : String}
    (h : ∀ line ∈ Text.lines content.toList, parse? line = none) (rule : String) :
    ¬Covered content rule := by
  rintro ⟨line, hline, d, hd, -⟩
  rw [h line hline] at hd
  cases hd

/-- A directive covers the rules that it lists. -/
theorem covers_eq_true_iff {d : Directive} {rule : String} :
    d.covers rule = true ↔ d.Lists rule := by
  simp [covers, Lists]

/-- What a search sees on one line. -/
theorem filter_covers_eq_some_iff {content rule : String} {k : ℕ} {d : Directive} :
    (((Text.lineAt? (Text.lines content.toList) k).bind parse?).filter (·.covers rule)) = some d ↔
      OnLine content k d ∧ d.Lists rule := by
  rw [Option.filter_eq_some_iff, covers_eq_true_iff, OnLine]

/-- What a search sees on a line without a directive about the rule. -/
theorem filter_covers_eq_none_iff (content rule : String) (k : ℕ) :
    (((Text.lineAt? (Text.lines content.toList) k).bind parse?).filter (·.covers rule)) = none ↔
      ∀ d, OnLine content k d → ¬d.Lists rule := by
  simp only [Option.filter_eq_none_iff, covers_eq_true_iff, OnLine]

/-- A search finds the directive that decides. -/
theorem find?_eq_some_iff {content rule : String} {numbers : List ℕ} {d : Directive} :
    find? (Text.lines content.toList) rule numbers = some d ↔
      Decides content rule numbers d := by
  simp only [find?, List.findSome?_eq_some_iff, filter_covers_eq_some_iff,
    filter_covers_eq_none_iff, Decides, and_assoc]

/-- A search finds nothing exactly if no directive decides. -/
theorem find?_eq_none_iff {content rule : String} {numbers : List ℕ} :
    find? (Text.lines content.toList) rule numbers = none ↔
      ¬∃ d, Decides content rule numbers d := by
  simp only [← find?_eq_some_iff, ← Option.ne_none_iff_exists', not_not]

/-- Only lines that exist have directives. -/
theorem OnLine.exists_line {content : String} {k : ℕ} {d : Directive} (h : OnLine content k d) :
    ∃ line ∈ Text.lines content.toList, parse? line = some d ∧ 1 ≤ k ∧
      k ≤ (Text.lines content.toList).length := by
  obtain ⟨line, hline, hd⟩ := Option.bind_eq_some_iff.1 h
  cases k with
  | zero => cases hline
  | succ k =>
    obtain ⟨hk, -⟩ := List.getElem?_eq_some_iff.1 hline
    exact ⟨line, List.mem_of_getElem? hline, hd, Nat.succ_pos k, hk⟩

/-- In a text that is not covered no directive decides. -/
theorem find?_eq_none_of_not_covered {content rule : String} (h : ¬Covered content rule)
    (numbers : List ℕ) : find? (Text.lines content.toList) rule numbers = none := by
  rw [find?_eq_none_iff]
  rintro ⟨d, before, k, after, -, hline, hlists, -⟩
  obtain ⟨line, hmem, hparse, -⟩ := hline.exists_line
  exact h ⟨line, hmem, d, hparse, hlists⟩

/-- Numbers of lines that do not exist make no difference to a search. -/
theorem find?_filter_existing (content rule : String) (numbers : List ℕ) :
    find? (Text.lines content.toList) rule
        (numbers.filter fun k => 1 ≤ k ∧ k ≤ (Text.lines content.toList).length) =
      find? (Text.lines content.toList) rule numbers := by
  induction numbers with
  | nil => rfl
  | cons k rest ih =>
    by_cases hk : 1 ≤ k ∧ k ≤ (Text.lines content.toList).length
    · rw [List.filter_cons_of_pos (by simpa using hk), find?, find?, List.findSome?_cons,
        List.findSome?_cons]
      split
      · rfl
      · exact ih
    · have hnone := (filter_covers_eq_none_iff content rule k).2
        fun d hd => absurd hd.exists_line fun ⟨_, _, _, h1, h2⟩ => hk ⟨h1, h2⟩
      rw [List.filter_cons_of_neg (by simpa using hk), ih, find?, find?, List.findSome?_cons,
        hnone]

/-- Lines with other numbers make no difference to a search. -/
theorem find?_congr {content content' rule : String} {numbers : List ℕ}
    (h : ∀ k ∈ numbers, Text.lineAt? (Text.lines content'.toList) k =
      Text.lineAt? (Text.lines content.toList) k) :
    find? (Text.lines content'.toList) rule numbers =
      find? (Text.lines content.toList) rule numbers := by
  induction numbers with
  | nil => rfl
  | cons k rest ih =>
    have hrest := ih fun j hj => h j (List.mem_cons_of_mem _ hj)
    rw [find?, find?] at hrest
    rw [find?, find?, List.findSome?_cons, List.findSome?_cons, h k List.mem_cons_self, hrest]

end Directive

namespace Subject

/-- The numbers of the lines on which a directive about a node is looked for: those of the node and
of the line above it, then those of its statement and the line above it. -/
def lineNumbers (s : Subject) (n : Node) : List ℕ :=
  let line := n.line
  let statement := s.root.statementLine n
  [line - 1, line] ++ if statement = line then [] else [statement - 1, statement]

/-- Those of them that are numbers of lines of the text. -/
def candidateLines (s : Subject) (n : Node) : List ℕ :=
  (s.lineNumbers n).filter fun k => 1 ≤ k ∧ k ≤ (Text.lines s.content.toList).length

/-- The directive that permits a finding is looked for on the lines of the node, then on those of
its statement. -/
theorem permission?_eq_find? (s : Subject) (rule : String) (n : Node) :
    s.permission? rule n =
      Directive.find? (Text.lines s.content.toList) rule (s.lineNumbers n) := by
  simp only [permission?, lineNumbers, Directive.above?, Directive.find?, List.findSome?_append,
    Option.orElse_eq_or]
  split <;> rfl

/-- A finding is permitted by the directive that decides among the candidate lines. -/
theorem permission?_eq_some_iff {s : Subject} {rule : String} {n : Node} {d : Directive} :
    s.permission? rule n = some d ↔ Directive.Decides s.content rule (s.candidateLines n) d := by
  rw [permission?_eq_find?, ← Directive.find?_filter_existing, ← candidateLines,
    Directive.find?_eq_some_iff]

/-- A finding is not permitted exactly if no directive decides. -/
theorem permission?_eq_none_iff {s : Subject} {rule : String} {n : Node} :
    s.permission? rule n = none ↔
      ¬∃ d, Directive.Decides s.content rule (s.candidateLines n) d := by
  simp only [← permission?_eq_some_iff, ← Option.ne_none_iff_exists', not_not]

/-- In a text that is not covered nothing is permitted. -/
theorem permission?_eq_none_of_not_covered {s : Subject} {rule : String}
    (h : ¬Directive.Covered s.content rule) (n : Node) : s.permission? rule n = none := by
  rw [permission?_eq_find?]
  exact Directive.find?_eq_none_of_not_covered h _

end Subject

/-! ## Single requests -/

/-- A request becomes nothing, the finding it asks for, or the warning at its node. -/
theorem Request.outcome_cases (p : Profile) (s : Subject) (r : Request) :
    r.outcome p s = none ∨ r.outcome p s = some (p.finding s r) ∨
      r.outcome p s = some (p.missingReason s r.node) := by
  unfold outcome
  split
  · exact .inr (.inl rfl)
  · split
    · exact .inr (.inr rfl)
    · exact .inl rfl

/-- What a request becomes is the finding it asks for, or the warning at its node. -/
theorem Request.eq_of_outcome {p : Profile} {s : Subject} {r : Request} {f : Finding}
    (h : r.outcome p s = some f) : f = p.finding s r ∨ f = p.missingReason s r.node := by
  rcases r.outcome_cases p s with hnone | hfinding | hwarning
  · rw [h] at hnone
    cases hnone
  · exact .inl (Option.some.inj (h.symm.trans hfinding))
  · exact .inr (Option.some.inj (h.symm.trans hwarning))

/-- Where nothing is covered, a request becomes the finding it asks for. -/
theorem Request.outcome_of_not_covered {p : Profile} {s : Subject}
    (h : ¬Directive.Covered s.content p.name) (r : Request) :
    r.outcome p s = some (p.finding s r) := by
  rw [outcome, Subject.permission?_eq_none_of_not_covered h]

/-- Two texts with the same candidate lines give a request the same outcome. -/
theorem Request.outcome_congr_content {p : Profile} {s : Subject} {content : String} {r : Request}
    (h : ∀ k ∈ s.lineNumbers r.node, Text.lineAt? (Text.lines content.toList) k =
      Text.lineAt? (Text.lines s.content.toList) k) :
    r.outcome p { s with content } = r.outcome p s := by
  have hpermission : Subject.permission? { s with content } p.name r.node =
      s.permission? p.name r.node := by
    rw [Subject.permission?_eq_find?, Subject.permission?_eq_find?]
    exact Directive.find?_congr h
  rw [outcome, outcome, hpermission]
  rfl

/-! ## Runs of requests -/

namespace Sink

variable (p : Profile) (s : Subject)

/-- One request leaves its node seen. -/
theorem mem_seen_report {sink : Sink} {r : Request} {id : ℕ} :
    id ∈ (sink.report p s r).seen ↔ id ∈ sink.seen ∨ id = r.node.id := by
  unfold report
  split
  · rename_i hseen
    rw [List.contains_iff_mem] at hseen
    exact ⟨.inl, fun h => h.elim (fun h => h) fun h => h ▸ hseen⟩
  · simp [or_comm]

/-- One request adds its outcome, unless its node was seen before. -/
theorem findings_report {sink : Sink} {r : Request} :
    (sink.report p s r).findings =
      sink.findings ++ if r.node.id ∈ sink.seen then [] else (r.outcome p s).toList := by
  unfold report
  by_cases hseen : r.node.id ∈ sink.seen
  · simp [hseen]
  · simp [hseen]

/-- Requests are reported one after the other. -/
theorem reportAll_append (rs : List Request) (r : Request) :
    reportAll p s (rs ++ [r]) = (reportAll p s rs).report p s r := by
  simp [reportAll]

/-- After a run the nodes of its requests are seen, and no others. -/
theorem mem_seen_reportAll {rs : List Request} {id : ℕ} :
    id ∈ (reportAll p s rs).seen ↔ ∃ r ∈ rs, r.node.id = id := by
  induction rs using List.reverseRecOn with
  | nil => simp [reportAll, empty]
  | append_singleton rs r ih =>
    rw [reportAll_append, mem_seen_report, ih]
    simp [or_and_right, exists_or, eq_comm]

/-- One more request adds its outcome, unless there was a request at its node before. -/
theorem findings_reportAll_append (rs : List Request) (r : Request) :
    (reportAll p s (rs ++ [r])).findings =
      (reportAll p s rs).findings ++
        if ∃ q ∈ rs, q.node.id = r.node.id then [] else (r.outcome p s).toList := by
  rw [reportAll_append, findings_report]
  simp only [mem_seen_reportAll]

variable {p s} in
/-- Each finding of a run is what became of one of its requests. -/
theorem exists_outcome_of_mem_findings {rs : List Request} {f : Finding}
    (hf : f ∈ (reportAll p s rs).findings) : ∃ q ∈ rs, q.outcome p s = some f := by
  induction rs using List.reverseRecOn with
  | nil => simp [reportAll, empty] at hf
  | append_singleton rs r ih =>
    rw [findings_reportAll_append, List.mem_append] at hf
    rcases hf with hf | hf
    · obtain ⟨q, hq, houtcome⟩ := ih hf
      exact ⟨q, List.mem_append_left _ hq, houtcome⟩
    · split at hf
      · cases hf
      · exact ⟨r, by simp, Option.mem_toList.1 hf⟩

/-- Requests at different nodes are all answered, in their order. -/
theorem findings_reportAll_of_nodup {rs : List Request} (h : (rs.map (·.node.id)).Nodup) :
    (reportAll p s rs).findings = rs.filterMap (Request.outcome p s) := by
  induction rs using List.reverseRecOn with
  | nil => rfl
  | append_singleton rs r ih =>
    rw [List.map_append, List.nodup_append'] at h
    obtain ⟨hrs, -, hdisjoint⟩ := h
    -- the invariant of the run: no earlier request is at the node of the next one
    have hnew : ¬∃ q ∈ rs, q.node.id = r.node.id := by
      rintro ⟨q, hq, heq⟩
      exact hdisjoint (List.mem_map_of_mem hq) (by simp [heq])
    rw [findings_reportAll_append, if_neg hnew, ih hrs, List.filterMap_append]
    cases houtcome : r.outcome p s <;> simp [houtcome]

/-- The exact effect of the first request at a node. Let the candidate lines be those of the node
and of its statement, each with the line above it. Without a directive about the rule on them the
finding is recorded as asked for. Otherwise the first such directive decides: with a reason, or
where no reason is required, nothing is recorded; without one a locked warning is, which does not
depend on what the request says. Lines that are no candidates do not matter. -/
theorem findings_first_report (earlier : List Request) (r : Request)
    (hfirst : ∀ q ∈ earlier, q.node.id ≠ r.node.id) :
    ∃ recorded : List Finding,
      (∀ content : String,
        (∀ k ∈ s.lineNumbers r.node, Text.lineAt? (Text.lines content.toList) k =
          Text.lineAt? (Text.lines s.content.toList) k) →
        (reportAll p { s with content } (earlier ++ [r])).findings =
          (reportAll p { s with content } earlier).findings ++ recorded) ∧
      ((¬∃ d, Directive.Decides s.content p.name (s.candidateLines r.node) d) →
        recorded = [{
          code := p.code
          rule := p.name
          severity := p.severity
          location := .ofNode s.file r.node
          message := r.message
          suggestion := none
          labels := r.label.toList.map fun (n, message) => ⟨.ofNode s.file n, message⟩
          locked := false }]) ∧
      ∀ d, Directive.Decides s.content p.name (s.candidateLines r.node) d →
        (d.reason.isSome = true → recorded = []) ∧
        (d.reason = none → p.requiresReason = false → recorded = []) ∧
        (d.reason = none → p.requiresReason = true →
          recorded = [{
            code := p.code
            rule := p.name
            severity := .warning
            location := .ofNode s.file r.node
            message := "Allow directive for '" ++ p.name ++ "' is missing required reason"
            suggestion := some "Add reason=\"...\" to explain why this exception is necessary"
            labels := []
            locked := true }] ∧
          ∀ other : Request, other.node = r.node →
            (reportAll p s (earlier ++ [other])).findings =
              (reportAll p s earlier).findings ++ recorded) := by
  have hnew : ¬∃ q ∈ earlier, q.node.id = r.node.id := fun ⟨q, hq, heq⟩ => hfirst q hq heq
  refine ⟨(r.outcome p s).toList, ?_, ?_, ?_⟩
  · intro content hcontent
    rw [findings_reportAll_append, if_neg hnew, Request.outcome_congr_content hcontent]
  · intro hnone
    rw [Request.outcome, Subject.permission?_eq_none_iff.2 hnone]
    rfl
  · intro d hd
    -- all that is left of the request is its node
    have houtcome : ∀ q : Request, q.node = r.node → q.outcome p s =
        if p.requiresReason ∧ d.reason = none then some (p.missingReason s r.node) else none := by
      intro q hq
      rw [Request.outcome, hq, Subject.permission?_eq_some_iff.2 hd]
    rw [houtcome r rfl]
    refine ⟨?_, ?_, ?_⟩
    · intro hreason
      rw [if_neg fun h => by simp [h.2] at hreason]
      rfl
    · intro _ hrequires
      rw [if_neg fun h => by simp [hrequires] at h]
      rfl
    · intro hreason hrequires
      rw [if_pos ⟨hrequires, hreason⟩]
      refine ⟨rfl, fun other hother => ?_⟩
      rw [findings_reportAll_append, hother, if_neg hnew, houtcome other hother,
        if_pos ⟨hrequires, hreason⟩]

/-- A callback on the fourth line of a statement that starts on the second one. The directive right
above the callback is about another rule, so the one above the statement decides; it has no
reason. -/
theorem findings_first_report_unexplained :
    let callback : Node := .mk ⟨2, .function, .plain, ⟨⟨77, 4, 3⟩, 91⟩, ""⟩ []
    let statement : Node := .mk ⟨1, .expressionStatement, .plain, ⟨⟨22, 2, 1⟩, 93⟩, ""⟩ [callback]
    let s : Subject := ⟨⟨"m.js"⟩,
      "// amd-lint: allow(r)\ndefine(['a'],\n  // amd-lint: allow(other) reason=\"x\"\n" ++
        "  function () \x7b\x7d);\n",
      .mk ⟨0, .program, .plain, ⟨⟨0, 1, 1⟩, 94⟩, ""⟩ [statement]⟩
    let p : Profile := ⟨"X001", "r", .error, true⟩
    let earlier : List Request := [⟨statement, "too long", none⟩]
    (∀ q ∈ earlier, q.node.id ≠ callback.id) ∧
      (reportAll p s (earlier ++ [⟨callback, "too few", some (statement, "here")⟩])).findings =
        (reportAll p s earlier).findings ++ [{
          code := "X001"
          rule := "r"
          severity := .warning
          location := ⟨⟨"m.js"⟩, 4, 3, 77, 14⟩
          message := "Allow directive for 'r' is missing required reason"
          suggestion := some "Add reason=\"...\" to explain why this exception is necessary"
          labels := []
          locked := true }] := by
  intro callback statement s p earlier
  have hfirst : ∀ q ∈ earlier, q.node.id ≠ callback.id := by decide
  have hdecides : Directive.Decides s.content p.name (s.candidateLines callback) ⟨["r"], none⟩ :=
    Directive.find?_eq_some_iff.1 (by decide +kernel)
  obtain ⟨recorded, hrecorded, -, hdirective⟩ :=
    findings_first_report p s earlier ⟨callback, "too few", some (statement, "here")⟩ hfirst
  have hwarning := ((hdirective _ hdecides).2.2 rfl rfl).1
  refine ⟨hfirst, ?_⟩
  rw [hrecorded s.content fun _ _ => rfl, hwarning]
  rfl

end Sink

end LoaderLint
