import LoaderLint.CommandLine.Run
import LoaderLint.Proofs.ColouredReports
import LoaderLint.Proofs.Numerals
import LoaderLint.Proofs.SortedReports

/-!
# Exit status and summary

A check fails if there is a finding that is at least as serious as the configured threshold. Its
report ends with a summary that counts errors, warnings and remarks. The two agree: the check fails
exactly if one of the numbers for the threshold and above is not zero, and these numbers can be
read off the last line of its output.

The module introduces:

* `Severity.shownIn` — the numbers of a summary that are about findings at least as serious as a
  threshold.

The main result is `Report.hasAtLeast_iff_summary`. What a check prints and how it ends is taken
from `CommandLine.World.exists_report_of_check`.
-/

namespace LoaderLint

/-! ## Counts -/

/-- How many of the numbers in a summary are about findings at least as serious as the
threshold. -/
def Severity.columns : Severity → ℕ
  | error => 1
  | warning => 2
  | info => 3

/-- The numbers in a summary that are about findings at least as serious as the threshold: errors
come first, then warnings, then remarks. -/
def Severity.shownIn (threshold : Severity) (summary : List Char) : List ℕ :=
  (Text.numbers summary).take threshold.columns

/-- Severities are in order. -/
theorem Severity.atLeast_trans {a b c : Severity} (hab : a.atLeast b = true)
    (hbc : b.atLeast c = true) : a.atLeast c = true := by
  simp only [atLeast, decide_eq_true_eq] at *
  omega

namespace Report

/-- The numbers of a summary are the counts and the number of files. -/
theorem numbers_summary (r : Report) :
    Text.numbers r.summary.toList =
      [r.count .error, r.count .warning, r.count .info, r.filesChecked] := by
  unfold summary
  rw [Text.numbers, ← List.append_nil (String.toList _)]
  simp only [String.toList_append, List.append_assoc]
  -- texts and numbers take turns
  rw [Text.numbersFrom_text "Found " (by decide), Text.numbersFrom_toString,
    Text.numbersFrom_text " error(s), " (by decide), Text.numbersFrom_toString,
    Text.numbersFrom_text " warning(s), " (by decide), Text.numbersFrom_toString,
    Text.numbersFrom_text " info(s) in " (by decide), Text.numbersFrom_toString,
    Text.numbersFrom_text " file(s)" (by decide)]
  rfl

/-- The numbers in a summary from a threshold on are those of the findings. -/
theorem shownIn_summary (r : Report) (threshold : Severity) :
    threshold.shownIn r.summary.toList =
      ([.error, .warning, .info].filter fun s : Severity => s.atLeast threshold).map r.count := by
  rw [Severity.shownIn, numbers_summary]
  cases threshold <;> rfl

/-- Each finding is counted once. -/
theorem count_add_count_add_count (r : Report) :
    r.count .error + r.count .warning + r.count .info = r.findings.length := by
  unfold count
  induction r.findings with
  | nil => rfl
  | cons f findings ih =>
    simp only [List.countP_cons, List.length_cons, ← ih]
    cases f.severity <;> simp +arith

theorem hasAtLeast_iff {r : Report} {threshold : Severity} :
    r.hasAtLeast threshold = true ↔ ∃ f ∈ r.findings, f.severity.atLeast threshold = true :=
  List.any_eq_true

/-- The number of findings of a severity is not 0 exactly if there is one. -/
theorem count_ne_zero_iff {r : Report} {severity : Severity} :
    r.count severity ≠ 0 ↔ ∃ f ∈ r.findings, f.severity = severity := by
  simp [count, List.countP_eq_zero]

/-- There is a finding at least as serious as a threshold exactly if the summary shows one. -/
theorem hasAtLeast_iff_shownIn (r : Report) (threshold : Severity) :
    r.hasAtLeast threshold = true ↔ ∃ n ∈ threshold.shownIn r.summary.toList, n ≠ 0 := by
  have hcolumn : ∀ severity : Severity, severity ∈ [Severity.error, .warning, .info] := by
    intro severity
    cases severity <;> decide
  rw [hasAtLeast_iff, shownIn_summary]
  constructor
  · rintro ⟨f, hf, hserious⟩
    refine ⟨r.count f.severity, List.mem_map_of_mem ?_, count_ne_zero_iff.2 ⟨f, hf, rfl⟩⟩
    exact List.mem_filter.2 ⟨hcolumn f.severity, hserious⟩
  · rintro ⟨n, hn, hpositive⟩
    obtain ⟨severity, hseverity, rfl⟩ := List.mem_map.1 hn
    obtain ⟨f, hf, rfl⟩ := count_ne_zero_iff.1 hpositive
    exact ⟨f, hf, (List.mem_filter.1 hseverity).2⟩

/-- Sorting does not change which severities there are. -/
theorem hasAtLeast_sorted (r : Report) (threshold : Severity) :
    r.sorted.hasAtLeast threshold = r.hasAtLeast threshold :=
  r.isStableSort_sorted.perm.any_eq

/-- Sorting does not change the summary. -/
theorem summary_sorted (r : Report) : r.sorted.summary = r.summary := by
  have hcounts := r.counts_sorted
  simp only [counts, Prod.mk.injEq] at hcounts
  obtain ⟨herrors, hwarnings, hinfos⟩ := hcounts
  unfold summary
  rw [herrors, hwarnings, hinfos]
  rfl

end Report

/-! ## Checks -/

namespace CommandLine.World

variable {w : World} {o : CheckOptions} {named : Option String}

/-- A check with its configuration and rules that does not fail on the way has a report: it prints
the report, and the threshold decides about its status. -/
theorem exists_report_of_checkWith {config : Config} {rules : List Rule}
    {warnings : List Warning} :
    (w.checkWith o config rules warnings).failure = none →
      ∃ (root : Path) (report : Report) (warnings' : List Warning),
        w.checkWith o config rules warnings =
          w.done (if report.hasAtLeast config.failThreshold then 1 else 0)
            (w.render root report o.format) warnings' := by
  unfold checkWith
  extract_lets setup
  -- the analyzer may not be built, the search may fail, and a file may end the run
  split
  · intro h
    cases h
  · split
    · intro h
      cases h
    · extract_lets outcome warnings'
      split
      · intro h
        cases h
      · exact fun _ => ⟨_, _, _, rfl⟩

/-- A check that does not fail on the way has a configuration and a report. -/
theorem exists_report_of_check :
    (w.check o named).failure = none →
      ∃ (config : Config) (root : Path) (report : Report) (warnings : List Warning),
        w.loadConfig ⟨o.path⟩ named = .ok config ∧
        w.check o named =
          w.done (if report.hasAtLeast config.failThreshold then 1 else 0)
            (w.render root report o.format) warnings := by
  unfold check
  split
  · intro h
    cases h
  · rename_i config hconfig
    extract_lets names selected warnings
    clear_value selected
    cases selected with
    | error e =>
      intro h
      cases h
    | ok rules =>
      intro h
      obtain ⟨root, report, warnings', hcheck⟩ := exists_report_of_checkWith h
      exact ⟨config, root, report, warnings', hconfig, hcheck⟩

/-- In the formats that show a summary, nothing stands before it on its line. -/
theorem exists_render_eq (root : Path) (report : Report) {format : Format}
    (h : format = .text ∨ format = .pretty) :
    ∃ texts : List String, (∀ text ∈ texts, text.toList.getLast? = some '\n') ∧
      w.render root report format = String.join texts ++ report.summaryLine true := by
  have hline (text : String) : (text ++ "\n").toList.getLast? = some '\n' := by
    rw [String.toList_append]
    exact List.getLast?_concat
  rcases h with rfl | rfl
  · refine ⟨_, ?_, report.text_true⟩
    rw [List.forall_mem_map]
    exact fun f _ => hline f.colouredBlock
  · refine ⟨_, ?_, rfl⟩
    rw [List.forall_mem_map]
    intro f _
    split
    · exact hline _
    · exact hline _

/-- The summary can be read off the last line of the output. -/
theorem exists_last_line (root : Path) (report : Report) {format : Format}
    (h : format = .text ∨ format = .pretty) :
    ∃ line, (Text.lines (w.render root report format).toList).getLast? = some line ∧
      Terminal.plain line = report.summary.toList := by
  obtain ⟨texts, htexts, hrender⟩ := w.exists_render_eq root report h
  have hbefore : (String.join texts).toList = [] ∨
      (String.join texts).toList.getLast? = some '\n' := by
    rcases List.eq_nil_or_concat texts with rfl | ⟨texts, text, rfl⟩
    · exact .inl rfl
    · have hlast := htexts text (by simp)
      refine .inr ?_
      rw [List.concat_eq_append, String.toList_join, List.flatMap_append, List.flatMap_singleton,
        List.getLast?_append, hlast]
      rfl
  have hline : Text.Lacks '\n' (report.summaryColour.paint report.summary) := by
    have hsummary : Text.Lacks '\n' report.summary := report.lacks_summary (by decide)
    unfold Colour.paint
    simp only [Text.lacks_append, hsummary, and_true]
    cases report.summaryColour <;> decide
  have hend : (report.summaryColour.paint report.summary).toList.getLast? ≠ some '\r' := by
    unfold Colour.paint
    rw [String.toList_append, List.getLast?_append]
    change some 'm' ≠ some '\r'
    decide
  refine ⟨(report.summaryColour.paint report.summary).toList, ?_, ?_⟩
  · rw [hrender, report.summaryLine_true, String.toList_append, String.toList_append]
    exact Text.getLast?_lines hbefore hline hend
  · have hplain := Terminal.plain_paint report.summaryColour
      (report.lacks_summary (by decide : Terminal.escape.toNat < 32)) []
    rw [List.append_nil] at hplain
    rw [hplain, Terminal.plain, Terminal.tokens]
    exact List.append_nil _

end CommandLine.World

namespace Report

open CommandLine (World CheckOptions)

/-- Exit status, counts and summary agree.

The counts add up to the number of findings, and they say whether there is a finding at least as
serious as a threshold. Findings that are added do not take such a finding away, and neither does a
lower threshold. For the threshold of a configuration the numbers in the summary say so, before and
after sorting.

A check that comes to an end prints a report, and its status is one exactly if one of the numbers
for its threshold and above is not zero. In the formats that show a summary, these are the numbers
on the last line of the output. -/
theorem hasAtLeast_iff_summary (r : Report) {e w i : ℕ} (hcounts : r.counts = (e, w, i)) :
    e + w + i = r.findings.length ∧
    (r.hasAtLeast .error = true ↔ r.hasErrors = true) ∧
    (r.hasErrors = true ↔ 0 < e) ∧
    (r.hasAtLeast .warning = true ↔ 0 < e + w) ∧
    (r.hasAtLeast .info = true ↔ r.findings ≠ []) ∧
    (∀ (more : Report) (threshold : Severity), r.findings ⊆ more.findings →
      r.hasAtLeast threshold = true → more.hasAtLeast threshold = true) ∧
    (∀ low high : Severity, high.atLeast low = true →
      r.hasAtLeast high = true → r.hasAtLeast low = true) ∧
    (∀ config : Config,
      (r.hasAtLeast config.failThreshold = true ↔
        ∃ n ∈ config.failThreshold.shownIn r.summary.toList, n ≠ 0) ∧
      (r.sorted.hasAtLeast config.failThreshold = true ↔
        ∃ n ∈ config.failThreshold.shownIn r.sorted.summary.toList, n ≠ 0) ∧
      r.sorted.hasAtLeast config.failThreshold = r.hasAtLeast config.failThreshold ∧
      r.sorted.summary = r.summary) ∧
    ∀ (world : World) (o : CheckOptions) (named : Option String) (config : Config),
      world.loadConfig ⟨o.path⟩ named = .ok config → (world.check o named).failure = none →
      ∃ (root : Path) (report : Report),
        (world.check o named).output = world.render root report o.format ∧
        (world.check o named).status =
          (if ∃ n ∈ config.failThreshold.shownIn report.summary.toList, n ≠ 0 then 1 else 0) ∧
        (o.format = .text ∨ o.format = .pretty →
          ∃ line, (Text.lines (world.check o named).output.toList).getLast? = some line ∧
            Terminal.plain line = report.summary.toList) := by
  simp only [counts, Prod.mk.injEq] at hcounts
  obtain ⟨rfl, rfl, rfl⟩ := hcounts
  have hlength := r.count_add_count_add_count
  have herrors : r.hasErrors = true ↔ 0 < r.count .error := by
    rw [hasErrors, hasAtLeast_iff_shownIn, shownIn_summary]
    simp [Severity.atLeast, Severity.rank, Nat.pos_iff_ne_zero]
  have hwarnings : r.hasAtLeast .warning = true ↔ 0 < r.count .error + r.count .warning := by
    rw [hasAtLeast_iff_shownIn, shownIn_summary]
    simp [Severity.atLeast, Severity.rank]
    omega
  have hany : r.hasAtLeast .info = true ↔ r.findings ≠ [] := by
    have hlowest : ∀ severity : Severity, severity.atLeast .info = true :=
      fun s => by cases s <;> rfl
    rw [hasAtLeast_iff]
    constructor
    · rintro ⟨f, hf, -⟩
      exact List.ne_nil_of_mem hf
    · intro hne
      obtain ⟨f, hf⟩ := List.exists_mem_of_ne_nil _ hne
      exact ⟨f, hf, hlowest f.severity⟩
  refine ⟨hlength, .rfl, herrors, hwarnings, hany, ?_, ?_, ?_, ?_⟩
  · intro more threshold hsubset hserious
    obtain ⟨f, hf, hfound⟩ := hasAtLeast_iff.1 hserious
    exact hasAtLeast_iff.2 ⟨f, hsubset hf, hfound⟩
  · intro low high hlow hserious
    obtain ⟨f, hf, hfound⟩ := hasAtLeast_iff.1 hserious
    exact hasAtLeast_iff.2 ⟨f, hf, Severity.atLeast_trans hfound hlow⟩
  · exact fun config => ⟨r.hasAtLeast_iff_shownIn _, r.sorted.hasAtLeast_iff_shownIn _,
      r.hasAtLeast_sorted _, r.summary_sorted⟩
  · intro world o named config hconfig hdone
    obtain ⟨config', root, report, warnings, hconfig', hcheck⟩ :=
      World.exists_report_of_check hdone
    obtain rfl : config = config' := Except.ok.inj (hconfig.symm.trans hconfig')
    rw [hcheck]
    refine ⟨root, report, rfl, ?_, world.exists_last_line root report⟩
    simp only [← hasAtLeast_iff_shownIn]
    rfl

/-- A report with a warning and an error, and a check of a file that defines a named module. The
check fails, and the last line of its output shows why. -/
theorem hasAtLeast_iff_summary_failing :
    let finding (severity : Severity) : Finding :=
      ⟨"AMD002", "no-named-define", severity, ⟨⟨"a.js"⟩, 1, 1, 0, 0⟩, "", none, [], false⟩
    let r : Report := ⟨[finding .warning, finding .error], 1⟩
    let source := "define('x', \x7b\x7d);".toList.map (·.toNat.toUInt8)
    let world : World :=
      ⟨[], [], ⟨"/p"⟩, .directory [("p", .directory [("a.js", .file source)])],
        fun _ _ d => d.message⟩
    r.counts = (1, 1, 0) ∧ r.hasAtLeast .warning = true ∧
      world.loadConfig ⟨"."⟩ none = .ok {} ∧ (world.check {} none).failure = none ∧
      (world.check {} none).status = 1 ∧
      ∃ line, (Text.lines (world.check {} none).output.toList).getLast? = some line ∧
        ∃ n ∈ Severity.error.shownIn (Terminal.plain line), n ≠ 0 := by
  intro finding r source world
  have hcounts : r.counts = (1, 1, 0) := by decide
  have hconfig : world.loadConfig ⟨"."⟩ none = .ok {} := by
    have hnone : world.configFile? ⟨"."⟩ none = none := by decide +kernel
    rw [World.loadConfig, hnone]
  have hdone : (world.check {} none).failure = none := by decide +kernel
  have hstatus : (world.check {} none).status = 1 := by decide +kernel
  obtain ⟨-, -, -, hwarnings, -, -, -, -, hcheck⟩ := r.hasAtLeast_iff_summary hcounts
  obtain ⟨root, report, -, hreport, hlast⟩ := hcheck world {} none {} hconfig hdone
  obtain ⟨line, hline, hplain⟩ := hlast (.inl rfl)
  refine ⟨hcounts, hwarnings.2 (by decide), hconfig, hdone, hstatus, line, hline, ?_⟩
  rw [hplain]
  by_contra hzero
  rw [show ({} : Config).failThreshold = .error from rfl, if_neg hzero, hstatus] at hreport
  cases hreport

end Report

end LoaderLint
