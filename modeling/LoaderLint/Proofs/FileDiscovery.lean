import LoaderLint.Proofs.SortedReports
import LoaderLint.Proofs.WholeRun

/-!
# Which files are linted

A run asks for files with patterns from two sources, its own and those of the configuration. The
files that are linted are the regular ones with a listed extension that no pattern leaves out and,
if there are patterns to take files in, that one of them takes in. They come in the order of their
paths.

The module introduces:

* `Glob.IsPattern`, `Glob.Fits` — texts that are patterns, and the paths that fit them;
* `Glob.FirstFault` — the first text of a list that is no pattern;
* `Setup.base` — the directory that is searched;
* `Setup.LeavesOut`, `Setup.TakesIn` — the patterns that count in a run;
* `Setup.Wants` — the files that a run asks for;
* `Setup.SamePatterns` — two runs with the same patterns, wherever they come from.

`Setup.build_eq_ok_iff` and `Setup.build_eq_error_iff` say what an analyzer is made of and why
there is none. The main result is `Setup.discovers_exactly`.
-/

namespace LoaderLint

/-! ## Values and errors -/

section

variable {ε α β : Type} {f : α → Except ε β} {a : α} {as : List α} {bs : List β} {e : ε}

/-- A result with a value is that value. -/
theorem eq_ok_of_toOption {x : Except ε α} (h : x.toOption = some a) : x = .ok a := by
  cases x with
  | error e => cases h
  | ok b => rw [Option.some.inj h]

/-- A list with one more item is gone through to its end if the item and the others give values. -/
theorem mapM_cons_eq_ok_iff :
    (a :: as).mapM f = .ok bs ↔
      ∃ b rest, f a = .ok b ∧ as.mapM f = .ok rest ∧ bs = b :: rest := by
  rw [List.mapM_cons]
  cases f a with
  | error e => exact ⟨nofun, nofun⟩
  | ok b =>
    cases as.mapM f with
    | error e => exact ⟨nofun, nofun⟩
    | ok rest =>
      constructor
      · intro h
        cases h
        exact ⟨b, rest, rfl, rfl, rfl⟩
      · rintro ⟨b', rest', ⟨⟩, ⟨⟩, rfl⟩
        rfl

/-- A list with one more item gives the error of the item, or that of the others if the item gives
a value. -/
theorem mapM_cons_eq_error_iff :
    (a :: as).mapM f = .error e ↔
      f a = .error e ∨ (∃ b, f a = .ok b) ∧ as.mapM f = .error e := by
  rw [List.mapM_cons]
  cases f a with
  | error e' => simp [bind, Except.bind]
  | ok b =>
    cases as.mapM f with
    | error e' => simp [bind, Except.bind]
    | ok rest => simp [bind, Except.bind, pure, Except.pure]

/-- A list is gone through to its end if each item gives a value. -/
theorem exists_mapM_eq_ok_iff :
    (∃ bs, as.mapM f = .ok bs) ↔ ∀ a ∈ as, ∃ b, f a = .ok b := by
  induction as with
  | nil => simp [pure, Except.pure]
  | cons a as ih =>
    rw [List.forall_mem_cons, ← ih]
    simp only [mapM_cons_eq_ok_iff]
    constructor
    · rintro ⟨bs, b, rest, hb, hrest, rfl⟩
      exact ⟨⟨b, hb⟩, rest, hrest⟩
    · rintro ⟨⟨b, hb⟩, rest, hrest⟩
      exact ⟨b :: rest, b, rest, hb, hrest, rfl⟩

/-- Going through a list ends at the first item that gives an error. -/
theorem mapM_eq_error_iff :
    as.mapM f = .error e ↔ ∃ before a behind, as = before ++ a :: behind ∧
      (∀ b ∈ before, ∃ c, f b = .ok c) ∧ f a = .error e := by
  induction as with
  | nil => simp [pure, Except.pure]
  | cons a as ih =>
    rw [mapM_cons_eq_error_iff, ih]
    constructor
    · rintro (he | ⟨hok, before, a', behind, rfl, hbefore, he⟩)
      · exact ⟨[], a, as, rfl, nofun, he⟩
      · exact ⟨a :: before, a', behind, rfl, List.forall_mem_cons.2 ⟨hok, hbefore⟩, he⟩
    · rintro ⟨before, a', behind, hsplit, hbefore, he⟩
      -- the error is at the first item or behind it
      cases before with
      | nil =>
        cases hsplit
        exact .inl he
      | cons b before =>
        cases hsplit
        obtain ⟨hok, hbefore⟩ := List.forall_mem_cons.1 hbefore
        exact .inr ⟨hok, before, a', behind, rfl, hbefore, he⟩

/-- The values of a list that is gone through to its end are those of its items. -/
theorem mem_iff_of_mapM_eq_ok (h : as.mapM f = .ok bs) {b : β} :
    b ∈ bs ↔ ∃ a ∈ as, f a = .ok b := by
  induction as generalizing bs with
  | nil =>
    cases h
    simp
  | cons a as ih =>
    obtain ⟨b', rest, hb', hrest, rfl⟩ := mapM_cons_eq_ok_iff.1 h
    rw [List.mem_cons, ih hrest, eq_comm]
    simp only [List.mem_cons, exists_eq_or_imp, hb', Except.ok.injEq]

/-- No values come of a list exactly if it is empty. -/
theorem isEmpty_of_mapM_eq_ok (h : as.mapM f = .ok bs) : bs.isEmpty = as.isEmpty := by
  cases as with
  | nil =>
    cases h
    rfl
  | cons a as =>
    obtain ⟨b, rest, -, -, rfl⟩ := mapM_cons_eq_ok_iff.1 h
    rfl

end

/-! ## Patterns -/

namespace Glob

/-- The text is a pattern. -/
def IsPattern (text : String) : Prop := ∃ g, parse text = .ok g

/-- The text is a pattern that the path fits. -/
def Fits (text : String) (path : Path) : Prop :=
  ∃ g, parse text = .ok g ∧ g.accepts path.spelling = true

/-- The first of the texts that is no pattern has the fault. -/
def FirstFault (texts : List String) (fault : Fault) : Prop :=
  ∃ before text behind, texts = before ++ text :: behind ∧ (∀ t ∈ before, IsPattern t) ∧
    parse text = .error fault

variable {texts : List String} {globs : List Glob} {fault : Fault}

/-- Patterns can be read from all texts exactly if all of them are patterns. -/
theorem exists_mapM_parse_eq_ok_iff :
    (∃ globs, texts.mapM parse = .ok globs) ↔ ∀ t ∈ texts, IsPattern t :=
  exists_mapM_eq_ok_iff

/-- Texts that cannot all be read fail with the first fault among them. -/
theorem mapM_parse_eq_error_iff : texts.mapM parse = .error fault ↔ FirstFault texts fault :=
  mapM_eq_error_iff

/-- A path fits one of the patterns that are read from texts exactly if it fits one of the
texts. -/
theorem any_accepts_iff (h : texts.mapM parse = .ok globs) {path : Path} :
    globs.any (·.accepts path.spelling) = true ↔ ∃ text ∈ texts, Fits text path := by
  simp only [List.any_eq_true, mem_iff_of_mapM_eq_ok h]
  constructor
  · rintro ⟨g, ⟨text, htext, hparse⟩, haccepts⟩
    exact ⟨text, htext, g, hparse, haccepts⟩
  · rintro ⟨text, htext, g, hparse, haccepts⟩
    exact ⟨g, ⟨text, htext, hparse⟩, haccepts⟩

/-- There is a first fault exactly if one of the texts is no pattern. -/
theorem exists_firstFault_iff :
    (∃ fault, FirstFault texts fault) ↔ ∃ text ∈ texts, ¬IsPattern text := by
  have hall : (∃ globs, texts.mapM parse = .ok globs) ↔ ∀ t ∈ texts, IsPattern t :=
    exists_mapM_parse_eq_ok_iff
  simp only [← mapM_parse_eq_error_iff]
  cases hmap : texts.mapM parse with
  | error fault =>
    rw [hmap] at hall
    -- reading the texts fails, so not all of them are patterns
    have hsome : ¬∀ t ∈ texts, IsPattern t := fun h => nomatch hall.2 h
    simpa using hsome
  | ok globs => simpa using hall.1 ⟨globs, hmap⟩

/-- The first fault is among the texts in front, or these are patterns and it is behind them. -/
theorem firstFault_append_iff {others : List String} :
    FirstFault (texts ++ others) fault ↔
      FirstFault texts fault ∨ (∀ t ∈ texts, IsPattern t) ∧ FirstFault others fault := by
  induction texts with
  | nil =>
    have hnone : ¬FirstFault [] fault := by
      rintro ⟨before, text, behind, hsplit, -⟩
      cases before <;> cases hsplit
    simp [hnone]
  | cons text texts ih =>
    -- the first text has the fault, or both sides ask about the texts behind it
    simp only [← mapM_parse_eq_error_iff, List.cons_append, mapM_cons_eq_error_iff,
      List.forall_mem_cons] at ih ⊢
    rw [ih]
    tauto

end Glob

/-! ## What an analyzer is made of -/

namespace Setup

/-- The directory that is searched: the one that the run asks for, or else the configured one, as
seen from the working directory. -/
def base (s : Setup) (workingDirectory : Path) : Path :=
  let root := s.root.getD s.config.analyzer.root
  if root.isAbsolute then root else workingDirectory.join root

/-- The pattern leaves files out: it is one of the run or of the configuration, or, if neither has
any, one of the two patterns for that case. -/
def LeavesOut (s : Setup) (text : String) : Prop :=
  text ∈ s.excluded ∨ text ∈ s.config.analyzer.excluded ∨
    s.excluded = [] ∧ s.config.analyzer.excluded = [] ∧
      (text = "**/node_modules/**" ∨ text = "**/dist/**")

/-- The pattern takes files in: it is one of the run or of the configuration. -/
def TakesIn (s : Setup) (text : String) : Prop :=
  text ∈ s.included ∨ text ∈ s.config.analyzer.included

variable {s : Setup} {workingDirectory : Path} {a : Analyzer} {fault : Glob.Fault}

/-- The patterns that are read to leave files out are those that count in the run. -/
theorem mem_effectiveExcluded_iff {text : String} :
    text ∈ s.effectiveExcluded ↔ s.LeavesOut text := by
  unfold effectiveExcluded LeavesOut
  -- the two patterns for the case that none are given count only if both lists are empty
  cases hown : s.excluded with
  | cons first rest => simp [or_assoc]
  | nil =>
    cases hconfigured : s.config.analyzer.excluded with
    | cons first rest => simp
    | nil => simp [defaultExcluded]

/-- The patterns that are read to take files in are those that count in the run. -/
theorem mem_effectiveIncluded_iff {text : String} :
    text ∈ s.effectiveIncluded ↔ s.TakesIn text :=
  List.mem_append

/-- An analyzer is made of the patterns that are read from both lists, and of the settings of the
run. -/
theorem build_eq_ok_iff :
    s.build workingDirectory = .ok a ↔ ∃ excluded included,
      s.effectiveExcluded.mapM Glob.parse = .ok excluded ∧
      s.effectiveIncluded.mapM Glob.parse = .ok included ∧
      a = ⟨s.base workingDirectory, s.rules, s.effectiveExcluded, excluded, included, s.config,
        s.strict⟩ := by
  unfold build
  cases s.effectiveExcluded.mapM Glob.parse with
  | error fault => exact ⟨nofun, nofun⟩
  | ok excluded =>
    cases s.effectiveIncluded.mapM Glob.parse with
    | error fault => exact ⟨nofun, nofun⟩
    | ok included =>
      constructor
      · intro h
        exact ⟨excluded, included, rfl, rfl, (Except.ok.inj h).symm⟩
      · rintro ⟨excluded', included', ⟨⟩, ⟨⟩, rfl⟩
        rfl

/-- There is no analyzer if there is a first fault in the patterns that count. -/
theorem build_eq_error_iff_firstFault :
    s.build workingDirectory = .error fault ↔
      Glob.FirstFault (s.effectiveExcluded ++ s.effectiveIncluded) fault := by
  rw [Glob.firstFault_append_iff, ← Glob.mapM_parse_eq_error_iff,
    ← Glob.exists_mapM_parse_eq_ok_iff, ← Glob.mapM_parse_eq_error_iff, build]
  -- the second list is read only if the first one can be
  cases s.effectiveExcluded.mapM Glob.parse with
  | error fault' => simp [bind, Except.bind]
  | ok excluded =>
    cases s.effectiveIncluded.mapM Glob.parse with
    | error fault' => simp [bind, Except.bind]
    | ok included => simp [bind, Except.bind, pure, Except.pure]

/-- The patterns for the case that none are given can be read. -/
theorem isPattern_of_mem_defaultExcluded : ∀ t ∈ defaultExcluded, Glob.IsPattern t :=
  Glob.exists_mapM_parse_eq_ok_iff.1 ⟨_, rfl⟩

/-- Where patterns are given they count alone, and the others are no reason to fail. -/
theorem firstFault_effectiveExcluded_append_iff {others : List String} :
    Glob.FirstFault (s.effectiveExcluded ++ others) fault ↔
      Glob.FirstFault (s.excluded ++ s.config.analyzer.excluded ++ others) fault := by
  unfold effectiveExcluded
  dsimp only
  split
  · rename_i hnone
    have hdefault : ¬Glob.FirstFault defaultExcluded fault := by
      intro h
      obtain ⟨text, htext, hno⟩ := Glob.exists_firstFault_iff.1 ⟨fault, h⟩
      exact hno (isPattern_of_mem_defaultExcluded text htext)
    rw [List.isEmpty_iff.1 hnone, List.nil_append, Glob.firstFault_append_iff]
    exact ⟨fun h => (h.resolve_left hdefault).2,
      fun h => .inr ⟨isPattern_of_mem_defaultExcluded, h⟩⟩
  · rfl

/-- There is no analyzer exactly if a given pattern cannot be read, and the first one of them tells
why: those that leave files out come first, and those of the run come before those of the
configuration. -/
theorem build_eq_error_iff :
    s.build workingDirectory = .error fault ↔
      Glob.FirstFault (s.excluded ++ s.config.analyzer.excluded ++
        (s.included ++ s.config.analyzer.included)) fault := by
  rw [build_eq_error_iff_firstFault, firstFault_effectiveExcluded_append_iff, effectiveIncluded]

/-- There is no analyzer exactly if one of the patterns that count cannot be read. -/
theorem exists_build_eq_error_iff :
    (∃ fault, s.build workingDirectory = .error fault) ↔
      ∃ text, (s.LeavesOut text ∨ s.TakesIn text) ∧ ¬Glob.IsPattern text := by
  simp only [build_eq_error_iff_firstFault, Glob.exists_firstFault_iff, List.mem_append,
    mem_effectiveExcluded_iff, mem_effectiveIncluded_iff]

/-- There is an analyzer exactly if all given patterns can be read. -/
theorem exists_build_eq_ok_iff :
    (∃ a, s.build workingDirectory = .ok a) ↔
      ∀ text, (text ∈ s.excluded ∨ text ∈ s.config.analyzer.excluded) ∨ s.TakesIn text →
        Glob.IsPattern text := by
  -- the patterns for the case that none are given can be read, so they need not be asked about
  have hfails : (∃ fault, s.build workingDirectory = .error fault) ↔
      ∃ text, ((text ∈ s.excluded ∨ text ∈ s.config.analyzer.excluded) ∨ s.TakesIn text) ∧
        ¬Glob.IsPattern text := by
    simp only [build_eq_error_iff, Glob.exists_firstFault_iff, List.mem_append, TakesIn]
  cases hbuild : s.build workingDirectory with
  | ok a => simpa [hbuild] using hfails
  | error fault => simpa [hbuild] using hfails

/-! ## The files that a run asks for -/

/-- The run asks for the file at the path, where it searches the directory `root`. -/
structure Wants (s : Setup) (root path : Path) : Prop where
  /-- The extension is listed. -/
  extension : ∃ e ∈ s.config.analyzer.extensions, path.extension? = some e
  /-- The path below the directory fits no pattern that leaves files out. -/
  notLeftOut : ∀ text, s.LeavesOut text → ¬Glob.Fits text (path.relativeTo root)
  /-- If there are patterns that take files in, the path below the directory fits one of them. -/
  takenIn : (∃ text, s.TakesIn text) →
    ∃ text, s.TakesIn text ∧ Glob.Fits text (path.relativeTo root)

/-- The analyzer searches the directory of the run. -/
theorem root_of_build (h : s.build workingDirectory = .ok a) :
    a.root = s.base workingDirectory := by
  obtain ⟨excluded, included, -, -, rfl⟩ := build_eq_ok_iff.1 h
  rfl

/-- The analyzer excludes a path exactly if a pattern of the run leaves it out. -/
theorem isExcluded_iff (h : s.build workingDirectory = .ok a) {path : Path} :
    a.isExcluded path = true ↔
      ∃ text, s.LeavesOut text ∧ Glob.Fits text (path.relativeTo a.root) := by
  obtain ⟨excluded, included, hexcluded, -, rfl⟩ := build_eq_ok_iff.1 h
  simp only [Analyzer.isExcluded, Glob.any_accepts_iff hexcluded, mem_effectiveExcluded_iff]

/-- The analyzer includes a path exactly if the patterns of the run take it in, or if there are
none. -/
theorem isIncluded_iff (h : s.build workingDirectory = .ok a) {path : Path} :
    a.isIncluded path = true ↔ ((∃ text, s.TakesIn text) →
      ∃ text, s.TakesIn text ∧ Glob.Fits text (path.relativeTo a.root)) := by
  obtain ⟨excluded, included, -, hincluded, rfl⟩ := build_eq_ok_iff.1 h
  have hempty : included.isEmpty = true ↔ ¬∃ text, s.TakesIn text := by
    rw [isEmpty_of_mapM_eq_ok hincluded, List.isEmpty_iff, List.eq_nil_iff_forall_not_mem]
    simp only [mem_effectiveIncluded_iff, not_exists]
  simp only [Analyzer.isIncluded, Bool.or_eq_true, Glob.any_accepts_iff hincluded, hempty,
    mem_effectiveIncluded_iff, imp_iff_not_or]

/-- The analyzer wants the files that the run asks for. -/
theorem wants_iff (h : s.build workingDirectory = .ok a) {path : Path} :
    a.wants path = true ↔ s.Wants a.root path := by
  have hconfig : a.config = s.config := by
    obtain ⟨excluded, included, -, -, rfl⟩ := build_eq_ok_iff.1 h
    rfl
  -- the three tests of the analyzer are the three conditions of the run
  have hextension : a.hasListedExtension path = true ↔
      ∃ e ∈ s.config.analyzer.extensions, path.extension? = some e := by
    rw [Analyzer.hasListedExtension, hconfig, Option.any_eq_true]
    simp only [List.contains_iff_mem, and_comm]
  have hexcluded : (!a.isExcluded path) = true ↔
      ∀ text, s.LeavesOut text → ¬Glob.Fits text (path.relativeTo a.root) := by
    rw [Bool.not_eq_true', ← Bool.not_eq_true, isExcluded_iff h]
    simp only [not_exists, not_and]
  rw [Analyzer.wants, Bool.and_eq_true, Bool.and_eq_true, hextension, hexcluded, isIncluded_iff h]
  constructor
  · rintro ⟨⟨hlisted, hout⟩, hin⟩
    exact ⟨hlisted, hout, hin⟩
  · rintro ⟨hlisted, hout, hin⟩
    exact ⟨⟨hlisted, hout⟩, hin⟩

/-! ## Discovered files -/

/-- Two runs have the same patterns, in whatever order and however often, and whether they are
their own or those of the configuration. They search the same directory for files with the same
extensions. -/
structure SamePatterns (s s' : Setup) : Prop where
  /-- The directory is the same. -/
  root : s'.root.getD s'.config.analyzer.root = s.root.getD s.config.analyzer.root
  /-- The extensions are the same. -/
  extensions : s'.config.analyzer.extensions = s.config.analyzer.extensions
  /-- The given patterns that leave files out are the same. -/
  excluded : ∀ text, text ∈ s'.excluded ∨ text ∈ s'.config.analyzer.excluded ↔
    text ∈ s.excluded ∨ text ∈ s.config.analyzer.excluded
  /-- The patterns that take files in are the same. -/
  included : ∀ text, text ∈ s'.included ∨ text ∈ s'.config.analyzer.included ↔
    text ∈ s.included ∨ text ∈ s.config.analyzer.included

namespace SamePatterns

variable {s' : Setup}

/-- Runs with the same patterns search the same directory. -/
theorem base_eq (h : s.SamePatterns s') (workingDirectory : Path) :
    s'.base workingDirectory = s.base workingDirectory := by
  rw [base, h.root, base]

/-- Runs with the same patterns leave out the same files. -/
theorem leavesOut_iff (h : s.SamePatterns s') (text : String) :
    s'.LeavesOut text ↔ s.LeavesOut text := by
  -- whether any patterns are given is a question about the same patterns
  have hnone : ∀ t : Setup, t.excluded = [] ∧ t.config.analyzer.excluded = [] ↔
      ∀ text, ¬(text ∈ t.excluded ∨ text ∈ t.config.analyzer.excluded) := by
    intro t
    simp only [List.eq_nil_iff_forall_not_mem, not_or, forall_and]
  simp only [LeavesOut, ← or_assoc, ← and_assoc, hnone, h.excluded]

/-- Runs with the same patterns ask for the same files. -/
theorem wants_iff (h : s.SamePatterns s') {root path : Path} :
    s'.Wants root path ↔ s.Wants root path := by
  have htakesIn : ∀ text, s'.TakesIn text ↔ s.TakesIn text := h.included
  constructor
  · rintro ⟨hextension, hout, hin⟩
    simp only [h.extensions, h.leavesOut_iff, htakesIn] at hextension hout hin
    exact ⟨hextension, hout, hin⟩
  · rintro ⟨hextension, hout, hin⟩
    simp only [← h.extensions, ← h.leavesOut_iff, ← htakesIn] at hextension hout hin
    exact ⟨hextension, hout, hin⟩

/-- If the patterns of one run can be read, so can those of the other one. -/
theorem exists_build_eq_ok (h : s.SamePatterns s')
    (hbuild : s.build workingDirectory = .ok a) : ∃ a', s'.build workingDirectory = .ok a' := by
  have hpatterns := exists_build_eq_ok_iff.1 ⟨a, hbuild⟩
  refine exists_build_eq_ok_iff.2 fun text htext => hpatterns text ?_
  rwa [h.excluded, TakesIn, h.included] at htext

end SamePatterns

end Setup

namespace Analyzer

variable {a : Analyzer} {entries : List Entry}

/-- The discovered files are the regular ones that the analyzer wants. -/
theorem mem_discover_iff {f : SourceFile} :
    f ∈ a.discover entries ↔ ⟨f.path, some f.bytes⟩ ∈ entries ∧ a.wants f.path = true := by
  have hfile : f ∈ entries.filterMap Entry.file? ↔ ⟨f.path, some f.bytes⟩ ∈ entries := by
    rw [List.mem_filterMap]
    constructor
    · rintro ⟨⟨path, content⟩, hentry, hf⟩
      obtain ⟨bytes, rfl, rfl⟩ := Option.map_eq_some_iff.1 hf
      exact hentry
    · exact fun hentry => ⟨_, hentry, rfl⟩
  rw [discover, List.mem_mergeSort, List.mem_filter, hfile]

/-- Analyzers that want the same files discover the same files. -/
theorem discover_congr {a' : Analyzer} (h : ∀ path, a'.wants path = a.wants path) :
    a'.discover entries = a.discover entries := by
  simp only [discover, h]

end Analyzer

namespace Setup

/-- Runs with the same patterns discover the same files. -/
theorem discover_of_samePatterns {s s' : Setup} (h : s.SamePatterns s') {workingDirectory : Path}
    {a a' : Analyzer} (ha : s.build workingDirectory = .ok a)
    (ha' : s'.build workingDirectory = .ok a') (entries : List Entry) :
    a'.discover entries = a.discover entries := by
  refine Analyzer.discover_congr fun path => ?_
  rw [Bool.eq_iff_iff, wants_iff ha', wants_iff ha, root_of_build ha', root_of_build ha,
    h.base_eq, h.wants_iff]

/-- The files that a run lints. There is no analyzer exactly if one of the patterns that count
cannot be read, and then the first given one of them tells why, where patterns that leave files out
come before those that take files in. Otherwise, among entries with different paths, the discovered
files are the regular ones that the run asks for, each once and in strictly increasing order of
their paths, component by component. A run with the same patterns discovers the same files. -/
theorem discovers_exactly (s : Setup) (workingDirectory : Path) :
    (∀ fault, s.build workingDirectory = .error fault ↔
      Glob.FirstFault (s.excluded ++ s.config.analyzer.excluded ++
        (s.included ++ s.config.analyzer.included)) fault) ∧
    ((∃ fault, s.build workingDirectory = .error fault) ↔
      ∃ text, (s.LeavesOut text ∨ s.TakesIn text) ∧ ¬Glob.IsPattern text) ∧
    ∀ a, s.build workingDirectory = .ok a →
      (∀ entries : List Entry, ((entries.filterMap Entry.file?).map (·.path.components)).Nodup →
        (a.discover entries).Pairwise (fun f g =>
          List.Lex Path.Component.Before f.path.components g.path.components) ∧
        ((a.discover entries).map (·.path.components)).Nodup ∧
        ∀ f, f ∈ a.discover entries ↔
          ⟨f.path, some f.bytes⟩ ∈ entries ∧ s.Wants (s.base workingDirectory) f.path) ∧
      ∀ s', s.SamePatterns s' → ∃ a', s'.build workingDirectory = .ok a' ∧
        ∀ entries, a'.discover entries = a.discover entries := by
  refine ⟨fun fault => build_eq_error_iff, exists_build_eq_error_iff, fun a ha => ⟨?_, ?_⟩⟩
  · intro entries hpaths
    have hwanted := a.nodup_paths_wanted hpaths
    refine ⟨?_, ((a.discover_perm entries).map _).nodup_iff.2 hwanted, fun f => ?_⟩
    · exact (SourceFile.pairwise_lt_mergeSort hwanted).imp Path.compare_eq_lt_iff.1
    · rw [Analyzer.mem_discover_iff, wants_iff ha, root_of_build ha]
  · intro s' hsame
    obtain ⟨a', ha'⟩ := hsame.exists_build_eq_ok ha
    exact ⟨a', ha', discover_of_samePatterns hsame ha ha'⟩

/-- Files of all kinds, and a run whose patterns leave some out and take others in. With the
patterns moved to the configuration or away from it, in another order and repeated, the run
discovers the same files. A run with two patterns that cannot be read fails because of the one that
leaves files out. -/
theorem discovers_exactly_moved :
    let file (path : String) : Entry := ⟨⟨path⟩, some []⟩
    let entries := [file "/w/./app/z.js", ⟨⟨"/w/./app"⟩, none⟩, file "/w/./app/a.js",
      file "/w/./app/gen/b.js", file "/w/./lib/c.js", file "/w/./app/d.txt"]
    let s : Setup := {
      excluded := ["**/gen/**", "*.min.js"]
      config := { analyzer := { included := ["app/**"] } } }
    let s' : Setup := {
      included := ["app/**", "app/**"]
      config := { analyzer := { excluded := ["*.min.js", "**/gen/**"] } } }
    ((entries.filterMap Entry.file?).map (·.path.components)).Nodup ∧ s.SamePatterns s' ∧
      s.base ⟨"/w"⟩ = ⟨"/w/."⟩ ∧
      (∃ a a', s.build ⟨"/w"⟩ = .ok a ∧ s'.build ⟨"/w"⟩ = .ok a' ∧
        a'.discover entries = a.discover entries ∧
        (∀ f, f ∈ a.discover entries ↔
          ⟨f.path, some f.bytes⟩ ∈ entries ∧ s.Wants (s.base ⟨"/w"⟩) f.path) ∧
        a.discover entries = [⟨⟨"/w/./app/a.js"⟩, []⟩, ⟨⟨"/w/./app/z.js"⟩, []⟩]) ∧
      { s with excluded := ["*", "a**"], included := ["["] }.build ⟨"/w"⟩ =
        .error ⟨0, .recursive⟩ := by
  intro file entries s s'
  have hpaths : ((entries.filterMap Entry.file?).map (·.path.components)).Nodup := by
    decide +kernel
  have hsame : s.SamePatterns s' := by
    refine ⟨rfl, rfl, fun text => ?_, fun text => ?_⟩
    · simp [s, s', or_comm]
    · simp [s, s']
  let first : SourceFile := ⟨⟨"/w/./app/a.js"⟩, []⟩
  let second : SourceFile := ⟨⟨"/w/./app/z.js"⟩, []⟩
  have hwanted : (s.build ⟨"/w"⟩).toOption.map (·.wanted entries) = some [second, first] := by
    decide +kernel
  -- sorting is by well-founded recursion, so the order is shown and not evaluated
  have hordered : [first, second] = [second, first].mergeSort SourceFile.precedes :=
    SourceFile.eq_mergeSort_of_perm (by decide) (by decide) (by decide)
  refine ⟨hpaths, hsame, by decide, ?_, ?_⟩
  · obtain ⟨a, hbuild, hlist⟩ := Option.map_eq_some_iff.1 hwanted
    have ha : s.build ⟨"/w"⟩ = .ok a := eq_ok_of_toOption hbuild
    obtain ⟨hexact, hmoved⟩ := (s.discovers_exactly ⟨"/w"⟩).2.2 a ha
    obtain ⟨a', ha', hdiscover⟩ := hmoved s' hsame
    refine ⟨a, a', ha, ha', hdiscover entries, (hexact entries hpaths).2.2, ?_⟩
    rw [Analyzer.discover_eq_mergeSort, hlist, ← hordered]
  · -- the pattern with two stars in a row comes before the one with an open bracket
    have hfault := (discovers_exactly { s with excluded := ["*", "a**"], included := ["["] }
      ⟨"/w"⟩).1 ⟨0, .recursive⟩
    refine hfault.2 ⟨["*"], "a**", ["[", "app/**"], rfl, ?_, rfl⟩
    exact List.forall_mem_singleton.2 ⟨_, rfl⟩

end Setup

end LoaderLint
