import LoaderLint.Config.Selection
import Mathlib.Data.List.Basic

/-!
# Selections of rules

A list of names and codes selects rules. Each rule is built from the options in the section under
its name; entries of the list that belong to no rule are passed over. The first rule whose options
do not fit is the error, and no section of another rule is looked at.

The module introduces:

* `RuleId.IsListedAs` — the entries that belong to a rule;
* `Config.optionsOf`, `RuleId.Decodes` — the options of a rule, and that they fit;
* `Selected` — the rules that a list selects, one entry after the other;
* `FirstMalformed` — the first entry of a list whose rule has options that do not fit.

The main result is `selectNamed_exact`.
-/

namespace LoaderLint

/-- The entry of a list belongs to the rule: it is its name or its code. -/
def RuleId.IsListedAs (id : RuleId) (entry : String) : Prop := entry = id.name ∨ entry = id.code

/-- The options in the section under the name of a rule; none if there is no section. -/
def Config.optionsOf (c : Config) (id : RuleId) : Toml.Table :=
  ((c.section? id.name).map RuleSection.options).getD []

/-- The options of the rule fit. -/
def RuleId.Decodes (id : RuleId) (c : Config) : Prop :=
  ∃ policy, id.decodeOptions (c.optionsOf id) = .ok policy

/-- The entries select the rules, in their order and with the policies that the sections give. -/
inductive Selected (c : Config) : List String → List Rule → Prop
  | nil : Selected c [] []
  /-- An entry that belongs to a rule. -/
  | rule {entry : String} {id : RuleId} {policy : SurplusPolicy} {rest : List String}
      {rules : List Rule} :
      id.IsListedAs entry → id.decodeOptions (c.optionsOf id) = .ok policy →
      Selected c rest rules → Selected c (entry :: rest) (⟨id, .error, policy⟩ :: rules)
  /-- An entry that belongs to no rule. -/
  | unknown {entry : String} {rest : List String} {rules : List Rule} :
      (∀ id : RuleId, ¬id.IsListedAs entry) → Selected c rest rules →
      Selected c (entry :: rest) rules

/-- The first entry that belongs to a rule with options that do not fit, with what is wrong
there. -/
def FirstMalformed (c : Config) (names : List String) (id : RuleId) (cause : OptionError) : Prop :=
  ∃ before entry behind, names = before ++ entry :: behind ∧
    (∀ earlier ∈ before, ∀ id' : RuleId, id'.IsListedAs earlier → id'.Decodes c) ∧
    id.IsListedAs entry ∧ id.decodeOptions (c.optionsOf id) = .error cause

section

variable {id : RuleId} {c c' : Config} {entry : String} {names : List String}

/-! ## One entry -/

/-- A rule is found by its code. -/
theorem RuleId.ofName?_code (id : RuleId) : ofName? id.code = some id := by
  cases id <;> rfl

/-- No two rules have the same code. -/
theorem RuleId.code_injective : Function.Injective RuleId.code := by
  intro id id' h
  have hsame := ofName?_code id
  rw [h, ofName?_code] at hsame
  exact (Option.some.inj hsame).symm

/-- The rule that is found for an entry is the one that it belongs to. -/
theorem RuleId.ofName?_eq_some_iff : ofName? entry = some id ↔ id.IsListedAs entry := by
  constructor
  · intro h
    -- the rule is found in the list of all rules, by its name or its code
    have hfound := List.find?_some h
    rcases of_decide_eq_true hfound with hname | hcode
    · exact .inl hname.symm
    · exact .inr hcode.symm
  · rintro (rfl | rfl)
    · cases id <;> rfl
    · exact ofName?_code id

/-- No rule is found exactly for the entries that belong to none. -/
theorem RuleId.ofName?_eq_none_iff :
    ofName? entry = none ↔ ∀ id : RuleId, ¬id.IsListedAs entry := by
  simp only [← ofName?_eq_some_iff]
  exact Option.eq_none_iff_forall_ne_some

/-- No entry belongs to two rules. -/
theorem RuleId.IsListedAs.unique {id' : RuleId} (h : id.IsListedAs entry)
    (h' : id'.IsListedAs entry) : id' = id :=
  Option.some.inj ((ofName?_eq_some_iff.2 h').symm.trans (ofName?_eq_some_iff.2 h))

theorem Rule.ofConfig_eq (id : RuleId) (c : Config) :
    Rule.ofConfig id c = match id.decodeOptions (c.optionsOf id) with
      | .ok policy => .ok ⟨id, .error, policy⟩
      | .error cause => .error (.invalidOptions id.name cause) := rfl

/-- A rule is built exactly if its options fit, and it has their policy. -/
theorem Rule.ofConfig_eq_ok_iff {r : Rule} :
    Rule.ofConfig id c = .ok r ↔
      ∃ policy, id.decodeOptions (c.optionsOf id) = .ok policy ∧ r = ⟨id, .error, policy⟩ := by
  rw [ofConfig_eq]
  cases id.decodeOptions (c.optionsOf id) with
  | ok policy => simp [eq_comm]
  | error cause => simp

/-- A rule is not built exactly if its options do not fit, and the error names it. -/
theorem Rule.ofConfig_eq_error_iff {e : ConfigError} :
    Rule.ofConfig id c = .error e ↔
      ∃ cause, id.decodeOptions (c.optionsOf id) = .error cause ∧
        e = .invalidOptions id.name cause := by
  rw [ofConfig_eq]
  cases id.decodeOptions (c.optionsOf id) with
  | ok policy => simp
  | error cause => simp [eq_comm]

/-! ## Lists of entries -/

/-- An entry that belongs to no rule is passed over. -/
theorem selectNamed_cons_of_unknown (h : ∀ id : RuleId, ¬id.IsListedAs entry) :
    selectNamed (entry :: names) c = selectNamed names c := by
  rw [selectNamed, RuleId.ofName?_eq_none_iff.2 h]

/-- The rule of an entry is built before those of the entries behind it. -/
theorem selectNamed_cons_of_isListedAs (h : id.IsListedAs entry) :
    selectNamed (entry :: names) c =
      (Rule.ofConfig id c).bind fun r => (selectNamed names c).map (r :: ·) := by
  rw [selectNamed, RuleId.ofName?_eq_some_iff.2 h]
  simp only
  cases Rule.ofConfig id c with
  | error e => rfl
  | ok r => cases selectNamed names c <;> rfl

/-- A rule that cannot be built is the error of the list. -/
theorem selectNamed_cons_of_error {e : ConfigError} (h : id.IsListedAs entry)
    (he : Rule.ofConfig id c = .error e) : selectNamed (entry :: names) c = .error e := by
  rw [selectNamed_cons_of_isListedAs h, he]
  rfl

/-- A rule that is built comes before those of the entries behind it. -/
theorem selectNamed_cons_of_ok {r : Rule} (h : id.IsListedAs entry)
    (hr : Rule.ofConfig id c = .ok r) :
    selectNamed (entry :: names) c = (selectNamed names c).map (r :: ·) := by
  rw [selectNamed_cons_of_isListedAs h, hr]
  rfl

/-- What a list gives is what its entries select, one after the other. -/
theorem selectNamed_eq_ok_iff {rules : List Rule} :
    selectNamed names c = .ok rules ↔ Selected c names rules := by
  constructor
  · intro h
    -- the rule of the first entry is built before the rest of the list is looked at
    induction names generalizing rules with
    | nil =>
      cases h
      exact .nil
    | cons entry rest ih =>
      rcases exists_or_forall_not (fun id : RuleId => id.IsListedAs entry) with ⟨id, hid⟩ | hnone
      · cases hr : Rule.ofConfig id c with
        | error e =>
          rw [selectNamed_cons_of_error hid hr] at h
          cases h
        | ok r =>
          rw [selectNamed_cons_of_ok hid hr] at h
          cases hrest : selectNamed rest c with
          | error e =>
            rw [hrest] at h
            cases h
          | ok others =>
            rw [hrest] at h
            cases h
            obtain ⟨policy, hpolicy, rfl⟩ := Rule.ofConfig_eq_ok_iff.1 hr
            exact .rule hid hpolicy (ih hrest)
      · rw [selectNamed_cons_of_unknown hnone] at h
        exact .unknown hnone (ih h)
  · intro h
    induction h with
    | nil => rfl
    | rule hid hpolicy _ ih =>
      rw [selectNamed_cons_of_ok hid (Rule.ofConfig_eq_ok_iff.2 ⟨_, hpolicy, rfl⟩), ih]
      rfl
    | unknown hnone _ ih => rw [selectNamed_cons_of_unknown hnone, ih]

/-- The rules of a selection have options that fit. -/
theorem Selected.decodes {rules : List Rule} (h : Selected c names rules) :
    ∀ entry ∈ names, ∀ id : RuleId, id.IsListedAs entry → id.Decodes c := by
  induction h with
  | nil => simp
  | rule hid hpolicy _ ih =>
    rw [List.forall_mem_cons]
    refine ⟨fun id' hid' => ?_, ih⟩
    -- an entry belongs to one rule only
    rw [hid.unique hid']
    exact ⟨_, hpolicy⟩
  | unknown hnone _ ih =>
    rw [List.forall_mem_cons]
    exact ⟨fun id' hid' => absurd hid' (hnone id'), ih⟩

/-- A selection has one rule for each entry that belongs to one. -/
theorem Selected.map_id {rules : List Rule} (h : Selected c names rules) :
    rules.map Rule.id = names.filterMap RuleId.ofName? := by
  induction h with
  | nil => rfl
  | rule hid _ _ ih =>
    rw [List.map_cons, ih, List.filterMap_cons_some (RuleId.ofName?_eq_some_iff.2 hid)]
  | unknown hnone _ ih => rw [ih, List.filterMap_cons_none (RuleId.ofName?_eq_none_iff.2 hnone)]

/-- Each rule of a selection is built from the configuration. -/
theorem Selected.ofConfig_eq {rules : List Rule} (h : Selected c names rules) :
    ∀ r ∈ rules, Rule.ofConfig r.id c = .ok r := by
  induction h with
  | nil => simp
  | rule _ hpolicy _ ih =>
    exact List.forall_mem_cons.2 ⟨Rule.ofConfig_eq_ok_iff.2 ⟨_, hpolicy, rfl⟩, ih⟩
  | unknown _ _ ih => exact ih

/-- The first entry with options that do not fit is still the first one behind an entry with
options that do. -/
theorem FirstMalformed.cons {cause : OptionError} (h : FirstMalformed c names id cause)
    (hfirst : ∀ id' : RuleId, id'.IsListedAs entry → id'.Decodes c) :
    FirstMalformed c (entry :: names) id cause := by
  obtain ⟨before, found, behind, rfl, hbefore, hcause⟩ := h
  exact ⟨entry :: before, found, behind, rfl, List.forall_mem_cons.2 ⟨hfirst, hbefore⟩, hcause⟩

/-- A list that fails has a first entry with options that do not fit. -/
theorem exists_firstMalformed {e : ConfigError} (h : selectNamed names c = .error e) :
    ∃ id cause, FirstMalformed c names id cause ∧ e = .invalidOptions id.name cause := by
  induction names with
  | nil => cases h
  | cons entry rest ih =>
    rcases exists_or_forall_not (fun id : RuleId => id.IsListedAs entry) with ⟨id, hid⟩ | hnone
    · cases hr : Rule.ofConfig id c with
      | error e' =>
        -- the first entry is the one that fails
        rw [selectNamed_cons_of_error hid hr] at h
        cases h
        obtain ⟨cause, hcause, rfl⟩ := Rule.ofConfig_eq_error_iff.1 hr
        exact ⟨id, cause, ⟨[], entry, rest, rfl, by simp, hid, hcause⟩, rfl⟩
      | ok r =>
        -- a later one is, and the options of the first fit
        rw [selectNamed_cons_of_ok hid hr] at h
        obtain ⟨policy, hpolicy, -⟩ := Rule.ofConfig_eq_ok_iff.1 hr
        cases hrest : selectNamed rest c with
        | ok others =>
          rw [hrest] at h
          cases h
        | error e' =>
          rw [hrest] at h
          cases h
          obtain ⟨id', cause, hmalformed, rfl⟩ := ih hrest
          refine ⟨id', cause, hmalformed.cons fun id'' hid'' => ?_, rfl⟩
          rw [hid.unique hid'']
          exact ⟨policy, hpolicy⟩
    · rw [selectNamed_cons_of_unknown hnone] at h
      obtain ⟨id, cause, hmalformed, rfl⟩ := ih h
      exact ⟨id, cause, hmalformed.cons fun id' hid' => absurd hid' (hnone id'), rfl⟩

/-- The first entry with options that do not fit is the error of the list. -/
theorem FirstMalformed.selectNamed_eq {cause : OptionError}
    (h : FirstMalformed c names id cause) :
    selectNamed names c = .error (.invalidOptions id.name cause) := by
  obtain ⟨before, entry, behind, rfl, hbefore, hid, hcause⟩ := h
  -- the entries before it are built or passed over, and none of them fails
  induction before with
  | nil => exact selectNamed_cons_of_error hid (Rule.ofConfig_eq_error_iff.2 ⟨cause, hcause, rfl⟩)
  | cons earlier before ih =>
    obtain ⟨hearlier, hbefore⟩ := List.forall_mem_cons.1 hbefore
    rw [List.cons_append]
    rcases exists_or_forall_not (fun id : RuleId => id.IsListedAs earlier) with ⟨id', hid'⟩ | hnone
    · obtain ⟨policy, hpolicy⟩ := hearlier id' hid'
      rw [selectNamed_cons_of_ok hid' (Rule.ofConfig_eq_ok_iff.2 ⟨policy, hpolicy, rfl⟩),
        ih hbefore]
      rfl
    · rw [selectNamed_cons_of_unknown hnone, ih hbefore]

/-- A list fails with the options of the first rule whose options do not fit. -/
theorem selectNamed_eq_error_iff {e : ConfigError} :
    selectNamed names c = .error e ↔
      ∃ id cause, FirstMalformed c names id cause ∧ e = .invalidOptions id.name cause := by
  constructor
  · exact exists_firstMalformed
  · rintro ⟨id, cause, hmalformed, rfl⟩
    exact hmalformed.selectNamed_eq

/-- A list selects rules exactly if the options of all its rules fit. -/
theorem exists_selectNamed_eq_ok_iff :
    (∃ rules, selectNamed names c = .ok rules) ↔
      ∀ entry ∈ names, ∀ id : RuleId, id.IsListedAs entry → id.Decodes c := by
  constructor
  · rintro ⟨rules, h⟩
    exact (selectNamed_eq_ok_iff.1 h).decodes
  · intro h
    cases hselect : selectNamed names c with
    | ok rules => exact ⟨rules, rfl⟩
    | error e =>
      -- the options of the rule that fails would fit
      obtain ⟨id, cause, ⟨before, entry, behind, rfl, -, hid, hcause⟩, -⟩ :=
        selectNamed_eq_error_iff.1 hselect
      obtain ⟨policy, hpolicy⟩ := h entry (by simp) id hid
      rw [hcause] at hpolicy
      cases hpolicy

/-! ## What is read of a configuration -/

/-- Only its own section counts for a rule. -/
theorem Rule.ofConfig_congr (h : c'.section? id.name = c.section? id.name) :
    Rule.ofConfig id c' = Rule.ofConfig id c := by
  simp only [ofConfig, h]

/-- Only the sections of the listed rules count for a list. -/
theorem selectNamed_congr
    (h : ∀ entry ∈ names, ∀ id : RuleId, id.IsListedAs entry →
      c'.section? id.name = c.section? id.name) :
    selectNamed names c' = selectNamed names c := by
  -- one entry after the other, as they are built
  induction names with
  | nil => rfl
  | cons entry rest ih =>
    obtain ⟨hentry, hrest⟩ := List.forall_mem_cons.1 h
    rcases exists_or_forall_not (fun id : RuleId => id.IsListedAs entry) with ⟨id, hid⟩ | hnone
    · rw [selectNamed_cons_of_isListedAs hid, selectNamed_cons_of_isListedAs hid,
        Rule.ofConfig_congr (hentry id hid), ih hrest]
    · rw [selectNamed_cons_of_unknown hnone, selectNamed_cons_of_unknown hnone, ih hrest]

/-! ## Presets -/

theorem Preset.ofName?_name (p : Preset) : ofName? p.name = some p := by
  cases p <;> rfl

/-- No preset is found exactly for the texts that name none. -/
theorem Preset.ofName?_eq_none_iff : ofName? entry = none ↔ ∀ p : Preset, p.name ≠ entry := by
  have hall : ∀ p : Preset, p ∈ all := by
    intro p
    cases p <;> simp [all]
  simp [ofName?, List.find?_eq_none, hall]

/-- The preset of a configuration is the one that it names. -/
theorem selectConfigured_of_name {p : Preset}
    (h : c.preset.getD Preset.recommended.name = p.name) :
    selectConfigured c = selectNamed (p.rules.map RuleId.name) c := by
  have hpreset : Preset.ofConfig c = .ok p := by
    unfold Preset.ofConfig
    -- a configuration that names no preset has the recommended one
    cases hnamed : c.preset with
    | none =>
      rw [hnamed] at h
      have hsame := p.ofName?_name
      rw [← h, Option.getD_none, Preset.ofName?_name] at hsame
      rw [Option.some.inj hsame]
    | some text =>
      rw [hnamed] at h
      simp only [show text = p.name from h, Preset.ofName?_name]
  unfold selectConfigured
  rw [hpreset]
  rfl

/-- An unknown preset is an error. -/
theorem selectConfigured_of_unknown {text : String} (hnamed : c.preset = some text)
    (h : ∀ p : Preset, p.name ≠ text) :
    selectConfigured c = .error (.invalid ("unknown preset '" ++ text ++ "'")) := by
  have hpreset : Preset.ofConfig c = .error (.invalid ("unknown preset '" ++ text ++ "'")) := by
    simp only [Preset.ofConfig, hnamed, Preset.ofName?_eq_none_iff.2 h]
  unfold selectConfigured
  rw [hpreset]
  rfl

end

/-- A selection is exact. It succeeds when the options of each listed rule fit, with the listed
rules in their order and with the policies of their sections. Otherwise it fails with the first
listed rule whose options do not fit. Only the sections of the listed rules count. A preset is the
list of its names, and an unknown preset is an error whatever else the configuration holds. -/
theorem selectNamed_exact (names : List String) (c : Config) :
    ((∃ rules, selectNamed names c = .ok rules) ↔
      ∀ entry ∈ names, ∀ id : RuleId, id.IsListedAs entry → id.Decodes c) ∧
    (∀ rules, selectNamed names c = .ok rules ↔ Selected c names rules) ∧
    (∀ e, selectNamed names c = .error e ↔
      ∃ id cause, FirstMalformed c names id cause ∧ e = .invalidOptions id.name cause) ∧
    (∀ c' : Config, (∀ entry ∈ names, ∀ id : RuleId, id.IsListedAs entry →
      c'.section? id.name = c.section? id.name) → selectNamed names c' = selectNamed names c) ∧
    (∀ p : Preset, c.preset.getD Preset.recommended.name = p.name →
      selectConfigured c = selectNamed (p.rules.map RuleId.name) c) ∧
    (∀ text, c.preset = some text → (∀ p : Preset, p.name ≠ text) → ∀ c' : Config,
      c'.preset = c.preset →
        selectConfigured c' = .error (.invalid ("unknown preset '" ++ text ++ "'"))) := by
  refine ⟨exists_selectNamed_eq_ok_iff, fun _ => selectNamed_eq_ok_iff,
    fun _ => selectNamed_eq_error_iff, fun _ => selectNamed_congr,
    fun _ => selectConfigured_of_name, ?_⟩
  intro text hnamed hunknown c' hc'
  exact selectConfigured_of_unknown (hc'.trans hnamed) hunknown

end LoaderLint
