import LoaderLint.Config.Decode
import LoaderLint.Proofs.DocumentKeys
import Mathlib.Data.String.Basic

/-!
# Sections of rules

What a document says under the name of a rule reaches the configuration in full. Two keys are
settings that every rule has; all others are its options, which the configuration keeps in the
order of their keys.

The module introduces:

* `optionEntries` — the keys and values of a section that are options;
* `KeySorted` — options in the order of their keys.

The main result is `Config.section?_of_parse`.
-/

namespace LoaderLint

open Toml (Value Table)

/-- The keys and values of a section that are options of the rule. -/
def optionEntries (entries : Table) : Table :=
  entries.filter fun e => e.1 ≠ "enabled" ∧ e.1 ≠ "severity"

/-- The keys of the options are in strictly increasing order. -/
def KeySorted (options : Table) : Prop := options.Pairwise fun e e' => e.1 < e'.1

section

variable {ε α β : Type}

theorem exists_of_bind_eq_ok {x : Except ε α} {f : α → Except ε β} {b : β}
    (h : x >>= f = .ok b) : ∃ a, x = .ok a ∧ f a = .ok b := by
  cases x with
  | error e => cases h
  | ok a => exact ⟨a, rfl, h⟩

theorem exists_of_map_eq_ok {x : Except ε α} {f : α → β} {b : β} (h : x.map f = .ok b) :
    ∃ a, x = .ok a ∧ f a = b := by
  cases x with
  | error e => cases h
  | ok a => exact ⟨a, rfl, Except.ok.inj h⟩

end

section

variable {key : String} {v : Value} {entries options : Table} {s s' : RuleSection}

/-- A setting is no option. -/
theorem optionEntries_cons_of_setting (h : key = "enabled" ∨ key = "severity") :
    optionEntries ((key, v) :: entries) = optionEntries entries := by
  refine List.filter_cons_of_neg ?_
  rcases h with rfl | rfl <;> simp

/-- All other keys are options. -/
theorem optionEntries_cons_of_option (h : ¬(key = "enabled" ∨ key = "severity")) :
    optionEntries ((key, v) :: entries) = (key, v) :: optionEntries entries := by
  refine List.filter_cons_of_pos ?_
  simpa [not_or] using h

namespace Decode

/-! ## Options in order -/

/-- An option is added to those that are there. -/
theorem perm_insertOption (key : String) (v : Value) (options : Table) :
    (insertOption key v options).Perm ((key, v) :: options) := by
  induction options with
  | nil => exact .refl _
  | cons e rest ih =>
    rw [insertOption]
    split
    · exact .refl _
    · exact (ih.cons e).trans (.swap _ _ _)

/-- An option that is added keeps the options in the order of their keys. -/
theorem pairwise_insertOption (h : options.Pairwise fun e e' => e.1 ≤ e'.1) :
    (insertOption key v options).Pairwise fun e e' => e.1 ≤ e'.1 := by
  induction options with
  | nil => exact List.pairwise_singleton _ _
  | cons e rest ih =>
    obtain ⟨hfirst, hrest⟩ := List.pairwise_cons.1 h
    rw [insertOption]
    split
    -- it is put in front of the first larger key, which no other one is below
    · rename_i hlt
      refine List.pairwise_cons.2 ⟨List.forall_mem_cons.2 ⟨hlt.le, fun e' he' => ?_⟩, h⟩
      exact hlt.le.trans (hfirst e' he')
    · rename_i hge
      refine List.pairwise_cons.2 ⟨fun e' he' => ?_, ih hrest⟩
      rcases List.mem_cons.1 ((perm_insertOption key v rest).mem_iff.1 he') with rfl | he'
      · exact not_lt.1 hge
      · exact hfirst e' he'

/-! ## One section -/

/-- A key is a setting, or it is an option that is kept. -/
theorem sectionField_eq_ok (h : sectionField s key v = .ok s') :
    (key = "enabled" ∨ key = "severity") ∧ s'.options = s.options ∨
      ¬(key = "enabled" ∨ key = "severity") ∧ s'.options = insertOption key v s.options := by
  unfold sectionField at h
  split at h
  · obtain ⟨b, -, rfl⟩ := exists_of_map_eq_ok h
    exact .inl ⟨.inl rfl, rfl⟩
  · obtain ⟨sev, -, rfl⟩ := exists_of_map_eq_ok h
    exact .inl ⟨.inr rfl, rfl⟩
  · rename_i henabled hseverity
    cases h
    exact .inr ⟨not_or.2 ⟨henabled, hseverity⟩, rfl⟩

/-- The options of a section are those from before and those among its entries, in the order of
their keys. -/
theorem options_of_foldlM_sectionField
    (h : entries.foldlM (fun s (key, v) => sectionField s key v) s = .ok s')
    (hsorted : s.options.Pairwise fun e e' => e.1 ≤ e'.1) :
    s'.options.Perm (s.options ++ optionEntries entries) ∧
      s'.options.Pairwise fun e e' => e.1 ≤ e'.1 := by
  induction entries generalizing s with
  | nil =>
    cases h
    exact ⟨by simp [optionEntries], hsorted⟩
  | cons e rest ih =>
    obtain ⟨key, v⟩ := e
    rw [List.foldlM_cons] at h
    obtain ⟨next, hnext, h⟩ := exists_of_bind_eq_ok h
    -- a setting leaves the options as they are, any other key is put in its place among them
    rcases sectionField_eq_ok hnext with ⟨hkey, hoptions⟩ | ⟨hkey, hoptions⟩
    · rw [optionEntries_cons_of_setting hkey, ← hoptions]
      exact ih h (hoptions ▸ hsorted)
    · rw [optionEntries_cons_of_option hkey]
      obtain ⟨hperm, hpairwise⟩ := ih h (hoptions ▸ pairwise_insertOption hsorted)
      refine ⟨hperm.trans ?_, hpairwise⟩
      rw [hoptions]
      exact ((perm_insertOption key v s.options).append_right _).trans List.perm_middle.symm

/-- The options of a section are those among its entries, in the order of their keys. -/
theorem options_of_ruleSection (h : ruleSection (.table entries) = .ok s) :
    s.options.Perm (optionEntries entries) ∧ s.options.Pairwise fun e e' => e.1 ≤ e'.1 :=
  options_of_foldlM_sectionField h List.Pairwise.nil

/-! ## All sections -/

/-- The section of a rule is found under its name. -/
theorem find?_of_rules {sections : Table} {rules : List (String × RuleSection)} {name : String}
    (h : Decode.rules (.table sections) = .ok rules) (hkeys : (sections.map Prod.fst).Nodup)
    (hmem : (name, v) ∈ sections) :
    ∃ s, ruleSection v = .ok s ∧ rules.find? (·.1 = name) = some (name, s) := by
  change sections.mapM (fun (name, v) => (ruleSection v).map (name, ·)) = .ok rules at h
  induction sections generalizing rules with
  | nil => cases hmem
  | cons e rest ih =>
    obtain ⟨other, w⟩ := e
    obtain ⟨hother, hkeys⟩ := List.nodup_cons.1 hkeys
    rw [List.mapM_cons] at h
    obtain ⟨first, hfirst, h⟩ := exists_of_bind_eq_ok h
    obtain ⟨s, hs, rfl⟩ := exists_of_map_eq_ok hfirst
    obtain ⟨others, hothers, h⟩ := exists_of_bind_eq_ok h
    cases h
    rcases List.mem_cons.1 hmem with hsame | hmem
    · cases hsame
      exact ⟨s, hs, List.find?_cons_of_pos (by simp)⟩
    · -- the name of the first section is another one, so the search goes on behind it
      obtain ⟨s', hs', hfind⟩ := ih hkeys hmem hothers
      refine ⟨s', hs', ?_⟩
      rw [List.find?_cons_of_neg, hfind]
      simp only [decide_eq_true_eq]
      rintro rfl
      exact hother (List.mem_map.2 ⟨_, hmem, rfl⟩)

end Decode

/-! ## Whole documents -/

variable {c c' : Config} {doc : Table}

/-- Only the key `rules` changes the sections of the rules. -/
theorem Decode.configField_eq_ok (h : configField c key v = .ok c') :
    key = "rules" ∧ Decode.rules v = .ok c'.rules ∨ key ≠ "rules" ∧ c'.rules = c.rules := by
  unfold configField at h
  split at h
  · obtain ⟨_, -, rfl⟩ := exists_of_map_eq_ok h
    exact .inr ⟨by decide, rfl⟩
  · obtain ⟨_, -, rfl⟩ := exists_of_map_eq_ok h
    exact .inr ⟨by decide, rfl⟩
  · obtain ⟨_, -, rfl⟩ := exists_of_map_eq_ok h
    exact .inr ⟨by decide, rfl⟩
  · obtain ⟨rules, hrules, rfl⟩ := exists_of_map_eq_ok h
    exact .inl ⟨rfl, hrules⟩
  · rename_i hkey
    cases h
    exact .inr ⟨hkey, rfl⟩

/-- Without the key `rules` the sections stay as they are. -/
theorem rules_of_foldlM_of_not_mem
    (h : doc.foldlM (fun c (key, v) => Decode.configField c key v) c = .ok c')
    (hdoc : "rules" ∉ doc.map Prod.fst) : c'.rules = c.rules := by
  induction doc generalizing c with
  | nil =>
    cases h
    rfl
  | cons e rest ih =>
    obtain ⟨hkey, hrest⟩ := not_or.1 (List.mem_cons.not.1 hdoc)
    rw [List.foldlM_cons] at h
    obtain ⟨next, hnext, h⟩ := exists_of_bind_eq_ok h
    rcases Decode.configField_eq_ok hnext with ⟨hrules, -⟩ | ⟨-, hrules⟩
    · exact absurd hrules.symm hkey
    · rw [ih h hrest, hrules]

/-- The sections are decoded from what stands under the key `rules`. -/
theorem rules_of_foldlM_of_mem
    (h : doc.foldlM (fun c (key, v) => Decode.configField c key v) c = .ok c')
    (hkeys : (doc.map Prod.fst).Nodup) (hmem : ("rules", v) ∈ doc) :
    Decode.rules v = .ok c'.rules := by
  induction doc generalizing c with
  | nil => cases hmem
  | cons e rest ih =>
    obtain ⟨hother, hkeys⟩ := List.nodup_cons.1 hkeys
    rw [List.foldlM_cons] at h
    obtain ⟨next, hnext, hrest⟩ := exists_of_bind_eq_ok h
    rcases List.mem_cons.1 hmem with rfl | hmem
    · -- no key behind it changes the rules
      rcases Decode.configField_eq_ok hnext with ⟨-, hrules⟩ | ⟨hne, -⟩
      · rw [hrules, rules_of_foldlM_of_not_mem hrest hother]
      · exact absurd rfl hne
    · exact ih hrest hkeys hmem

/-- A configuration that is read from a text is decoded from its document. -/
theorem Config.ofTable_of_parse {text : String} (hdoc : Toml.parse? text = some doc)
    (h : Config.parse text = .ok c) : Config.ofTable doc = .ok c := by
  unfold Config.parse at h
  rw [hdoc] at h
  simp only at h
  split at h
  · cases h
  · rename_i hc
    -- validation fails or leaves the configuration as it is
    unfold Config.validate at h
    split at h
    · cases h
    · cases h
      exact hc

/-- The section of a rule in a document reaches the configuration with all its options, in the
order of their keys. -/
theorem Config.section?_of_parse {text name : String} {sections : Table}
    (hdoc : Toml.parse? text = some doc) (h : Config.parse text = .ok c)
    (hrules : ("rules", .table sections) ∈ doc) (hsection : (name, .table entries) ∈ sections) :
    ∃ s, c.section? name = some s ∧ s.options.Perm (optionEntries entries) ∧
      KeySorted s.options := by
  have hunique := Toml.keyUnique_of_parse? hdoc
  have hsections := hunique.inner hrules
  have hdecoded := rules_of_foldlM_of_mem (Config.ofTable_of_parse hdoc h) hunique.1 hrules
  obtain ⟨s, hs, hfind⟩ := Decode.find?_of_rules hdecoded hsections.1 hsection
  obtain ⟨hperm, hsorted⟩ := Decode.options_of_ruleSection hs
  refine ⟨s, Option.map_eq_some_iff.2 ⟨_, hfind, rfl⟩, hperm, ?_⟩
  -- in order and without a repeated key, so strictly in order
  have hkeys : (s.options.map Prod.fst).Nodup := by
    rw [(hperm.map Prod.fst).nodup_iff]
    exact (hsections.inner hsection).1.sublist (List.filter_sublist.map Prod.fst)
  exact (hsorted.and (List.pairwise_map.1 hkeys)).imp fun h => lt_of_le_of_ne h.1 h.2

end

end LoaderLint
