import LoaderLint.Proofs.ListedNames
import LoaderLint.Proofs.RuleSections
import LoaderLint.Proofs.RuleSelection

/-!
# Options of rules

The options of a rule are accepted exactly if they are well formed, and none is passed over. Where
they are not, the error is that of the first key that offends, in the order of the keys.

The module introduces:

* `IsNames`, `GivesPolicy`, `SpoilsPolicy` — values that stand for a policy, and those that do not;
* `RuleId.Accepts` — the options that a rule accepts, with the policy that they give;
* `RuleId.Offends`, `RuleId.FirstOffence` — the keys that a rule does not accept, and the first.

The main result is `Rule.ofConfig_of_parse`.
-/

namespace LoaderLint

open Toml (Value Table)

/-- The value is an array of these strings. -/
def IsNames (v : Value) (names : List String) : Prop := v.elements? = some (names.map .string)

/-- The value stands for the policy. -/
inductive GivesPolicy : Value → SurplusPolicy → Prop
  | flag (b : Bool) : GivesPolicy (.boolean b) (if b then .allowed else .forbidden)
  | names {v : Value} {names listed : List String} : IsNames v names → names.Nodup →
      listed.Pairwise (· < ·) → (∀ x, x ∈ listed ↔ x ∈ names) → GivesPolicy v (.allowList listed)

/-- The value stands for no policy. -/
inductive SpoilsPolicy : Value → OptionError → Prop
  | type {v : Value} : (∀ b, v ≠ .boolean b) → (∀ names, ¬IsNames v names) →
      SpoilsPolicy v .policyType
  | repeated {v : Value} {names : List String} {name : String} : IsNames v names →
      Repeats names name → SpoilsPolicy v (.duplicateName name)

namespace RuleId

/-- The keys that the options of a rule may have. They are names of one and the same option. -/
def optionKeys : RuleId → List String
  | functionArity => ["allowExtraDependencies", "allow_extra_dependencies"]
  | _ => []

/-- The rule accepts the options, and they give the policy. -/
inductive Accepts : RuleId → Table → SurplusPolicy → Prop
  | none (id : RuleId) : Accepts id [] .forbidden
  | policy {id : RuleId} {key : String} {v : Value} {policy : SurplusPolicy} :
      key ∈ id.optionKeys → GivesPolicy v policy → Accepts id [(key, v)] policy

/-- The key is one that the rule does not accept among these options. -/
inductive Offends (id : RuleId) (options : Table) : String → OptionError → Prop
  /-- A key that the rule does not know. -/
  | unknown {key : String} {v : Value} : (key, v) ∈ options → key ∉ id.optionKeys →
      Offends id options key (.unknownField key id.optionKeys)
  /-- The other name of the option, where it is given under the first name as well. -/
  | again {v w : Value} : "allow_extra_dependencies" ∈ id.optionKeys →
      ("allowExtraDependencies", v) ∈ options → ("allow_extra_dependencies", w) ∈ options →
      Offends id options "allow_extra_dependencies" (.duplicateField "allowExtraDependencies")
  /-- A key with a value that stands for no policy. -/
  | value {key : String} {v : Value} {cause : OptionError} : (key, v) ∈ options →
      key ∈ id.optionKeys →
      (key = "allow_extra_dependencies" → ∀ w, ("allowExtraDependencies", w) ∉ options) →
      SpoilsPolicy v cause → Offends id options key cause

/-- What is wrong with the first key that the rule does not accept. -/
def FirstOffence (id : RuleId) (options : Table) (cause : OptionError) : Prop :=
  ∃ key, id.Offends options key cause ∧ ∀ key' cause', id.Offends options key' cause' → key ≤ key'

end RuleId

section

variable {v : Value} {names : List String} {policy : SurplusPolicy} {cause : OptionError}

/-! ## Values -/

/-- Values can all be taken for strings exactly if they are strings. -/
theorem mapM_stringOf?_eq_some_iff {elements : List Value} :
    elements.mapM stringOf? = some names ↔ elements = names.map .string := by
  -- the names are generalized, since each value takes one of them
  induction elements generalizing names with
  | nil => cases names <;> simp
  | cons first rest ih =>
    rw [List.mapM_cons]
    cases names with
    | nil => cases first <;> simp [stringOf?, Option.bind_eq_some_iff]
    | cons name names => cases first <;> simp [stringOf?, Option.bind_eq_some_iff, ih, and_comm]

/-- The strings that are found in a value are those of which it is an array. -/
theorem isNames_iff : v.elements?.bind (·.mapM stringOf?) = some names ↔ IsNames v names := by
  rw [Option.bind_eq_some_iff, IsNames]
  constructor
  · rintro ⟨elements, helements, hnames⟩
    rw [helements, mapM_stringOf?_eq_some_iff.1 hnames]
  · intro h
    exact ⟨_, h, mapM_stringOf?_eq_some_iff.2 rfl⟩

theorem policyOf_boolean (b : Bool) :
    policyOf (.boolean b) = .ok (if b then .allowed else .forbidden) := rfl

/-- An array of strings gives the policy of these names, or the first repetition among them as an
error. -/
theorem policyOf_of_isNames (h : IsNames v names) :
    policyOf v = SurplusPolicy.ofDistinct names := by
  have hnames := isNames_iff.2 h
  -- only the two forms of an array have elements
  cases v with
  | boolean b => cases h
  | array elements => simp only [policyOf, hnames]
  | tables elements => simp only [policyOf, hnames]
  | _ => cases h

/-- Any other value is an error of its type. -/
theorem policyOf_of_neither (hflag : ∀ b, v ≠ .boolean b) (hnames : ∀ names, ¬IsNames v names) :
    policyOf v = .error .policyType := by
  have hnone : v.elements?.bind (·.mapM stringOf?) = none := by
    rw [Option.eq_none_iff_forall_ne_some]
    exact fun names h => hnames names (isNames_iff.1 h)
  cases v with
  | boolean b => exact absurd rfl (hflag b)
  | _ => simp only [policyOf, hnone]

/-- A value is a truth value, an array of strings, or neither. -/
theorem policyOf_cases (v : Value) :
    (∃ b, v = .boolean b) ∨ (∃ names, IsNames v names) ∨
      (∀ b, v ≠ .boolean b) ∧ ∀ names, ¬IsNames v names := by
  by_cases hflag : ∃ b, v = .boolean b
  · exact .inl hflag
  · by_cases hnames : ∃ names, IsNames v names
    · exact .inr (.inl hnames)
    · exact .inr (.inr ⟨not_exists.1 hflag, not_exists.1 hnames⟩)

/-- The policy that is made of a value is the one that it stands for. -/
theorem policyOf_eq_ok_iff : policyOf v = .ok policy ↔ GivesPolicy v policy := by
  constructor
  · intro h
    -- the three cases of a value, of which the last one is never a policy
    rcases policyOf_cases v with ⟨b, rfl⟩ | ⟨names, hnames⟩ | ⟨hflag, hnames⟩
    · cases h
      exact .flag b
    · rw [policyOf_of_isNames hnames, SurplusPolicy.ofDistinct_eq_ok_iff] at h
      obtain ⟨hnodup, rfl⟩ := h
      obtain ⟨hsorted, hmem⟩ :=
        SurplusPolicy.ofNames_eq_allowList_iff.1 (SurplusPolicy.ofNames_eq names)
      exact .names hnames hnodup hsorted hmem
    · rw [policyOf_of_neither hflag hnames] at h
      cases h
  · intro h
    cases h with
    | flag b => exact policyOf_boolean b
    | names hnames hnodup hsorted hmem =>
      rw [policyOf_of_isNames hnames, SurplusPolicy.ofDistinct_eq_ok_iff]
      exact ⟨hnodup, (SurplusPolicy.ofNames_eq_allowList_iff.2 ⟨hsorted, hmem⟩).symm⟩

/-- The error that is made of a value says why it stands for no policy. -/
theorem policyOf_eq_error_iff : policyOf v = .error cause ↔ SpoilsPolicy v cause := by
  constructor
  · intro h
    rcases policyOf_cases v with ⟨b, rfl⟩ | ⟨names, hnames⟩ | ⟨hflag, hnames⟩
    · cases h
    · rw [policyOf_of_isNames hnames, SurplusPolicy.ofDistinct_eq_error_iff] at h
      obtain ⟨name, hrepeats, rfl⟩ := h
      exact .repeated hnames hrepeats
    · rw [policyOf_of_neither hflag hnames] at h
      cases h
      exact .type hflag hnames
  · intro h
    cases h with
    | type hflag hnames => exact policyOf_of_neither hflag hnames
    | repeated hnames hrepeats =>
      rw [policyOf_of_isNames hnames, SurplusPolicy.ofDistinct_eq_error_iff]
      exact ⟨_, hrepeats, rfl⟩

/-- A value that stands for a policy is not one that stands for none. -/
theorem GivesPolicy.not_spoilsPolicy (h : GivesPolicy v policy) : ¬SpoilsPolicy v cause := by
  intro hspoils
  have hok := policyOf_eq_ok_iff.2 h
  rw [policyOf_eq_error_iff.2 hspoils] at hok
  cases hok

/-- A value stands for no policy for one reason only. -/
theorem SpoilsPolicy.unique {cause' : OptionError} (h : SpoilsPolicy v cause)
    (h' : SpoilsPolicy v cause') : cause = cause' :=
  Except.error.inj ((policyOf_eq_error_iff.2 h).symm.trans (policyOf_eq_error_iff.2 h'))

end

namespace RuleId

section

variable {id : RuleId} {key : String} {v : Value} {policy : SurplusPolicy} {cause : OptionError}
  {options options' rest : Table}

/-! ## Offences -/

/-- A key that offends is given. -/
theorem Offends.exists_mem (h : id.Offends options key cause) : ∃ v, (key, v) ∈ options := by
  cases h with
  | unknown hmem _ => exact ⟨_, hmem⟩
  | again _ _ hmem => exact ⟨_, hmem⟩
  | value hmem _ _ _ => exact ⟨_, hmem⟩

/-- Which keys offend does not depend on the order of the options. -/
theorem Offends.of_mem_iff (hsame : ∀ e, e ∈ options ↔ e ∈ options')
    (h : id.Offends options key cause) : id.Offends options' key cause := by
  cases h with
  | unknown hmem hkey => exact .unknown ((hsame _).1 hmem) hkey
  | again hkey hfirst hother => exact .again hkey ((hsame _).1 hfirst) ((hsame _).1 hother)
  | value hmem hkey halone hspoils =>
    exact .value ((hsame _).1 hmem) hkey (fun heq w hw => halone heq w ((hsame _).2 hw)) hspoils

/-- The first offence does not depend on the order of the options. -/
theorem firstOffence_congr (hsame : ∀ e, e ∈ options ↔ e ∈ options') :
    id.FirstOffence options cause ↔ id.FirstOffence options' cause := by
  have hback : ∀ e, e ∈ options' ↔ e ∈ options := fun e => (hsame e).symm
  constructor
  · rintro ⟨key, h, hleast⟩
    exact ⟨key, h.of_mem_iff hsame, fun key' cause' h' => hleast key' cause' (h'.of_mem_iff hback)⟩
  · rintro ⟨key, h, hleast⟩
    exact ⟨key, h.of_mem_iff hback, fun key' cause' h' => hleast key' cause' (h'.of_mem_iff hsame)⟩

/-- Options in the order of their keys have one value for a key. -/
theorem eq_of_mem_of_sorted {w : Value} (hsorted : KeySorted options)
    (h : (key, v) ∈ options) (h' : (key, w) ∈ options) : v = w := by
  have hkeys : (options.map Prod.fst).Nodup :=
    List.pairwise_map.2 (hsorted.imp fun hlt => ne_of_lt hlt)
  exact (Prod.mk.inj (List.inj_on_of_nodup_map hkeys h h' rfl)).2

/-- A key offends in one way only. -/
theorem Offends.unique {cause' : OptionError} (hsorted : KeySorted options)
    (h : id.Offends options key cause) (h' : id.Offends options key cause') : cause = cause' := by
  -- whether the key is known and whether it is the only name of the option tell the three ways
  -- apart
  cases h with
  | unknown _ hkey =>
    cases h' with
    | unknown _ _ => rfl
    | again hknown _ _ => exact absurd hknown hkey
    | value _ hknown _ _ => exact absurd hknown hkey
  | again hknown hfirst _ =>
    cases h' with
    | unknown _ hkey => exact absurd hknown hkey
    | again _ _ _ => rfl
    | value _ _ halone _ => exact absurd hfirst (halone rfl _)
  | value hmem hknown halone hspoils =>
    cases h' with
    | unknown _ hkey => exact absurd hknown hkey
    | again _ hfirst _ => exact absurd hfirst (halone rfl _)
    | value hmem' _ _ hspoils' =>
      rw [eq_of_mem_of_sorted hsorted hmem hmem'] at hspoils
      exact hspoils.unique hspoils'

/-- Where the other name of the option comes first, its first name is not given. -/
theorem not_mem_of_other_first (hsorted : KeySorted ((key, v) :: rest))
    (hkey : key = "allow_extra_dependencies") (w : Value) :
    ("allowExtraDependencies", w) ∉ (key, v) :: rest := by
  intro hmem
  rcases List.mem_cons.1 hmem with hsame | hmem
  · have hnames := (Prod.mk.inj hsame).1.trans hkey
    exact absurd hnames (by decide)
  · have hlt : key < "allowExtraDependencies" := (List.pairwise_cons.1 hsorted).1 _ hmem
    rw [hkey] at hlt
    exact absurd hlt (by decide)

/-- A first key with a value that gives a policy does not offend. -/
theorem not_offends_of_givesPolicy
    (hsorted : KeySorted ((key, v) :: rest)) (hkey : key ∈ id.optionKeys)
    (hv : GivesPolicy v policy) : ¬id.Offends ((key, v) :: rest) key cause := by
  intro h
  cases h with
  | unknown _ hunknown => exact hunknown hkey
  | again _ hfirst _ =>
    exact not_mem_of_other_first hsorted rfl _ hfirst
  | value hmem _ _ hspoils =>
    rw [← eq_of_mem_of_sorted hsorted List.mem_cons_self hmem] at hspoils
    exact hv.not_spoilsPolicy hspoils

/-- An offence with none before it is the first. -/
theorem Offends.first (before : Table)
    (hsorted : KeySorted (before ++ (key, v) :: rest))
    (h : id.Offends (before ++ (key, v) :: rest) key cause)
    (hbefore : ∀ e ∈ before, ∀ cause', ¬id.Offends (before ++ (key, v) :: rest) e.1 cause') :
    id.FirstOffence (before ++ (key, v) :: rest) cause := by
  refine ⟨key, h, fun key' cause' h' => ?_⟩
  obtain ⟨v', hmem⟩ := h'.exists_mem
  obtain ⟨-, htail, -⟩ := List.pairwise_append.1 hsorted
  -- keys behind this one are greater, since the options are in order
  rcases List.mem_append.1 hmem with hmem | hmem
  · exact absurd h' (hbefore _ hmem cause')
  · rcases List.mem_cons.1 hmem with hsame | hmem
    · exact (Prod.mk.inj hsame).1.ge
    · exact ((List.pairwise_cons.1 htail).1 _ hmem).le

/-! ## What is made of options -/

/-- Only one rule has options. -/
theorem eq_functionArity_of_mem_optionKeys (h : key ∈ id.optionKeys) : id = .functionArity := by
  cases id with
  | functionArity => rfl
  | _ => cases h

theorem policyFrom_cons_of_mem (h : key ∈ policyKeys) :
    policyFrom none ((key, v) :: rest) = (policyOf v).bind fun p => policyFrom (some p) rest := by
  rw [policyFrom, if_pos (List.contains_iff_mem.2 h)]
  rfl

/-- No options give the policy that forbids. -/
theorem decodeOptions_nil (id : RuleId) : id.decodeOptions [] = .ok .forbidden := by
  cases id <;> rfl

/-- A first key that the rule does not know is the error. -/
theorem decodeOptions_cons_of_unknown (h : key ∉ id.optionKeys) :
    id.decodeOptions ((key, v) :: rest) = .error (.unknownField key id.optionKeys) := by
  cases id with
  | functionArity =>
    change policyFrom none ((key, v) :: rest) = .error (.unknownField key policyKeys)
    have hkey : ¬policyKeys.contains key = true := List.contains_iff_mem.not.2 h
    rw [policyFrom, if_neg hkey]
  | _ => rfl

/-- A first value that stands for no policy is the error. -/
theorem decodeOptions_cons_of_spoilsPolicy (h : key ∈ id.optionKeys) (hv : SpoilsPolicy v cause) :
    id.decodeOptions ((key, v) :: rest) = .error cause := by
  obtain rfl := eq_functionArity_of_mem_optionKeys h
  change policyFrom none ((key, v) :: rest) = .error cause
  rw [policyFrom_cons_of_mem h, policyOf_eq_error_iff.2 hv]
  rfl

/-- One option gives the policy that its value stands for. -/
theorem decodeOptions_singleton (h : key ∈ id.optionKeys) (hv : GivesPolicy v policy) :
    id.decodeOptions [(key, v)] = .ok policy := by
  obtain rfl := eq_functionArity_of_mem_optionKeys h
  change policyFrom none [(key, v)] = .ok policy
  rw [policyFrom_cons_of_mem h, policyOf_eq_ok_iff.2 hv]
  rfl

/-- After a policy any other key is an error: the other name of the option, or an unknown one. -/
theorem decodeOptions_cons_cons {key' : String} {v' : Value} (h : key ∈ id.optionKeys)
    (hv : GivesPolicy v policy) :
    id.decodeOptions ((key, v) :: (key', v') :: rest) =
      .error (if key' ∈ id.optionKeys then .duplicateField "allowExtraDependencies"
        else .unknownField key' id.optionKeys) := by
  obtain rfl := eq_functionArity_of_mem_optionKeys h
  change policyFrom none ((key, v) :: (key', v') :: rest) = .error (if key' ∈ policyKeys then
    .duplicateField "allowExtraDependencies" else .unknownField key' policyKeys)
  rw [policyFrom_cons_of_mem h, policyOf_eq_ok_iff.2 hv]
  change policyFrom (some policy) ((key', v') :: rest) = _
  rw [policyFrom]
  -- the policy is there already, so only the key decides which error it is
  by_cases hkey' : key' ∈ policyKeys
  · rw [if_pos (List.contains_iff_mem.2 hkey'), if_pos hkey']
    rfl
  · rw [if_neg (List.contains_iff_mem.not.2 hkey'), if_neg hkey']

/-- Two different names of the option in order are its first and its other name. -/
theorem eq_of_mem_optionKeys_of_lt {key' : String} (h : key ∈ id.optionKeys)
    (h' : key' ∈ id.optionKeys) (hlt : key < key') :
    key = "allowExtraDependencies" ∧ key' = "allow_extra_dependencies" := by
  obtain rfl := eq_functionArity_of_mem_optionKeys h
  simp only [optionKeys, List.mem_cons, List.not_mem_nil, or_false] at h h'
  rcases h with rfl | rfl <;> rcases h' with rfl | rfl
  · exact absurd hlt (lt_irrefl _)
  · exact ⟨rfl, rfl⟩
  · exact absurd hlt (by decide)
  · exact absurd hlt (lt_irrefl _)

/-- Behind a policy the next key is the first that offends. -/
theorem firstOffence_cons_cons {key' : String} {v' : Value}
    (hsorted : KeySorted ((key, v) :: (key', v') :: rest))
    (hkey : key ∈ id.optionKeys) (hv : GivesPolicy v policy) :
    id.FirstOffence ((key, v) :: (key', v') :: rest)
      (if key' ∈ id.optionKeys then .duplicateField "allowExtraDependencies"
        else .unknownField key' id.optionKeys) := by
  have hlt : key < key' := (List.pairwise_cons.1 hsorted).1 _ List.mem_cons_self
  have hmem : (key', v') ∈ (key, v) :: (key', v') :: rest :=
    List.mem_cons_of_mem _ List.mem_cons_self
  refine Offends.first [(key, v)] hsorted ?_ (List.forall_mem_singleton.2 fun cause' =>
    not_offends_of_givesPolicy hsorted hkey hv)
  by_cases hkey' : key' ∈ id.optionKeys
  · rw [if_pos hkey']
    obtain ⟨rfl, rfl⟩ := eq_of_mem_optionKeys_of_lt hkey hkey' hlt
    exact .again hkey' List.mem_cons_self hmem
  · rw [if_neg hkey']
    exact .unknown hmem hkey'

/-- Options in order are accepted and no key offends, or the first offence is the error. -/
theorem decodeOptions_cases (id : RuleId) (hsorted : KeySorted options) :
    (∃ policy, id.decodeOptions options = .ok policy ∧ id.Accepts options policy ∧
      ∀ key cause, ¬id.Offends options key cause) ∨
    ∃ cause, id.decodeOptions options = .error cause ∧ id.FirstOffence options cause := by
  cases options with
  | nil =>
    refine .inl ⟨.forbidden, decodeOptions_nil id, .none id, fun key cause h => ?_⟩
    obtain ⟨v, hmem⟩ := h.exists_mem
    cases hmem
  | cons e rest =>
    obtain ⟨key, v⟩ := e
    by_cases hkey : key ∈ id.optionKeys
    · -- of a key that the rule knows, the value decides
      cases hpolicy : policyOf v with
      | error cause =>
        have hspoils := policyOf_eq_error_iff.1 hpolicy
        refine .inr ⟨cause, decodeOptions_cons_of_spoilsPolicy hkey hspoils, ?_⟩
        exact Offends.first [] hsorted
          (.value List.mem_cons_self hkey (not_mem_of_other_first hsorted) hspoils)
          (List.forall_mem_nil _)
      | ok policy =>
        have hgives := policyOf_eq_ok_iff.1 hpolicy
        cases rest with
        | nil =>
          refine .inl ⟨policy, decodeOptions_singleton hkey hgives, .policy hkey hgives, ?_⟩
          intro key' cause h
          obtain ⟨v', hmem⟩ := h.exists_mem
          obtain ⟨rfl, -⟩ := Prod.mk.inj (List.mem_singleton.1 hmem)
          exact not_offends_of_givesPolicy hsorted hkey hgives h
        | cons e' rest =>
          -- the policy is given already, so the second key offends whatever it is
          exact .inr ⟨_, decodeOptions_cons_cons hkey hgives,
            firstOffence_cons_cons hsorted hkey hgives⟩
    · refine .inr ⟨_, decodeOptions_cons_of_unknown hkey, ?_⟩
      exact Offends.first [] hsorted (.unknown List.mem_cons_self hkey) (List.forall_mem_nil _)

/-- Options in order give a policy exactly if the rule accepts them with it. -/
theorem decodeOptions_eq_ok_iff (hsorted : KeySorted options) :
    id.decodeOptions options = .ok policy ↔ id.Accepts options policy := by
  constructor
  · intro h
    rcases decodeOptions_cases id hsorted with ⟨policy', h', haccepts, -⟩ | ⟨cause, h', -⟩
    · rw [h] at h'
      cases h'
      exact haccepts
    · rw [h] at h'
      cases h'
  · intro h
    cases h with
    | none => exact decodeOptions_nil id
    | policy hkey hgives => exact decodeOptions_singleton hkey hgives

/-- Options in order give an error exactly if it is that of the first offence. -/
theorem decodeOptions_eq_error_iff (hsorted : KeySorted options) :
    id.decodeOptions options = .error cause ↔ id.FirstOffence options cause := by
  rcases decodeOptions_cases id hsorted with ⟨policy, hok, -, hnone⟩ | ⟨cause', herror, hfirst⟩
  · rw [hok]
    constructor
    · rintro ⟨⟩
    · rintro ⟨key, hoffends, -⟩
      exact absurd hoffends (hnone key cause)
  · rw [herror]
    constructor
    · rintro ⟨⟩
      exact hfirst
    · -- the first offence has one key, and that key offends in one way
      rintro ⟨key, hoffends, hleast⟩
      obtain ⟨key', hoffends', hleast'⟩ := hfirst
      obtain rfl := le_antisymm (hleast _ _ hoffends') (hleast' _ _ hoffends)
      rw [hoffends.unique hsorted hoffends']

/-- Whether options are accepted does not depend on their order. -/
theorem Accepts.perm (h : id.Accepts options policy) (hperm : options.Perm options') :
    id.Accepts options' policy := by
  cases h with
  | none =>
    rw [hperm.nil_eq.symm]
    exact .none id
  | policy hkey hgives =>
    rw [← List.singleton_perm.1 hperm]
    exact .policy hkey hgives

/-- A rule without options accepts none. -/
theorem accepts_iff_eq_nil (h : id ≠ .functionArity) :
    (∃ policy, id.Accepts options policy) ↔ options = [] := by
  constructor
  · rintro ⟨policy, haccepts⟩
    cases haccepts with
    | none => rfl
    | policy hkey _ => exact absurd (eq_functionArity_of_mem_optionKeys hkey) h
  · rintro rfl
    exact ⟨_, .none id⟩

end

end RuleId

/-- The options that a document gives to a rule are accepted exactly if they are well formed, and
none of them is passed over. The policy is the one that they stand for; of names neither the order
nor the repetition matters. Otherwise the error names the rule and what is wrong with the first key
that offends. A rule without options accepts none. -/
theorem Rule.ofConfig_of_parse {text : String} {doc sections entries : Table} {c : Config}
    (hdoc : Toml.parse? text = some doc) (hparsed : Config.parse text = .ok c)
    (hrules : ("rules", .table sections) ∈ doc) (id : RuleId)
    (hsection : (id.name, .table entries) ∈ sections) :
    (∀ r, Rule.ofConfig id c = .ok r ↔
      ∃ policy, id.Accepts (optionEntries entries) policy ∧ r = ⟨id, .error, policy⟩) ∧
    (∀ e, Rule.ofConfig id c = .error e ↔
      ∃ cause, id.FirstOffence (optionEntries entries) cause ∧ e = .invalidOptions id.name cause) ∧
    (∀ r, Rule.ofConfig id c = .ok r → ∀ key v names names', optionEntries entries = [(key, v)] →
      IsNames v names → (∀ x, x ∈ names' ↔ x ∈ names) → r.policy = .ofNames names') ∧
    (id ≠ .functionArity → ((∃ r, Rule.ofConfig id c = .ok r) ↔ optionEntries entries = [])) := by
  -- the rule sees its options in the order of their keys; the statement is about the document's
  -- order
  obtain ⟨s, hs, hperm, hsorted⟩ := Config.section?_of_parse hdoc hparsed hrules hsection
  have hoptions : c.optionsOf id = s.options := by
    rw [Config.optionsOf, hs]
    rfl
  have hok : ∀ r, Rule.ofConfig id c = .ok r ↔
      ∃ policy, id.Accepts (optionEntries entries) policy ∧ r = ⟨id, .error, policy⟩ := by
    intro r
    rw [Rule.ofConfig_eq_ok_iff, hoptions]
    refine exists_congr fun policy => and_congr_left' ?_
    rw [RuleId.decodeOptions_eq_ok_iff hsorted]
    exact ⟨fun h => h.perm hperm, fun h => h.perm hperm.symm⟩
  refine ⟨hok, fun e => ?_, ?_, fun hid => ?_⟩
  · rw [Rule.ofConfig_eq_error_iff, hoptions]
    refine exists_congr fun cause => and_congr_left' ?_
    rw [RuleId.decodeOptions_eq_error_iff hsorted]
    exact RuleId.firstOffence_congr fun e => hperm.mem_iff
  · intro r hr key v names names' hentries hnames hsame
    obtain ⟨policy, haccepts, rfl⟩ := (hok r).1 hr
    rw [hentries] at haccepts
    cases haccepts with
    | policy _ hgives =>
      have hpolicy := policyOf_eq_ok_iff.2 hgives
      rw [policyOf_of_isNames hnames, SurplusPolicy.ofDistinct_eq_ok_iff] at hpolicy
      rw [SurplusPolicy.ofNames_congr hsame]
      exact hpolicy.2
  · rw [← RuleId.accepts_iff_eq_nil hid]
    simp only [hok]
    constructor
    · rintro ⟨r, policy, haccepts, -⟩
      exact ⟨policy, haccepts⟩
    · rintro ⟨policy, haccepts⟩
      exact ⟨_, policy, haccepts, rfl⟩

/-- The table under a key. -/
def tableUnder? (key : String) (entries : Table) : Option Table :=
  (entries.find? fun e => e.1 = key ∧ e.2.typeName = "table").bind (·.2.entries?)

/-- The table that is found under a key is among the entries. -/
theorem mem_of_tableUnder? {key : String} {entries inner : Table}
    (h : tableUnder? key entries = some inner) : (key, .table inner) ∈ entries := by
  obtain ⟨⟨key', v⟩, hfound, hinner⟩ := Option.bind_eq_some_iff.1 h
  have hhit := List.find?_some hfound
  simp only [decide_eq_true_eq] at hhit
  obtain ⟨rfl, htype⟩ := hhit
  have hmem := List.mem_of_find?_eq_some hfound
  cases v with
  | table entries' =>
    cases hinner
    exact hmem
  | _ => exact absurd htype (by simp [Value.typeName])

/-- Options under the other name next to a setting: the names are listed in their own order. -/
theorem Rule.ofConfig_of_parse_listed :
    ∃ c, Config.parse ("[rules.amd-function-arity]\nenabled = true\n" ++
        "allow_extra_dependencies = [\"b\", \"a\"]\n") = .ok c ∧
      Rule.ofConfig .functionArity c = .ok ⟨.functionArity, .error, .allowList ["a", "b"]⟩ := by
  -- the document is read once, and what the statement asks for is taken from it
  have hread : ((Toml.parse? ("[rules.amd-function-arity]\nenabled = true\n" ++
      "allow_extra_dependencies = [\"b\", \"a\"]\n")).bind fun doc =>
      (tableUnder? "rules" doc).bind fun sections =>
      (tableUnder? "amd-function-arity" sections).map fun entries =>
      (optionEntries entries).map fun e => (e.1, e.2.elements?.bind (·.mapM stringOf?))) =
      some [("allow_extra_dependencies", some ["b", "a"])] := by
    decide +kernel
  have hfits : (Config.parse ("[rules.amd-function-arity]\nenabled = true\n" ++
      "allow_extra_dependencies = [\"b\", \"a\"]\n")).isOk = true := by
    decide +kernel
  obtain ⟨doc, hdoc, hread⟩ := Option.bind_eq_some_iff.1 hread
  obtain ⟨sections, hsections, hread⟩ := Option.bind_eq_some_iff.1 hread
  obtain ⟨entries, hentries, hread⟩ := Option.map_eq_some_iff.1 hread
  obtain ⟨⟨key, v⟩, hoption, hread⟩ := List.map_eq_singleton_iff.1 hread
  obtain ⟨rfl, hnames⟩ := Prod.mk.inj hread
  have hgives : GivesPolicy v (.allowList ["a", "b"]) :=
    .names (isNames_iff.1 hnames) (by decide) (by decide) (by simp [or_comm])
  cases hparsed : Config.parse ("[rules.amd-function-arity]\nenabled = true\n" ++
      "allow_extra_dependencies = [\"b\", \"a\"]\n") with
  | error e =>
    rw [hparsed] at hfits
    cases hfits
  | ok c =>
    obtain ⟨hok, -⟩ := Rule.ofConfig_of_parse hdoc hparsed (mem_of_tableUnder? hsections)
      .functionArity (mem_of_tableUnder? hentries)
    refine ⟨c, rfl, (hok _).2 ⟨_, ?_, rfl⟩⟩
    rw [hoption]
    exact .policy (by decide) hgives

end LoaderLint
