import LoaderLint.Loader.Arity
import Mathlib.Data.List.DropRight
import Mathlib.Order.Bounds.Basic

/-!
# How many parameters are accepted

For given dependencies and a given policy the accepted numbers of parameters form an interval. It
ends at the number of dependencies. It begins behind the last dependency that the policy does not
spare, so the dependencies behind its lower end are the longest end of the list that is spared as a
whole.

The module introduces:

* `SurplusPolicy.spares` — the dependencies that a policy spares, one by one;
* `SurplusPolicy.required` — the least number of parameters that is accepted;
* `Verdict.judge?` — the comparison where slots behind the end of the list cannot be asked for.

The main result is `Verdict.judge_accepts_interval`.
-/

namespace LoaderLint

namespace SurplusPolicy

/-- Whether a dependency may go without a parameter if those behind it may. -/
def spares : SurplusPolicy → Option String → Bool
  | forbidden, _ => false
  | allowed, _ => true
  | allowList listed, some name => listed.contains name
  | allowList _, none => false

/-- The number of dependencies up to the last one that is not spared. -/
def required (p : SurplusPolicy) (names : List (Option String)) : ℕ :=
  (names.rdropWhile p.spares).length

/-- A list spares the dependencies whose name is listed. -/
theorem spares_allowList_iff {listed : List String} {slot : Option String} :
    (allowList listed).spares slot = true ↔ ∃ name ∈ listed, slot = some name := by
  cases slot with
  | none => simp [spares]
  | some name => simp [spares]

section

variable {p : SurplusPolicy} {names : List (Option String)}

/-- Dependencies are tolerated if each is spared. That there are none is not for the policy to
tolerate. -/
theorem tolerates_eq_all_spares (h : names ≠ []) : p.tolerates names = names.all p.spares := by
  cases p with
  | forbidden =>
    obtain ⟨slot, rest, rfl⟩ := List.exists_cons_of_ne_nil h
    rfl
  | allowed => simp [tolerates, spares]
  | allowList listed =>
    rw [tolerates]
    congr 1
    funext slot
    cases slot <;> rfl

/-- No more parameters are required than there are dependencies. -/
theorem required_le_length : p.required names ≤ names.length :=
  (List.rdropWhile_prefix _ _).length_le

/-- All dependencies from a place on are spared exactly if the place is not before the last one
that is not. -/
theorem all_spares_drop_iff {k : ℕ} :
    (names.drop k).all p.spares = true ↔ p.required names ≤ k := by
  -- the last dependency decides whether those before it matter
  induction names using List.reverseRecOn with
  | nil => simp [required]
  | append_singleton names slot ih =>
    have hle : p.required names ≤ names.length := required_le_length
    rw [List.drop_append, List.all_append, Bool.and_eq_true, ih]
    by_cases hslot : p.spares slot = true
    · have hrequired : p.required (names ++ [slot]) = p.required names := by
        rw [required, List.rdropWhile_concat_pos _ _ _ hslot, required]
      have hlast : ([slot].drop (k - names.length)).all p.spares = true :=
        List.all_eq_true.2 fun x hx => List.mem_singleton.1 (List.mem_of_mem_drop hx) ▸ hslot
      -- a spared dependency at the end changes neither side
      rw [hrequired]
      exact and_iff_left hlast
    · have hrequired : p.required (names ++ [slot]) = names.length + 1 := by
        rw [required, List.rdropWhile_concat_neg _ _ _ hslot, List.length_append,
          List.length_singleton]
      rw [hrequired]
      constructor
      · rintro ⟨-, hlast⟩
        by_contra hk
        have hzero : k - names.length = 0 := by omega
        rw [hzero, List.drop_zero, List.all_cons, List.all_nil, Bool.and_true] at hlast
        exact hslot hlast
      · intro hk
        refine ⟨by omega, ?_⟩
        rw [List.drop_of_length_le (by rw [List.length_singleton]; omega), List.all_nil]

/-- The spared dependencies at the end of a list are as many as stand behind the last one that is
not. -/
theorem isGreatest_spared (p : SurplusPolicy) (names : List (Option String)) :
    IsGreatest {n | ∃ tail, tail <:+ names ∧ (∀ slot ∈ tail, p.spares slot = true) ∧
      tail.length = n} (names.length - p.required names) := by
  constructor
  · refine ⟨names.drop (p.required names), List.drop_suffix _ _, ?_, List.length_drop⟩
    exact List.all_eq_true.1 (all_spares_drop_iff.2 le_rfl)
  · rintro n ⟨tail, htail, hspared, rfl⟩
    rw [List.suffix_iff_eq_drop.1 htail, ← List.all_eq_true, all_spares_drop_iff] at hspared
    have hle := htail.length_le
    omega

end

/-- Without surplus all dependencies are required. -/
@[simp]
theorem required_forbidden (names : List (Option String)) :
    forbidden.required names = names.length := by
  rw [required, List.rdropWhile_eq_self_iff.2 fun _ => Bool.false_ne_true]

/-- Where any surplus is allowed, nothing is required. -/
@[simp]
theorem required_allowed (names : List (Option String)) : allowed.required names = 0 := by
  have hall : ∀ slot ∈ names, allowed.spares slot = true := fun _ _ => rfl
  rw [required, List.rdropWhile_eq_nil_iff.2 hall, List.length_nil]

example : (allowList ["a", "c"]).required [some "a", some "b", some "c", some "a"] = 2 := by decide

end SurplusPolicy

namespace Verdict

variable {names : List (Option String)} {k : ℕ} {policy : SurplusPolicy}

/-- The slots of a list from a place on, which fails for a place behind the end. -/
def slotsFrom? (names : List (Option String)) (k : ℕ) : Option (List (Option String)) :=
  if k ≤ names.length then some (names.drop k) else none

/-- The comparison of dependencies and parameters, which fails if it asks for slots from a place
behind the end of the list. -/
def judge? (names : List (Option String)) (actual : ℕ) (policy : SurplusPolicy) : Option Verdict :=
  if names.length < actual then some (tooMany names.length actual)
  else if actual < names.length then do
    let unbound ← slotsFrom? names actual
    return if policy.tolerates unbound then ok else tooFew names.length actual
  else some ok

/-- The comparison never asks for slots behind the end of the list. -/
theorem judge?_eq_some_judge (names : List (Option String)) (actual : ℕ) (policy : SurplusPolicy) :
    judge? names actual policy = some (judge names actual policy) := by
  rw [judge?, judge]
  by_cases hmany : names.length < actual
  · rw [if_pos hmany, if_pos hmany]
  rw [if_neg hmany, if_neg hmany]
  by_cases hfew : actual < names.length
  · rw [if_pos hfew, slotsFrom?, if_pos hfew.le, Option.bind_eq_bind, Option.bind_some]
    cases policy.tolerates (names.drop actual) <;> simp [hfew]
  · rw [if_neg hfew, if_neg fun h => hfew h.1]

/-- The policy matters through the number of parameters that it requires. -/
theorem judge_eq_of_required (names : List (Option String)) (k : ℕ) (policy : SurplusPolicy) :
    judge names k policy =
      if names.length < k then tooMany names.length k
      else if k < policy.required names then tooFew names.length k
      else ok := by
  rw [judge]
  refine if_congr Iff.rfl rfl (if_congr ?_ rfl rfl)
  have hle : policy.required names ≤ names.length := SurplusPolicy.required_le_length
  have hspared : (names.drop k).all policy.spares = true ↔ policy.required names ≤ k :=
    SurplusPolicy.all_spares_drop_iff
  -- the policy is asked only if slots are left over, and then it decides slot by slot
  have htolerated (hfew : k < names.length) :
      policy.tolerates (names.drop k) = (names.drop k).all policy.spares :=
    SurplusPolicy.tolerates_eq_all_spares fun hnil => by
      rw [List.drop_eq_nil_iff] at hnil
      omega
  constructor
  · rintro ⟨hfew, hnot⟩
    rw [htolerated hfew, Bool.not_eq_true', ← Bool.not_eq_true, hspared] at hnot
    omega
  · intro hk
    have hfew : k < names.length := by omega
    refine ⟨hfew, ?_⟩
    rw [htolerated hfew, Bool.not_eq_true', ← Bool.not_eq_true, hspared]
    omega

/-- Accepted are the numbers from the required one to the number of dependencies. -/
theorem judge_eq_ok_iff :
    judge names k policy = ok ↔ policy.required names ≤ k ∧ k ≤ names.length := by
  rw [judge_eq_of_required]
  split
  · rename_i hmany
    simp [hmany]
  · split
    · rename_i hfew
      simp [hfew]
    · simp
      omega

/-- There are too few parameters exactly below the required number. -/
theorem judge_eq_tooFew_iff :
    judge names k policy = tooFew names.length k ↔ k < policy.required names := by
  have hle : policy.required names ≤ names.length := SurplusPolicy.required_le_length
  rw [judge_eq_of_required]
  split
  · simp
    omega
  · split
    · rename_i hfew
      simp [hfew]
    · rename_i hfew
      simp [hfew]

/-- There are too many parameters exactly above the number of dependencies. -/
theorem judge_eq_tooMany_iff :
    judge names k policy = tooMany names.length k ↔ names.length < k := by
  rw [judge_eq_of_required]
  split
  · rename_i hmany
    simp [hmany]
  · rename_i hmany
    split <;> simp [hmany]

/-- Names that are bound to parameters do not matter. -/
theorem judge_congr_drop {names' : List (Option String)} (hlength : names'.length = names.length)
    (hdrop : names'.drop k = names.drop k) : judge names' k policy = judge names k policy := by
  rw [judge, judge, hlength, hdrop]

/-- A slot without a name that is bound to no parameter is too much for a list of names. -/
theorem lt_required_of_none_mem {listed : List String} (h : none ∈ names.drop k) :
    k < (SurplusPolicy.allowList listed).required names := by
  by_contra hk
  have hspared := SurplusPolicy.all_spares_drop_iff.2 (not_lt.1 hk)
  exact absurd (List.all_eq_true.1 hspared none h) Bool.false_ne_true

/-- There is something to say only if the numbers differ, and both are said. -/
theorem message?_judge {message : String} (h : (judge names k policy).message? = some message) :
    names.length ≠ k ∧
      message = (if k < names.length then "Not enough" else "Too many") ++
        " parameters in callback (expected " ++ toString names.length ++ ", found " ++
        toString k ++ ")." := by
  have hcounts (word : String) : word ++ " parameters in callback " ++ counts names.length k =
      word ++ " parameters in callback (expected " ++ toString names.length ++ ", found " ++
        toString k ++ ")." := by
    simp only [counts, String.append_assoc]
    rfl
  unfold judge at h
  split at h
  · rename_i hmany
    rw [if_neg (Nat.lt_asymm hmany), ← hcounts]
    exact ⟨Nat.ne_of_lt hmany, (Option.some.inj h).symm⟩
  · split at h
    · rename_i hfew
      rw [if_pos hfew.1, ← hcounts]
      exact ⟨Nat.ne_of_gt hfew.1, (Option.some.inj h).symm⟩
    · cases h

/-- The accepted numbers of parameters are those from some `m` up to the number of dependencies.
There are too few below and too many above. All are needed if nothing is tolerated, none if
everything is, and all but the longest listed end of the dependencies if names are listed. What
stands before the unbound slots does not matter, an unbound slot without a name is never tolerated
by a list, and no slots behind the end are looked at. -/
theorem judge_accepts_interval (names : List (Option String)) (policy : SurplusPolicy) :
    ∃ m ≤ names.length,
      (∀ k, (judge names k policy = .ok ↔ m ≤ k ∧ k ≤ names.length) ∧
        (judge names k policy = .tooFew names.length k ↔ k < m) ∧
        (judge names k policy = .tooMany names.length k ↔ names.length < k)) ∧
      (policy = .forbidden → m = names.length) ∧
      (policy = .allowed → m = 0) ∧
      (∀ listed, policy = .allowList listed →
        IsGreatest {n | ∃ tail, tail <:+ names ∧
          (∀ slot ∈ tail, ∃ name ∈ listed, slot = some name) ∧ tail.length = n}
          (names.length - m)) ∧
      (∀ (names' : List (Option String)) (k : ℕ), names'.length = names.length →
        names'.drop k = names.drop k → judge names' k policy = judge names k policy) ∧
      (∀ listed k, policy = .allowList listed → none ∈ names.drop k →
        judge names k policy = .tooFew names.length k) ∧
      ∀ k, judge? names k policy = some (judge names k policy) := by
  refine ⟨policy.required names, SurplusPolicy.required_le_length,
    fun k => ⟨judge_eq_ok_iff, judge_eq_tooFew_iff, judge_eq_tooMany_iff⟩, ?_, ?_, ?_,
    fun names' k => judge_congr_drop, ?_, fun k => judge?_eq_some_judge names k policy⟩
  · rintro rfl
    exact SurplusPolicy.required_forbidden names
  · rintro rfl
    exact SurplusPolicy.required_allowed names
  · rintro listed rfl
    simpa only [SurplusPolicy.spares_allowList_iff] using
      SurplusPolicy.isGreatest_spared (.allowList listed) names
  · rintro listed k rfl hnone
    exact judge_eq_tooFew_iff.2 (lt_required_of_none_mem hnone)

end Verdict

end LoaderLint
