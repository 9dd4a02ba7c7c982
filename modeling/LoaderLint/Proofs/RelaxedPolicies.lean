import LoaderLint.Proofs.FunctionArity
import Mathlib.Order.Basic

/-!
# Relaxing the policy for surplus dependencies

Policies are ordered by what they tolerate: none tolerates least, then come lists of names by
inclusion, and the one that tolerates everything is the greatest. A greater policy turns some
verdicts of too few parameters into acceptance and changes no other verdict.

The module introduces:

* the order of policies;
* `arityVerdict?` — the verdict on a call;
* `arityOutcome?` — what becomes of a call in a file, directives included.

What becomes of a call does not depend on the other calls (`Rule.check_eq_filterMap_outcome`), so
two runs of the rule under different policies can be compared call by call. The main result is
`Rule.check_sublist_of_relaxed`: under a greater policy findings disappear, and only those of calls
with too few parameters.
-/

namespace LoaderLint

open Script (Node)

/-! ## The order of policies -/

namespace SurplusPolicy

/-- `p` tolerates no more than `q`. -/
inductive AtMost : SurplusPolicy → SurplusPolicy → Prop
  | forbidden (q : SurplusPolicy) : AtMost .forbidden q
  | allowList {listed more : List String} :
      listed ⊆ more → AtMost (.allowList listed) (.allowList more)
  | allowed (p : SurplusPolicy) : AtMost p .allowed

/-- Policies by what they tolerate. -/
instance : Preorder SurplusPolicy where
  le := AtMost
  le_refl p := by
    cases p with
    | forbidden => exact .forbidden _
    | allowed => exact .allowed _
    | allowList listed => exact .allowList fun _ h => h
  le_trans p q r hpq hqr := by
    cases hpq with
    | forbidden => exact .forbidden r
    | allowed =>
      cases hqr
      exact .allowed p
    | allowList hsub =>
      cases hqr with
      | allowList hsub' => exact .allowList fun _ h => hsub' (hsub h)
      | allowed => exact .allowed _

/-- A greater policy tolerates what a smaller one does. -/
theorem tolerates_of_le {p q : SurplusPolicy} (h : p ≤ q) {names : List (Option String)}
    (hp : p.tolerates names = true) : q.tolerates names = true := by
  cases h with
  | forbidden => cases hp
  | allowed => rfl
  | @allowList listed more hsub =>
    rw [tolerates, List.all_eq_true] at hp ⊢
    intro slot hslot
    have hlisted := hp slot hslot
    cases slot with
    | none => cases hlisted
    | some name =>
      rw [List.contains_iff_mem] at hlisted ⊢
      exact hsub hlisted

end SurplusPolicy

/-! ## Verdicts -/

namespace Verdict

variable {names : List (Option String)} {actual expected found : ℕ} {p q : SurplusPolicy}

/-- A greater policy gives the same verdict, or accepts where the smaller one finds too few
parameters. -/
theorem judge_of_le (h : p ≤ q) :
    judge names actual q = judge names actual p ∨
      judge names actual p = .tooFew names.length actual ∧ judge names actual q = .ok := by
  unfold judge
  by_cases hmany : names.length < actual
  · simp [hmany]
  by_cases htolerated : p.tolerates (names.drop actual) = true
  · -- what `p` tolerates, `q` tolerates too, so both accept
    simp [hmany, htolerated, SurplusPolicy.tolerates_of_le h htolerated]
  · by_cases hfew : actual < names.length
    · by_cases htolerated' : q.tolerates (names.drop actual) = true
      · exact .inr (by simp [hmany, hfew, htolerated, htolerated'])
      · exact .inl (by simp [hmany, hfew, htolerated, htolerated'])
    · exact .inl (by simp [hmany, hfew])

/-- That there are too many parameters does not depend on the policy. -/
theorem judge_of_tooMany (h : judge names actual p = .tooMany expected found) :
    judge names actual q = .tooMany expected found := by
  unfold judge at h ⊢
  split at h
  · rename_i hmany
    rw [if_pos hmany, h]
  · split at h <;> cases h

end Verdict

/-- The verdict on a call; nothing if it is no loader call or if its dependencies are not known. -/
def arityVerdict? (policy : SurplusPolicy) (call : Node) : Option Verdict := do
  let shape ← LoaderCall.of? call
  match Dependencies.of shape.dependencies with
  | .known names => return .judge names shape.callback.parameters.length policy
  | .unknown => none

section Calls

variable {p q : SurplusPolicy} {call : Node}

/-- What a call has to do with policies: nothing, or it has dependencies and parameters that they
judge, and the request follows the verdict. -/
theorem arityVerdict?_cases (call : Node) :
    (∀ policy, arityVerdict? policy call = none ∧ arityRequest? policy call = none) ∨
      ∃ (names : List (Option String)) (actual : ℕ) (request : String → Request), ∀ policy,
        arityVerdict? policy call = some (.judge names actual policy) ∧
          arityRequest? policy call =
            (Verdict.judge names actual policy).message?.map request := by
  unfold arityVerdict? arityRequest?
  cases LoaderCall.of? call with
  | none => exact .inl fun _ => ⟨rfl, rfl⟩
  | some shape =>
    simp only [Option.bind_eq_bind, Option.bind_some]
    cases Dependencies.of shape.dependencies with
    | unknown => exact .inl fun _ => ⟨rfl, rfl⟩
    | known names =>
      refine .inr ⟨names, shape.callback.parameters.length, fun message =>
        ⟨shape.callback, message, some (shape.dependencies, countCaption names.length)⟩,
        fun policy => ⟨rfl, ?_⟩⟩
      exact Option.map_eq_bind.symm

/-- The request at a call depends on the policy through the verdict only. -/
theorem arityRequest?_congr (h : arityVerdict? q call = arityVerdict? p call) :
    arityRequest? q call = arityRequest? p call := by
  rcases arityVerdict?_cases call with hnone | ⟨names, actual, request, hjudged⟩
  · rw [(hnone q).2, (hnone p).2]
  · rw [(hjudged q).1, (hjudged p).1, Option.some.injEq] at h
    rw [(hjudged q).2, (hjudged p).2, h]

/-- Nothing is asked for at a call that fits. -/
theorem arityRequest?_of_ok (h : arityVerdict? q call = some .ok) :
    arityRequest? q call = none := by
  rcases arityVerdict?_cases call with hnone | ⟨names, actual, request, hjudged⟩
  · exact (hnone q).2
  · rw [(hjudged q).1, Option.some.injEq] at h
    rw [(hjudged q).2, h]
    rfl

/-- A greater policy gives a call the same verdict, or accepts it where the smaller one finds too
few parameters. -/
theorem arityVerdict?_of_le (h : p ≤ q) :
    arityVerdict? q call = arityVerdict? p call ∨
      (∃ expected actual, arityVerdict? p call = some (.tooFew expected actual)) ∧
        arityVerdict? q call = some .ok := by
  rcases arityVerdict?_cases call with hnone | ⟨names, actual, request, hjudged⟩
  · exact .inl ((hnone q).1.trans (hnone p).1.symm)
  · rw [(hjudged q).1, (hjudged p).1]
    rcases Verdict.judge_of_le h with hsame | ⟨hfew, hok⟩
    · exact .inl (congrArg some hsame)
    · exact .inr ⟨⟨_, _, congrArg some hfew⟩, congrArg some hok⟩

/-- That a call has too many parameters does not depend on the policy. -/
theorem arityVerdict?_of_tooMany {expected actual : ℕ}
    (h : arityVerdict? p call = some (.tooMany expected actual)) :
    arityVerdict? q call = some (.tooMany expected actual) := by
  rcases arityVerdict?_cases call with hnone | ⟨names, found, request, hjudged⟩
  · rw [(hnone p).1] at h
    cases h
  · rw [(hjudged p).1, Option.some.injEq] at h
    rw [(hjudged q).1, Verdict.judge_of_tooMany h]

end Calls

/-- What becomes of a call in a file: the finding it deserves, a warning where a directive lacks
its reason, or nothing. -/
def arityOutcome? (severity : Severity) (policy : SurplusPolicy) (s : Subject) (call : Node) :
    Option Finding :=
  (arityRequest? policy call).bind
    (Request.outcome (Rule.mk .functionArity severity policy).profile s)

/-! ## Two runs of the rule -/

namespace Rule

/-- Where numbers are unique, the rule finds what becomes of the calls, one by one. -/
theorem check_eq_filterMap_outcome (severity : Severity) (policy : SurplusPolicy) {s : Subject}
    (hids : s.root.UniqueIds) :
    (Rule.mk .functionArity severity policy).check s =
      s.root.calls.filterMap (arityOutcome? severity policy s) := by
  rw [check, Sink.findings_reportAll_of_nodup _ _ (nodup_requests_functionArity _ _ hids),
    requests_functionArity, List.filterMap_filterMap]
  rfl

end Rule

/-- A greater policy makes the same of a call, or nothing where the smaller one finds too few
parameters. -/
theorem arityOutcome?_of_le {p q : SurplusPolicy} (h : p ≤ q) (severity : Severity) (s : Subject)
    (call : Node) :
    arityOutcome? severity q s call = arityOutcome? severity p s call ∨
      (∃ expected actual, arityVerdict? p call = some (.tooFew expected actual)) ∧
        arityOutcome? severity q s call = none := by
  rcases arityVerdict?_of_le h with hsame | ⟨hfew, hok⟩
  · left
    rw [arityOutcome?, arityOutcome?, arityRequest?_congr hsame]
    rfl
  · right
    refine ⟨hfew, ?_⟩
    rw [arityOutcome?, arityRequest?_of_ok hok, Option.bind_none]

/-- Selecting from the same list, a function that answers no more often selects a sublist. -/
theorem filterMap_sublist_filterMap {α β : Type} {f g : α → Option β} {l : List α}
    (h : ∀ a ∈ l, f a = g a ∨ f a = none) : (l.filterMap f).Sublist (l.filterMap g) := by
  induction l with
  | nil => exact List.Sublist.refl _
  | cons a rest ih =>
    have hrest := ih fun b hb => h b (List.mem_cons_of_mem a hb)
    rw [List.filterMap_cons, List.filterMap_cons]
    rcases h a List.mem_cons_self with heq | hnone
    · rw [heq]
      cases g a with
      | none => exact hrest
      | some b => exact hrest.cons_cons b
    · rw [hnone]
      cases g a with
      | none => exact hrest
      | some b => exact hrest.cons b

namespace Rule

/-- Relaxing the policy only removes findings of surplus dependencies. Whatever directives the file
has, the findings under the greater policy are a sublist of those under the smaller one. The rule
finds what becomes of the calls in their order; a call of which the two policies make different
things has too few parameters under the smaller one and nothing becomes of it under the greater
one; and a call with too many parameters has one outcome under all policies. -/
theorem check_sublist_of_relaxed {p q : SurplusPolicy} (hpq : p ≤ q) (severity : Severity)
    (s : Subject) (hids : s.root.UniqueIds) :
    ((Rule.mk .functionArity severity q).check s).Sublist
        ((Rule.mk .functionArity severity p).check s) ∧
      (∀ policy, (Rule.mk .functionArity severity policy).check s =
        s.root.calls.filterMap (arityOutcome? severity policy s)) ∧
      (∀ call ∈ s.root.calls,
        arityOutcome? severity q s call ≠ arityOutcome? severity p s call →
          (∃ expected actual, arityVerdict? p call = some (.tooFew expected actual)) ∧
            arityOutcome? severity q s call = none) ∧
      ∀ call ∈ s.root.calls, ∀ policy expected actual,
        arityVerdict? policy call = some (.tooMany expected actual) →
          ∀ other, arityVerdict? other call = some (.tooMany expected actual) ∧
            arityOutcome? severity other s call = arityOutcome? severity policy s call := by
  refine ⟨?_, fun policy => check_eq_filterMap_outcome severity policy hids, ?_, ?_⟩
  · -- call by call the greater policy makes the same of it, or nothing
    rw [check_eq_filterMap_outcome severity q hids, check_eq_filterMap_outcome severity p hids]
    refine filterMap_sublist_filterMap fun call _ => ?_
    exact (arityOutcome?_of_le hpq severity s call).imp_right And.right
  · intro call _ hne
    exact (arityOutcome?_of_le hpq severity s call).resolve_left hne
  · intro call _ policy expected actual hmany other
    have hother := arityVerdict?_of_tooMany (q := other) hmany
    refine ⟨hother, ?_⟩
    rw [arityOutcome?, arityOutcome?, arityRequest?_congr (hother.trans hmany.symm)]
    rfl

/-- Two calls without parameters, the second with a directive that lacks its reason. A list with
the dependency of the first call removes its finding and leaves the warning at the second call. -/
theorem check_sublist_of_relaxed_listed :
    let source := "require('a', function () \x7b\x7d);\nrequire('b', function () \x7b\x7d);" ++
      " // amd-lint: allow(all)\n"
    let finding : Finding := ⟨"AMD001", "amd-function-arity", .error, ⟨⟨"m.js"⟩, 1, 14, 13, 14⟩,
      "Not enough parameters in callback (expected 1, found 0).", none,
      [⟨⟨⟨"m.js"⟩, 1, 9, 8, 3⟩, "1 dependency declared here"⟩], false⟩
    let warning : Finding := ⟨"AMD001", "amd-function-arity", .warning, ⟨⟨"m.js"⟩, 2, 14, 43, 14⟩,
      "Allow directive for 'amd-function-arity' is missing required reason",
      some "Add reason=\"...\" to explain why this exception is necessary", [], true⟩
    ∃ program, Script.Program.parse? source = some program ∧ program.root.UniqueIds ∧
      SurplusPolicy.forbidden ≤ SurplusPolicy.ofNames ["a"] ∧
      (Rule.mk .functionArity .error (.ofNames ["a"])).check
        ⟨⟨"m.js"⟩, source, program.root⟩ = [warning] ∧
      (Rule.mk .functionArity .error .forbidden).check
        ⟨⟨"m.js"⟩, source, program.root⟩ = [finding, warning] := by
  intro source finding warning
  have houtcomes : (Script.Program.parse? source).map (fun program =>
      let outcomes policy := program.root.calls.filterMap
        (arityOutcome? .error policy ⟨⟨"m.js"⟩, source, program.root⟩)
      (outcomes (.ofNames ["a"]), outcomes .forbidden)) =
        some ([warning], [finding, warning]) := by
    decide +kernel
  obtain ⟨program, hprogram, hpair⟩ := Option.map_eq_some_iff.1 houtcomes
  have hids := Script.Program.uniqueIds_of_parse? hprogram
  have hle : SurplusPolicy.forbidden ≤ SurplusPolicy.ofNames ["a"] := .forbidden _
  have hcheck := (check_sublist_of_relaxed hle .error ⟨⟨"m.js"⟩, source, program.root⟩ hids).2.1
  refine ⟨program, hprogram, hids, hle, ?_, ?_⟩
  · rw [hcheck]
    exact congrArg Prod.fst hpair
  · rw [hcheck]
    exact congrArg Prod.snd hpair

end Rule

end LoaderLint
