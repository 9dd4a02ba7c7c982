import LoaderLint.Proofs.DirectiveEffect
import LoaderLint.Proofs.FunctionArity
import LoaderLint.Proofs.ProgramLayout
import LoaderLint.Proofs.RuleSelection
import Mathlib.Data.List.Pairwise

/-!
# Findings that are reported more than once

Two findings are the same if they have the same code and the same location. One run of a rule
reports no finding twice: a rule asks for findings at anchors, and no two anchors of the tree of a
source cover the same stretch. Rules with different codes do not meet either. What is left is a
rule that runs more than once, which happens if a selection names it more than once, by its name or
by its code.

The module introduces:

* `Finding.key` — the code and the location of a finding.

The main result is `Analyzer.nodup_findings_iff`: each finding is reported as often as its rule is
selected, so that findings are repeated exactly if a rule that is selected more than once finds
something. `Analyzer.repeated_of_name_and_code` shows a selection that repeats a finding.
-/

namespace LoaderLint

open Script (Node Program Visit)

/-- What makes two findings the same: their code and their location. -/
def Finding.key (f : Finding) : String × Location := (f.code, f.location)

/-! ## The nodes of requests -/

/-- The callback of a loader call is a function. -/
theorem LoaderCall.isFunction_callback {call : Node} {shape : LoaderCall}
    (h : of? call = some shape) : shape.callback.kind.isFunction = true := by
  obtain ⟨loader, callee, s, -, -, -, -, hs⟩ := of?_eq_some_iff.1 h
  exact Node.isFunction_iff_isCallback.2 hs.isCallback

/-- A traversal stops at nodes of the tree. -/
theorem Script.Node.mem_nodes_of_mem_visits {root : Node} {v : Visit} (hv : v ∈ root.visits) :
    v.node ∈ root.nodes ∧ Visit.ofNode? v.node = some v := by
  rw [Node.visits_eq_filterMap_preorder] at hv
  obtain ⟨n, hn, hvisit⟩ := List.mem_filterMap.1 hv
  have hnode : v.node = n := by
    unfold Visit.ofNode? at hvisit
    split at hvisit
    · cases hvisit
      rfl
    · cases hvisit
      rfl
    · cases hvisit
      rfl
    · cases hvisit
      rfl
    · cases hvisit
  rw [hnode]
  exact ⟨root.preorder_sublist_nodes.subset hn, hvisit⟩

/-- The kind of a stop tells which anchor it is. A declarator is one if it declares a plain
name. -/
theorem isAnchor_of_ofNode? {n : Node} {v : Visit} (hv : Visit.ofNode? n = some v)
    (hassigns : ∀ m, v = .declarator m → assignsLoader v = true) : n.IsAnchor := by
  unfold Visit.ofNode? at hv
  split at hv
  · rename_i hkind
    exact .inl (by rw [hkind]; rfl)
  · -- a declarator: only a plain name has the name of the loader
    rename_i hkind
    cases hv
    refine .inr ⟨hkind, ?_⟩
    have hname : (n.field .name).bind Node.identifierName = some "require" :=
      of_decide_eq_true (hassigns n rfl)
    obtain ⟨name, hfield, hidentifier⟩ := Option.bind_eq_some_iff.1 hname
    refine ⟨name, hfield, ?_⟩
    by_contra hne
    rw [Node.identifierName, if_neg hne] at hidentifier
    cases hidentifier
  · rename_i hkind
    exact .inl (by rw [hkind]; rfl)
  · rename_i hkind
    exact .inl (by rw [hkind]; rfl)
  · cases hv

/-- The rules ask for findings at anchors of the tree. -/
theorem Rule.isAnchor_of_mem_requests {r : Rule} {s : Subject} {q : Request}
    (hq : q ∈ r.requests s) : q.node ∈ s.root.nodes ∧ q.node.IsAnchor := by
  obtain ⟨v, hv, hrequest⟩ := List.mem_filterMap.1 hq
  obtain ⟨hmem, hstop⟩ := Node.mem_nodes_of_mem_visits hv
  unfold request? at hrequest
  split at hrequest
  · -- the callback of a call is a node below the call
    rename_i call _
    obtain ⟨shape, hshape, hnode⟩ := arityRequest?_node hrequest
    obtain ⟨above, hcall⟩ := Node.mem_nodes_iff_exists_ancestry.1 hmem
    obtain ⟨parens, list, hancestry, -, -⟩ :=
      exists_ancestry_argument hcall (LoaderCall.mem_arguments_of_of? hshape).2
    rw [hnode]
    refine ⟨Node.mem_nodes_iff_exists_ancestry.2 ⟨_, hancestry⟩, .inl ?_⟩
    have hfunction := LoaderCall.isFunction_callback hshape
    unfold Script.Kind.isFunction at hfunction
    split at hfunction
    · rename_i hkind
      rw [hkind]
      rfl
    · rename_i hkind
      rw [hkind]
      rfl
    · cases hfunction
  · rename_i call _
    unfold namedDefineRequest? at hrequest
    split at hrequest
    · cases hrequest
      exact ⟨hmem, isAnchor_of_ofNode? hstop nofun⟩
    · cases hrequest
  · unfold assignRequireRequest? at hrequest
    split at hrequest
    · rename_i hassigns
      cases hrequest
      exact ⟨hmem, isAnchor_of_ofNode? hstop fun _ _ => hassigns⟩
    · cases hrequest
  · cases hrequest

/-! ## One run of a rule -/

/-- Nodes that do not cover the same text have different places. -/
theorem Location.ofNode_ne_of_apart {n m : Node} (h : n.Apart m) (file : Path) :
    ofNode file n ≠ ofNode file m := by
  intro heq
  simp only [ofNode, Location.mk.injEq] at heq
  obtain ⟨-, -, -, hoffset, hlength⟩ := heq
  exact h hoffset hlength

/-- In the tree of a source, different anchors are at different locations. -/
theorem Script.Node.apart_of_id_ne {cs : List Char} {root n m : Node} (hlaid : root.LaidOut cs)
    (hn : n ∈ root.nodes) (hm : m ∈ root.nodes) (hnAnchor : n.IsAnchor) (hmAnchor : m.IsAnchor)
    (hne : n.id ≠ m.id) : n.Apart m := by
  have hsymm : Std.Symm fun x y : Node => x.IsAnchor → y.IsAnchor → x.Apart y :=
    ⟨fun x y h hy hx => (h hx hy).symm⟩
  have hdifferent : n ≠ m := fun heq => hne (congrArg Node.id heq)
  exact hlaid.pairwise_anchors.forall hn hm hdifferent hnAnchor hmAnchor

/-- What becomes of a request has the code of the rule and the location of the node. -/
theorem Request.key_of_outcome {p : Profile} {s : Subject} {q : Request} {f : Finding}
    (h : q.outcome p s = some f) : f.key = (p.code, .ofNode s.file q.node) := by
  rcases eq_of_outcome h with rfl | rfl
  · rfl
  · rfl

namespace Sink

variable {p : Profile} {s : Subject}

/-- Each finding of a run comes from one of its requests. -/
theorem exists_request_of_mem_findings {rs : List Request} {f : Finding}
    (hf : f ∈ (reportAll p s rs).findings) :
    ∃ q ∈ rs, f.key = (p.code, .ofNode s.file q.node) := by
  obtain ⟨q, hq, houtcome⟩ := exists_outcome_of_mem_findings hf
  exact ⟨q, hq, Request.key_of_outcome houtcome⟩

/-- A run in which different nodes have different locations reports no finding twice. -/
theorem nodup_keys_reportAll {rs : List Request}
    (h : ∀ q ∈ rs, ∀ r ∈ rs, q.node.id ≠ r.node.id →
      Location.ofNode s.file q.node ≠ Location.ofNode s.file r.node) :
    ((reportAll p s rs).findings.map Finding.key).Nodup := by
  induction rs using List.reverseRecOn with
  | nil => simp [reportAll, empty]
  | append_singleton rs r ih =>
    have hrest := ih fun q hq q' hq' =>
      h q (List.mem_append_left _ hq) q' (List.mem_append_left _ hq')
    rw [findings_reportAll_append]
    split
    · rwa [List.append_nil]
    · rename_i hnew
      rw [List.map_append, List.nodup_append']
      refine ⟨hrest, ?_, ?_⟩
      · cases r.outcome p s <;> simp
      · -- an earlier finding is at another node, so it is at another location
        intro key hkey hlast
        obtain ⟨f, hf, rfl⟩ := List.mem_map.1 hkey
        obtain ⟨g, hg, hsame⟩ := List.mem_map.1 hlast
        obtain ⟨q, hq, hkeyOf⟩ := exists_request_of_mem_findings hf
        rw [Request.key_of_outcome (Option.mem_toList.1 hg), hkeyOf, Prod.mk.injEq] at hsame
        have hne : q.node.id ≠ r.node.id := fun heq => hnew ⟨q, hq, heq⟩
        exact h q (List.mem_append_left _ hq) r (by simp) hne hsame.2.symm

end Sink

namespace Rule

variable {r : Rule} {s : Subject} {c : Config}

/-- One run of a rule over the tree of a source reports no finding twice. -/
theorem nodup_keys_check {cs : List Char} (hlaid : s.root.LaidOut cs) (r : Rule) :
    ((r.check s).map Finding.key).Nodup := by
  refine Sink.nodup_keys_reportAll fun q hq q' hq' hne => Location.ofNode_ne_of_apart ?_ s.file
  obtain ⟨hnode, hanchor⟩ := isAnchor_of_mem_requests hq
  obtain ⟨hnode', hanchor'⟩ := isAnchor_of_mem_requests hq'
  exact Node.apart_of_id_ne hlaid hnode hnode' hanchor hanchor' hne

/-- All findings of a rule have its code. -/
theorem code_of_mem_check {f : Finding} (hf : f ∈ r.check s) : f.code = r.id.code := by
  obtain ⟨q, -, hkey⟩ := Sink.exists_request_of_mem_findings hf
  exact congrArg Prod.fst hkey

/-- A configured severity changes neither codes nor locations. -/
theorem keys_configuredCheck : (r.configuredCheck c s).map Finding.key =
    (r.check s).map Finding.key := by
  rw [configuredCheck_eq_map, List.map_map]
  rfl

end Rule

/-! ## Selections -/

/-- Rules of a selection are told apart by which rule they are. -/
theorem eq_of_id_eq_of_selectNamed {names : List String} {c : Config} {rules : List Rule}
    {r r' : Rule} (h : selectNamed names c = .ok rules) (hr : r ∈ rules) (hr' : r' ∈ rules)
    (hid : r.id = r'.id) : r = r' := by
  have hbuilt := (selectNamed_eq_ok_iff.1 h).ofConfig_eq
  have hsame := hbuilt r hr
  rw [hid, hbuilt r' hr'] at hsame
  exact (Except.ok.inj hsame).symm

/-! ## Analyses -/

namespace Analyzer

/-- If an item is found by the rules that are `id`, once by each of them, it is found as often as
there are such rules. -/
theorem count_flatMap_of_id {β : Type} [BEq β] {rules : List Rule} {found : Rule → List β}
    {id : RuleId} {item : β}
    (h : ∀ r ∈ rules, (found r).count item = if r.id = id then 1 else 0) :
    (rules.flatMap found).count item = (rules.map Rule.id).count id := by
  induction rules with
  | nil => rfl
  | cons r rest ih =>
    obtain ⟨hr, hrest⟩ := List.forall_mem_cons.1 h
    rw [List.flatMap_cons, List.count_append, ih hrest, hr, List.map_cons, List.count_cons]
    simp only [beq_iff_eq]
    omega

/-- The rules that are left on are chosen by which rule they are. -/
theorem count_id_activeRules {a : Analyzer} {id : RuleId} (h : a.config.isEnabled id.name = true) :
    (a.activeRules.map Rule.id).count id = (a.rules.map Rule.id).count id := by
  have hfilter : a.activeRules.map Rule.id =
      (a.rules.map Rule.id).filter fun id => a.config.isEnabled id.name := by
    rw [List.filter_map]
    rfl
  rw [hfilter]
  exact List.count_filter h

variable {names : List String} {c : Config} {a : Analyzer} {path : Path} {p : Program}

/-- The keys of findings do not depend on the configured severities. -/
theorem keys_findings (a : Analyzer) (path : Path) (p : Program) :
    (a.findings path p).map Finding.key =
      a.activeRules.flatMap fun r => (r.check (.of path a.root p)).map Finding.key := by
  rw [findings, List.map_flatMap]
  simp only [Rule.keys_configuredCheck]

/-- A finding is reported as often as its rule is selected. -/
theorem count_key_of_mem_findings {cs : List Char} {f : Finding} (hlaid : p.root.LaidOut cs)
    (hrules : selectNamed names c = .ok a.rules) (hf : f ∈ a.findings path p) :
    ∃ id : RuleId, id.code = f.code ∧ ((a.findings path p).map Finding.key).count f.key =
      (names.filterMap RuleId.ofName?).count id := by
  have hkey : f.key ∈ (a.findings path p).map Finding.key := List.mem_map_of_mem hf
  rw [keys_findings, List.mem_flatMap] at hkey
  obtain ⟨r, hr, hkey⟩ := hkey
  obtain ⟨hmem, henabled⟩ := List.mem_filter.1 hr
  have hcode : ∀ r' : Rule, f.key ∈ (r'.check (.of path a.root p)).map Finding.key →
      r'.id.code = f.code := by
    intro r' hr'
    obtain ⟨g, hg, hsame⟩ := List.mem_map.1 hr'
    rw [← Rule.code_of_mem_check hg]
    exact congrArg Prod.fst hsame
  refine ⟨r.id, hcode r hkey, ?_⟩
  rw [← (selectNamed_eq_ok_iff.1 hrules).map_id, ← count_id_activeRules henabled, keys_findings]
  refine count_flatMap_of_id fun r' hr' => ?_
  -- each copy of the rule finds it once, and no other rule does
  split
  · rename_i hid
    obtain rfl := eq_of_id_eq_of_selectNamed hrules (List.mem_filter.1 hr').1 hmem hid
    exact List.count_eq_one_of_mem (Rule.nodup_keys_check hlaid r') hkey
  · rename_i hid
    refine List.count_eq_zero_of_not_mem fun hkey' => hid (RuleId.code_injective ?_)
    rw [hcode r' hkey', hcode r hkey]

/-- How often findings are reported. Each finding is reported as often as the selection names its
rule, by name or by code. So no finding is reported twice exactly if the rules that the selection
names more than once find nothing. -/
theorem nodup_findings_iff {source : String} {found : List Finding}
    (hrules : selectNamed names c = .ok a.rules) (hfound : a.lint? path source = some found) :
    (∀ f ∈ found, ∃ id : RuleId, id.code = f.code ∧
      (found.map Finding.key).count f.key = (names.filterMap RuleId.ofName?).count id) ∧
    ((found.map Finding.key).Nodup ↔
      ∀ id : RuleId, 2 ≤ (names.filterMap RuleId.ofName?).count id →
        ∀ f ∈ found, f.code ≠ id.code) := by
  obtain ⟨p, hp, rfl⟩ := Option.map_eq_some_iff.1 hfound
  have hcount : ∀ f ∈ a.findings path p, ∃ id : RuleId, id.code = f.code ∧
      ((a.findings path p).map Finding.key).count f.key =
        (names.filterMap RuleId.ofName?).count id :=
    fun f => count_key_of_mem_findings (Program.laidOut_of_parse? hp) hrules
  refine ⟨hcount, ?_⟩
  rw [List.nodup_iff_count_le_one]
  constructor
  · -- a finding of a rule that is selected twice would be counted twice
    intro honce id htwice f hf hcode
    obtain ⟨id', hcode', hsame⟩ := hcount f hf
    obtain rfl := RuleId.code_injective (hcode'.trans hcode)
    have hle := honce f.key
    omega
  · intro hnothing key
    by_cases hkey : key ∈ (a.findings path p).map Finding.key
    · obtain ⟨f, hf, rfl⟩ := List.mem_map.1 hkey
      obtain ⟨id, hcode, hsame⟩ := hcount f hf
      by_contra hlt
      exact hnothing id (by omega) f hf hcode.symm
    · rw [List.count_eq_zero_of_not_mem hkey]
      exact Nat.zero_le 1

/-- A selection that names one rule twice and another one once. The rule that is named twice finds
nothing, so the finding of the other one is reported once. -/
theorem nodup_findings_iff_silent :
    let names := ["AMD001", "no-named-define", "amd-function-arity", "no-such-rule"]
    let a : Analyzer := ⟨⟨"/p"⟩, [.default .functionArity, .default .namedDefine,
      .default .functionArity], [], [], [], {}, false⟩
    let source := "define('x', \x7b\x7d);\n"
    let finding : Finding := ⟨"AMD002", "no-named-define", .error, ⟨⟨"m.js"⟩, 1, 1, 0, 15⟩,
      "Named module form of `define` is not allowed", none, [], false⟩
    selectNamed names {} = .ok a.rules ∧ a.lint? ⟨"/p/m.js"⟩ source = some [finding] ∧
      ([finding].map Finding.key).Nodup := by
  intro names a source finding
  have hrules : selectNamed names {} = .ok a.rules := by rfl
  have hfound : a.lint? ⟨"/p/m.js"⟩ source = some [finding] := by decide +kernel
  refine ⟨hrules, hfound, (nodup_findings_iff hrules hfound).2.2 fun id htwice f hf => ?_⟩
  have hid : id = .functionArity := by
    revert htwice
    cases id <;> decide
  rw [List.mem_singleton.1 hf, hid]
  decide

/-- A rule that is selected by its name and by its code reports its finding twice. -/
theorem repeated_of_name_and_code :
    let a : Analyzer :=
      ⟨⟨"/p"⟩, [.default .namedDefine, .default .namedDefine], [], [], [], {}, false⟩
    selectNamed ["AMD002", "no-named-define"] {} = .ok a.rules ∧
      ∃ found, a.lint? ⟨"/p/test.js"⟩ "define('x', \x7b\x7d);\n" = some found ∧
        ¬(found.map Finding.key).Nodup := by
  intro a
  refine ⟨by rfl, ?_⟩
  have hkeys : (a.lint? ⟨"/p/test.js"⟩ "define('x', \x7b\x7d);\n").map
      (fun found => decide (found.map Finding.key).Nodup) = some false := by
    decide +kernel
  obtain ⟨found, hfound, hrepeated⟩ := Option.map_eq_some_iff.1 hkeys
  exact ⟨found, hfound, of_decide_eq_false hrepeated⟩

end Analyzer

end LoaderLint
