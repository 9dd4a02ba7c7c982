import LoaderLint.Proofs.CallShapes
import LoaderLint.Proofs.ReportSink
import LoaderLint.Rule

/-!
# The rule about parameters of callbacks

The rule asks for a finding at the callback of each loader call that does not fit, and a node gets
at most one finding. No two calls share a callback: above a callback stand parentheses, the
argument list and the call, so the ancestors of the callback tell which call it belongs to. Where
numbers are unique, the number of the callback does.

The module introduces:

* `arityFinding?` — the finding that a call deserves by the shape of its arguments, its
  dependencies and the parameters of its callback.

The main result is `Rule.check_functionArity`: the rule finds exactly what the calls of the tree
deserve, call by call in pre-order.
-/

namespace LoaderLint

open Script (Node Visit)

/-- The finding that a call deserves. Only a loader call whose dependencies are known can deserve
one; it is at the callback, with one label at the dependencies that says how many there are. -/
def arityFinding? (severity : Severity) (policy : SurplusPolicy) (file : Path) (call : Node) :
    Option Finding :=
  match LoaderCall.of? call with
  | none => none
  | some shape =>
    match Dependencies.of shape.dependencies with
    | .unknown => none
    | .known names =>
      let finding (message : String) : Finding := {
        code := "AMD001"
        rule := "amd-function-arity"
        severity
        location := .ofNode file shape.callback
        message
        suggestion := none
        labels := [⟨.ofNode file shape.dependencies, countCaption names.length⟩]
        locked := false }
      match Verdict.judge names shape.callback.parameters.length policy with
      | .ok => none
      | .tooFew expected actual =>
        some (finding ("Not enough parameters in callback (expected " ++ toString expected ++
          ", found " ++ toString actual ++ ")."))
      | .tooMany expected actual =>
        some (finding ("Too many parameters in callback (expected " ++ toString expected ++
          ", found " ++ toString actual ++ ")."))

/-! ## The call of a callback -/

/-- Above an argument of a call stand parentheses, the argument list and the call. -/
theorem exists_ancestry_argument {root call arg : Node} {above : List Node}
    (hcall : root.Ancestry call above) (harg : arg ∈ call.arguments) :
    ∃ parens list, root.Ancestry arg (parens ++ list :: call :: above) ∧
      (∀ p ∈ parens, p.kind = .parenthesized) ∧ list.kind = .arguments := by
  unfold Node.arguments at harg
  split at harg
  · rename_i list hlist
    split at harg
    · rename_i hkind
      obtain ⟨inner, hinner, rfl⟩ := List.mem_map.1 harg
      have hchild : inner ∈ list.children := (List.mem_filter.1 (List.mem_filter.1 hinner).1).1
      have hlistAncestry := hcall.child (List.mem_of_find?_eq_some hlist)
      obtain ⟨parens, hparens, hkinds⟩ := (hlistAncestry.child hchild).unparenthesized
      exact ⟨parens, list, hparens, hkinds, hkind⟩
    · cases harg
  · cases harg

namespace LoaderCall

/-- The dependencies and the callback of a loader call are arguments of it. -/
theorem mem_arguments_of_of? {call : Node} {shape : LoaderCall} (h : of? call = some shape) :
    shape.dependencies ∈ call.arguments ∧ shape.callback ∈ call.arguments := by
  obtain ⟨loader, callee, s, -, -, -, -, hs⟩ := of?_eq_some_iff.1 h
  rw [hs.arguments_eq]
  exact ⟨by simp, by simp⟩

end LoaderCall

/-- Where numbers are unique, calls with the same callback are the same call. -/
theorem eq_of_callback_id_eq {root call call' : Node} {shape shape' : LoaderCall}
    (hids : root.UniqueIds) (hcall : call ∈ root.calls) (hcall' : call' ∈ root.calls)
    (hshape : LoaderCall.of? call = some shape) (hshape' : LoaderCall.of? call' = some shape')
    (hid : shape.callback.id = shape'.callback.id) : call = call' := by
  obtain ⟨above, habove⟩ :=
    Node.mem_nodes_iff_exists_ancestry.1 (root.calls_sublist_nodes.subset hcall)
  obtain ⟨above', habove'⟩ :=
    Node.mem_nodes_iff_exists_ancestry.1 (root.calls_sublist_nodes.subset hcall')
  obtain ⟨parens, list, hcallback, hparens, hlist⟩ :=
    exists_ancestry_argument habove (LoaderCall.mem_arguments_of_of? hshape).2
  obtain ⟨parens', list', hcallback', hparens', hlist'⟩ :=
    exists_ancestry_argument habove' (LoaderCall.mem_arguments_of_of? hshape').2
  have hancestors := (hcallback.eq_of_id_eq hids hcallback' hid).2
  -- without the parentheses, both lists of ancestors start at an argument list
  have hstripped := congrArg (List.dropWhile (·.kind = .parenthesized)) hancestors
  rw [List.dropWhile_append_of_pos (by simpa using hparens),
    List.dropWhile_append_of_pos (by simpa using hparens'),
    List.dropWhile_cons_of_neg (by simp [hlist]), List.dropWhile_cons_of_neg (by simp [hlist'])]
    at hstripped
  simp only [List.cons.injEq] at hstripped
  exact hstripped.2.1

/-- Where numbers are unique, no two loader calls of a tree have the same callback. -/
theorem nodup_callback_ids {root : Node} (hids : root.UniqueIds) :
    ((root.calls.filterMap LoaderCall.of?).map (·.callback.id)).Nodup := by
  have hcalls : root.calls.Pairwise (· ≠ ·) :=
    List.Nodup.of_map Node.id (hids.sublist (root.calls_sublist_nodes.map Node.id))
  refine List.pairwise_map.2 (List.pairwise_filterMap.2 (hcalls.imp_of_mem ?_))
  intro call call' hcall hcall' hne shape hshape shape' hshape' hid
  exact hne (eq_of_callback_id_eq hids hcall hcall' hshape hshape' hid)

/-! ## The findings of the rule -/

/-- What a request of the rule is made of. -/
theorem exists_shape_of_arityRequest? {policy : SurplusPolicy} {call : Node} {r : Request}
    (h : arityRequest? policy call = some r) :
    ∃ shape names message, LoaderCall.of? call = some shape ∧
      Dependencies.of shape.dependencies = .known names ∧
      (Verdict.judge names shape.callback.parameters.length policy).message? = some message ∧
      r = ⟨shape.callback, message, some (shape.dependencies, countCaption names.length)⟩ := by
  obtain ⟨shape, hshape, h⟩ := Option.bind_eq_some_iff.1 h
  split at h
  · rename_i names hnames
    obtain ⟨message, hmessage, h⟩ := Option.bind_eq_some_iff.1 h
    exact ⟨shape, names, message, hshape, hnames, hmessage, (Option.some.inj h).symm⟩
  · cases h

/-- A request of the rule is at the callback of the call. -/
theorem arityRequest?_node {policy : SurplusPolicy} {call : Node} {r : Request}
    (h : arityRequest? policy call = some r) :
    ∃ shape, LoaderCall.of? call = some shape ∧ r.node = shape.callback := by
  obtain ⟨shape, names, message, hshape, -, -, rfl⟩ := exists_shape_of_arityRequest? h
  exact ⟨shape, hshape, rfl⟩

/-- A request of the rule asks for the finding that the call deserves. -/
theorem map_finding_arityRequest? (severity : Severity) (policy : SurplusPolicy) (s : Subject)
    (call : Node) :
    (arityRequest? policy call).map
        ((Rule.mk .functionArity severity policy).profile.finding s) =
      arityFinding? severity policy s.file call := by
  unfold arityRequest? arityFinding?
  cases LoaderCall.of? call with
  | none => rfl
  | some shape =>
    simp only [Option.bind_eq_bind, Option.bind_some]
    cases Dependencies.of shape.dependencies with
    | unknown => rfl
    | known names =>
      simp only
      cases Verdict.judge names shape.callback.parameters.length policy with
      | ok => rfl
      | tooFew expected actual =>
        simp [Verdict.message?, Verdict.counts, Profile.finding, Rule.profile, RuleId.code,
          RuleId.name, ← String.append_assoc]
      | tooMany expected actual =>
        simp [Verdict.message?, Verdict.counts, Profile.finding, Rule.profile, RuleId.code,
          RuleId.name, ← String.append_assoc]

namespace Rule

/-- The rule asks for findings at calls only. -/
theorem requests_functionArity (severity : Severity) (policy : SurplusPolicy) (s : Subject) :
    (Rule.mk .functionArity severity policy).requests s =
      s.root.calls.filterMap (arityRequest? policy) := by
  rw [requests, Node.calls, List.filterMap_filterMap]
  refine List.filterMap_congr fun v _ => ?_
  cases v <;> rfl

/-- Where numbers are unique, the rule asks for at most one finding at a node. -/
theorem nodup_requests_functionArity (severity : Severity) (policy : SurplusPolicy) {s : Subject}
    (hids : s.root.UniqueIds) :
    (((Rule.mk .functionArity severity policy).requests s).map (·.node.id)).Nodup := by
  have hcallbacks := nodup_callback_ids hids
  rw [List.Nodup, List.pairwise_map, List.pairwise_filterMap] at hcallbacks
  rw [requests_functionArity, List.Nodup, List.pairwise_map, List.pairwise_filterMap]
  refine hcallbacks.imp fun {call call'} hne r hr r' hr' => ?_
  obtain ⟨shape, hshape, hnode⟩ := arityRequest?_node hr
  obtain ⟨shape', hshape', hnode'⟩ := arityRequest?_node hr'
  rw [hnode, hnode']
  exact hne shape hshape shape' hshape'

/-- The rule finds exactly what the calls of the tree deserve, in pre-order, and nothing is lost to
the limit of one finding a node: no two loader calls of the tree have the same callback. A
traversal passes over punctuation; as long as this has nothing inside it, the calls are all those
of the tree. -/
theorem check_functionArity (severity : Severity) (policy : SurplusPolicy) (s : Subject)
    (hids : s.root.UniqueIds) (hcontent : ¬Directive.Covered s.content "amd-function-arity") :
    (Rule.mk .functionArity severity policy).check s =
        (s.root.preorder.filter (·.kind = .call)).filterMap
          (arityFinding? severity policy s.file) ∧
      (((s.root.preorder.filter (·.kind = .call)).filterMap LoaderCall.of?).map
        (·.callback.id)).Nodup ∧
      ((∀ n ∈ s.root.nodes, n.kind = .punctuation → n.children = []) →
        s.root.preorder.filter (·.kind = .call) = s.root.nodes.filter (·.kind = .call)) := by
  have hcalls := s.root.calls_eq_filter_preorder
  refine ⟨?_, hcalls ▸ nodup_callback_ids hids, s.root.filter_call_preorder⟩
  have houtcome : Request.outcome (Rule.mk .functionArity severity policy).profile s =
      fun r => some ((Rule.mk .functionArity severity policy).profile.finding s r) := by
    funext r
    exact Request.outcome_of_not_covered hcontent r
  -- different callbacks mean that each request is the first one at its node
  rw [← hcalls, check,
    Sink.findings_reportAll_of_nodup _ _ (nodup_requests_functionArity _ _ hids),
    houtcome, List.filterMap_eq_map', requests_functionArity, List.map_filterMap]
  exact List.filterMap_congr fun call _ => map_finding_arityRequest? severity policy s call

/-- A call in the parenthesized callback of another one. Neither callback takes enough parameters,
and both calls get their finding, the outer one first. -/
theorem check_functionArity_nested :
    let source :=
      "require(['a', b], (function () \x7b\n  require('c', function () \x7b\x7d);\n\x7d));\n"
    let findings : List Finding :=
      [⟨"AMD001", "amd-function-arity", .error, ⟨⟨"m.js"⟩, 1, 20, 19, 47⟩,
          "Not enough parameters in callback (expected 2, found 0).", none,
          [⟨⟨⟨"m.js"⟩, 1, 9, 8, 8⟩, "2 dependencies declared here"⟩], false⟩,
        ⟨"AMD001", "amd-function-arity", .error, ⟨⟨"m.js"⟩, 2, 16, 48, 14⟩,
          "Not enough parameters in callback (expected 1, found 0).", none,
          [⟨⟨⟨"m.js"⟩, 2, 11, 43, 3⟩, "1 dependency declared here"⟩], false⟩]
    ∃ p, Script.Program.parse? source = some p ∧ p.root.UniqueIds ∧
      ¬Directive.Covered source "amd-function-arity" ∧
      (Rule.mk .functionArity .error .forbidden).check ⟨⟨"m.js"⟩, source, p.root⟩ = findings := by
  intro source findings
  have hdeserved : (Script.Program.parse? source).map (fun p =>
      (p.root.preorder.filter (·.kind = .call)).filterMap
        (arityFinding? .error .forbidden ⟨"m.js"⟩)) = some findings := by
    decide +kernel
  obtain ⟨p, hp, hfindings⟩ := Option.map_eq_some_iff.1 hdeserved
  have hids := Script.Program.uniqueIds_of_parse? hp
  have hcontent : ¬Directive.Covered source "amd-function-arity" := by
    have hlines : ∀ line ∈ Text.lines source.toList, Directive.parse? line = none := by
      decide +kernel
    rintro ⟨line, hline, d, hd, -⟩
    rw [hlines line hline] at hd
    cases hd
  refine ⟨p, hp, hids, hcontent, ?_⟩
  rw [(check_functionArity .error .forbidden ⟨⟨"m.js"⟩, source, p.root⟩ hids hcontent).1]
  exact hfindings

end Rule

end LoaderLint
