import LoaderLint.Proofs.RepeatedFindings
import LoaderLint.Proofs.Traversal

/-!
# Findings at the nodes of a traversal

Two rules ask for findings at the very nodes that a traversal stops at: one at calls that define a
module with a name, the other one at declarators and assignments that give the loader another
value. A traversal stops at each node once, so no request is lost to the limit of one finding a
node.

The module introduces:

* `Script.Node.IsName`, `Script.Node.NamesLoader` — plain names, and the targets that are the
  loader;
* `DefinesNamed`, `RebindsLoader` — the nodes that the two rules are about;
* `Rule.Reports` — a rule has a finding at the place of a node;
* `Finding.locations` — the places that a finding is about, all of which are those of nodes.

Every rule asks for at most one finding at a node (`Rule.nodup_requests`), and where the tree is
that of a source, it has a finding at the place of a node exactly if it asks for one there that no
directive drops (`Rule.reports_iff`). The main results are `Rule.check_namedDefine_assignRequire`,
and `LoaderCall.defineNamed_iff_reported` on the calls that both the rule and the shapes of loader
calls are about.
-/

namespace LoaderLint

open Script (Node Program Visit)

/-! ## The nodes that the rules are about -/

namespace Script.Node

/-- The node is a plain name with the spelling. -/
def IsName (n : Node) (name : String) : Prop := n.kind = .identifier ∧ n.text = name

/-- A node has the name of an identifier exactly if it is that name. -/
theorem identifierName_eq_some_iff {n : Node} {name : String} :
    n.identifierName = some name ↔ n.IsName name := by
  rw [identifierName, IsName]
  split
  · rename_i hkind
    simp [hkind]
  · rename_i hkind
    simp [hkind]

/-- The name of a node that may not be there. -/
theorem bind_identifierName_eq_some_iff {found : Option Node} {name : String} :
    found.bind identifierName = some name ↔ ∃ n, found = some n ∧ n.IsName name := by
  simp only [Option.bind_eq_some_iff, identifierName_eq_some_iff]

/-- The node is the loader as a target: its name, or its name as a member of `window`. -/
def NamesLoader (n : Node) : Prop :=
  n.IsName "require" ∨
    n.kind = .member ∧ ∃ object property, n.field .object = some object ∧ object.IsName "window" ∧
      n.field .property = some property ∧ property.text = "require"

end Script.Node

/-- The node is a call of `define` by its plain name, with a string and one more argument or
more. -/
def DefinesNamed (n : Node) : Prop :=
  n.kind = .call ∧ (∃ callee, n.callee = some callee ∧ callee.IsName "define") ∧
    ∃ first second rest, n.arguments = first :: second :: rest ∧ first.kind = .string

/-- The node is a declarator of the name of the loader, or a plain or compound assignment to it. -/
def RebindsLoader (n : Node) : Prop :=
  (n.kind = .declarator ∧ ∃ name, n.field .name = some name ∧ name.IsName "require") ∨
    (n.kind = .assignment ∨ n.kind = .compoundAssignment) ∧
      ∃ target, n.field .left = some target ∧ target.NamesLoader

/-- A call names its module exactly if it calls `define` with a string before another argument. -/
theorem isNamedDefine_iff {n : Node} :
    isNamedDefine n = true ↔ (∃ callee, n.callee = some callee ∧ callee.IsName "define") ∧
      ∃ first second rest, n.arguments = first :: second :: rest ∧ first.kind = .string := by
  rw [isNamedDefine, Bool.and_eq_true, decide_eq_true_eq, Node.calleeName,
    Node.bind_identifierName_eq_some_iff]
  refine and_congr_right fun _ => ?_
  split
  · rename_i first second rest hargs
    simp [hargs]
  · -- fewer than two arguments
    rename_i hargs
    constructor
    · intro h
      cases h
    · rintro ⟨first, second, rest, heq, -⟩
      exact absurd heq (hargs first second rest)

/-- The targets that are looked for are those that name the loader. -/
theorem isLoaderTarget_iff {n : Node} : isLoaderTarget n = true ↔ n.NamesLoader := by
  unfold isLoaderTarget Node.NamesLoader Node.IsName
  split
  · rename_i hkind
    simp [hkind]
  · rename_i hkind
    simp only [Bool.and_eq_true, decide_eq_true_eq, Node.bind_identifierName_eq_some_iff,
      Option.map_eq_some_iff, hkind, true_and, reduceCtorEq, false_and, false_or]
    constructor
    · rintro ⟨⟨object, hobject, hwindow⟩, property, hproperty, htext⟩
      exact ⟨object, property, hobject, hwindow, hproperty, htext⟩
    · rintro ⟨object, property, hobject, hwindow, hproperty, htext⟩
      exact ⟨⟨object, hobject, hwindow⟩, property, hproperty, htext⟩
  · rename_i hname hmember
    refine ⟨nofun, ?_⟩
    rintro (⟨hkind, -⟩ | ⟨hkind, -⟩)
    · exact (hname hkind).elim
    · exact (hmember hkind).elim

/-- A node defines a named module exactly if it is a call that names it. -/
theorem definesNamed_iff {n : Node} :
    DefinesNamed n ↔ n.kind = .call ∧ isNamedDefine n = true := by
  rw [DefinesNamed, isNamedDefine_iff]

/-- Whether a node defines a module with a name can be decided. -/
instance (n : Node) : Decidable (DefinesNamed n) := decidable_of_iff _ definesNamed_iff.symm

/-- A node rebinds the loader exactly if a traversal stops there at an assignment to it. -/
theorem rebindsLoader_iff {n : Node} :
    RebindsLoader n ↔ (Visit.ofNode? n).any assignsLoader = true := by
  unfold RebindsLoader Visit.ofNode?
  split
  · rename_i hkind
    simp [hkind, assignsLoader]
  · rename_i hkind
    simp [hkind, assignsLoader, Node.bind_identifierName_eq_some_iff]
  · rename_i hkind
    simp [hkind, assignsLoader, Option.any_eq_true, isLoaderTarget_iff]
  · rename_i hkind
    simp [hkind, assignsLoader, Option.any_eq_true, isLoaderTarget_iff]
  · rename_i hdeclarator hassignment hcompound
    refine ⟨?_, nofun⟩
    rintro (⟨hkind, -⟩ | ⟨hkind | hkind, -⟩)
    · exact (hdeclarator hkind).elim
    · exact (hassignment hkind).elim
    · exact (hcompound hkind).elim

/-- Whether a node gives the loader another value can be decided. -/
instance (n : Node) : Decidable (RebindsLoader n) := decidable_of_iff _ rebindsLoader_iff.symm

/-! ## Requests -/

namespace Rule

variable (severity : Severity) (policy : SurplusPolicy)

/-- One rule asks for findings at the calls that define a module with a name. -/
theorem requests_namedDefine (s : Subject) :
    (Rule.mk .namedDefine severity policy).requests s =
      (s.root.preorder.filter (DefinesNamed ·)).map fun n =>
        ⟨n, "Named module form of `define` is not allowed", none⟩ := by
  rw [requests, Node.visits_eq_filterMap_preorder, List.filterMap_filterMap,
    ← List.filterMap_eq_map, List.filterMap_filter]
  refine List.filterMap_congr fun n _ => ?_
  by_cases hkind : n.kind = .call
  · simp [Visit.ofNode?, hkind, request?, namedDefineRequest?, definesNamed_iff]
  · -- at declarators and assignments the rule asks for nothing
    have hno : ¬DefinesNamed n := fun h => hkind h.1
    simp only [hno, decide_false, Bool.false_eq_true, if_false, Option.bind_eq_none_iff]
    intro v hv
    cases v with
    | call m =>
      obtain ⟨rfl, hm⟩ := Visit.ofNode?_eq_some_iff.1 hv
      exact absurd (by simpa [Visit.hook, Script.Hook.kinds] using hm) hkind
    | declarator m => rfl
    | assignment m => rfl

/-- The other rule asks for findings at the nodes that give the loader another value. -/
theorem requests_assignRequire (s : Subject) :
    (Rule.mk .assignRequire severity policy).requests s =
      (s.root.preorder.filter (RebindsLoader ·)).map fun n =>
        ⟨n, "Invalid assignment to `require`.", none⟩ := by
  rw [requests, Node.visits_eq_filterMap_preorder, List.filterMap_filterMap,
    ← List.filterMap_eq_map, List.filterMap_filter]
  refine List.filterMap_congr fun n _ => ?_
  simp only [rebindsLoader_iff]
  cases hv : Visit.ofNode? n with
  | none => rfl
  | some v =>
    obtain ⟨rfl, -⟩ := Visit.ofNode?_eq_some_iff.1 hv
    simp [request?, assignRequireRequest?]

variable {severity policy}

/-- Where numbers are unique, a rule asks for at most one finding at a node. -/
theorem nodup_requests {s : Subject} (hids : s.root.UniqueIds) (r : Rule) :
    ((r.requests s).map (·.node.id)).Nodup := by
  obtain ⟨id, severity, policy⟩ := r
  have hfilter (keep : Node → Bool) : ((s.root.preorder.filter keep).map Node.id).Nodup :=
    hids.sublist ((List.filter_sublist.trans s.root.preorder_sublist_nodes).map Node.id)
  cases id with
  | functionArity => exact nodup_requests_functionArity severity policy hids
  | namedDefine =>
    rw [requests_namedDefine, List.map_map]
    exact hfilter _
  | assignRequire =>
    rw [requests_assignRequire, List.map_map]
    exact hfilter _

/-- Where numbers are unique, a rule finds what becomes of its requests, one by one. -/
theorem check_eq_filterMap {s : Subject} (hids : s.root.UniqueIds) (r : Rule) :
    r.check s = (r.requests s).filterMap (Request.outcome r.profile s) :=
  Sink.findings_reportAll_of_nodup _ _ (r.nodup_requests hids)

/-- Where nothing is covered, a rule finds what it asks for. -/
theorem check_eq_map_finding {r : Rule} {s : Subject} (hids : s.root.UniqueIds)
    (hcontent : ¬Directive.Covered s.content r.name) :
    r.check s = (r.requests s).map (r.profile.finding s) := by
  have houtcome : Request.outcome r.profile s = fun q => some (r.profile.finding s q) := by
    funext q
    exact Request.outcome_of_not_covered (p := r.profile) hcontent q
  rw [r.check_eq_filterMap hids, houtcome, List.filterMap_eq_map']

/-! ## Reported nodes -/

/-- The rule has a finding at the place of the node. -/
def Reports (r : Rule) (s : Subject) (n : Node) : Prop :=
  ∃ f ∈ r.check s, f.location = .ofNode s.file n

/-- In the tree of a source, a rule has a finding at the place of an anchor exactly if it asks for
one at the anchor and no directive drops it. -/
theorem reports_iff {r : Rule} {s : Subject} {cs : List Char} {n : Node}
    (hlaid : s.root.LaidOut cs) (hids : s.root.UniqueIds) (hn : n ∈ s.root.nodes)
    (hanchor : n.IsAnchor) :
    r.Reports s n ↔
      ∃ q ∈ r.requests s, q.node = n ∧ (q.outcome r.profile s).isSome = true := by
  rw [Reports, r.check_eq_filterMap hids]
  constructor
  · rintro ⟨f, hf, hlocation⟩
    obtain ⟨q, hq, houtcome⟩ := List.mem_filterMap.1 hf
    refine ⟨q, hq, ?_, by rw [houtcome, Option.isSome_some]⟩
    obtain ⟨hmem, hanchor'⟩ := isAnchor_of_mem_requests hq
    have hplace : Location.ofNode s.file q.node = .ofNode s.file n := by
      rw [← hlocation]
      exact (congrArg Prod.snd (Request.key_of_outcome houtcome)).symm
    -- anchors at the same place have the same number, and so they are the same
    by_cases hid : q.node.id = n.id
    · obtain ⟨above, habove⟩ := Node.mem_nodes_iff_exists_ancestry.1 hmem
      obtain ⟨above', habove'⟩ := Node.mem_nodes_iff_exists_ancestry.1 hn
      exact (habove.eq_of_id_eq hids habove' hid).1
    · have hapart := Node.apart_of_id_ne hlaid hmem hn hanchor' hanchor hid
      exact absurd hplace (Location.ofNode_ne_of_apart hapart s.file)
  · rintro ⟨q, hq, rfl, hsome⟩
    obtain ⟨f, hf⟩ := Option.isSome_iff_exists.1 hsome
    refine ⟨f, List.mem_filterMap.2 ⟨q, hq, hf⟩, ?_⟩
    exact congrArg Prod.snd (Request.key_of_outcome hf)

/-- A rule that asks for findings at some of the nodes of a traversal has one at the place of an
anchor exactly if the anchor is one of them and no directive drops the request. -/
theorem reports_iff_of_requests {r : Rule} {s : Subject} {cs : List Char} {n : Node}
    {keep : Node → Bool} {request : Node → Request} (hnode : ∀ m, (request m).node = m)
    (hrequests : r.requests s = (s.root.preorder.filter keep).map request)
    (hlaid : s.root.LaidOut cs) (hids : s.root.UniqueIds) (hn : n ∈ s.root.preorder)
    (hanchor : n.IsAnchor) :
    r.Reports s n ↔ keep n = true ∧ ((request n).outcome r.profile s).isSome = true := by
  rw [reports_iff hlaid hids (s.root.preorder_sublist_nodes.subset hn) hanchor, hrequests]
  constructor
  · rintro ⟨q, hq, hqn, hsome⟩
    obtain ⟨m, hm, rfl⟩ := List.mem_map.1 hq
    rw [hnode] at hqn
    subst hqn
    exact ⟨(List.mem_filter.1 hm).2, hsome⟩
  · rintro ⟨hkeep, hsome⟩
    exact ⟨request n, List.mem_map_of_mem (List.mem_filter.2 ⟨hn, hkeep⟩), hnode n, hsome⟩

variable (severity policy)

/-- Where nothing is covered, the one rule reports the calls that define a module with a name. -/
theorem reports_namedDefine_iff {s : Subject} {cs : List Char} {call : Node}
    (hlaid : s.root.LaidOut cs) (hids : s.root.UniqueIds)
    (hcontent : ¬Directive.Covered s.content "no-named-define") (hcall : call ∈ s.root.calls) :
    (Rule.mk .namedDefine severity policy).Reports s call ↔ isNamedDefine call = true := by
  rw [Node.calls_eq_filter_preorder] at hcall
  obtain ⟨hmem, hkind⟩ := List.mem_filter.1 hcall
  replace hkind : call.kind = .call := of_decide_eq_true hkind
  have hanchor : call.IsAnchor := .inl (by rw [hkind]; rfl)
  rw [reports_iff_of_requests (fun _ => rfl) (requests_namedDefine severity policy s) hlaid hids
    hmem hanchor, Request.outcome_of_not_covered hcontent]
  simp [definesNamed_iff, hkind]

/-- The other rule reports the assignments to the loader that no directive drops. -/
theorem reports_assignRequire_iff {s : Subject} {cs : List Char} {n target : Node}
    (hlaid : s.root.LaidOut cs) (hids : s.root.UniqueIds) (hn : n ∈ s.root.preorder)
    (hkind : n.kind = .assignment ∨ n.kind = .compoundAssignment)
    (htarget : n.field .left = some target) :
    (Rule.mk .assignRequire severity policy).Reports s n ↔ target.NamesLoader ∧
      (Request.outcome (Rule.mk .assignRequire severity policy).profile s
        ⟨n, "Invalid assignment to `require`.", none⟩).isSome = true := by
  have hanchor : n.IsAnchor := .inl (by rcases hkind with h | h <;> rw [h] <;> rfl)
  have hrebinds : RebindsLoader n ↔ target.NamesLoader := by
    rcases hkind with h | h <;> simp [RebindsLoader, h, htarget]
  rw [reports_iff_of_requests (fun _ => rfl) (requests_assignRequire severity policy s) hlaid hids
    hn hanchor, decide_eq_true_eq, hrebinds]

variable {severity policy}

/-! ## The findings of the two rules -/

/-- What the two rules find in a tree whose nodes have different numbers, where no directive is
about them. One rule has exactly one finding, at the place of the call, for each call that defines
a module with a name; the other one has exactly one, at the place of the node, for each declarator
and each assignment that gives the loader another value. Both go through the nodes in pre-order and
find nothing else. A traversal passes over punctuation; as long as this has nothing inside it, the
nodes are all those of the tree. -/
theorem check_namedDefine_assignRequire (severity : Severity) (policy : SurplusPolicy)
    (s : Subject) (hids : s.root.UniqueIds) :
    (¬Directive.Covered s.content "no-named-define" →
      (Rule.mk .namedDefine severity policy).check s =
        (s.root.preorder.filter (DefinesNamed ·)).map fun n => {
          code := "AMD002"
          rule := "no-named-define"
          severity
          location := .ofNode s.file n
          message := "Named module form of `define` is not allowed"
          suggestion := none
          labels := []
          locked := false }) ∧
      (¬Directive.Covered s.content "no-assign-require" →
        (Rule.mk .assignRequire severity policy).check s =
          (s.root.preorder.filter (RebindsLoader ·)).map fun n => {
            code := "AMD003"
            rule := "no-assign-require"
            severity
            location := .ofNode s.file n
            message := "Invalid assignment to `require`."
            suggestion := none
            labels := []
            locked := false }) ∧
      ((∀ n ∈ s.root.nodes, n.kind = .punctuation → n.children = []) →
        s.root.preorder.filter (DefinesNamed ·) = s.root.nodes.filter (DefinesNamed ·) ∧
          s.root.preorder.filter (RebindsLoader ·) = s.root.nodes.filter (RebindsLoader ·)) := by
  refine ⟨fun hcontent => ?_, fun hcontent => ?_, fun hleaves => ⟨?_, ?_⟩⟩
  · rw [check_eq_map_finding (r := ⟨.namedDefine, severity, policy⟩) hids hcontent,
      requests_namedDefine, List.map_map]
    rfl
  · rw [check_eq_map_finding (r := ⟨.assignRequire, severity, policy⟩) hids hcontent,
      requests_assignRequire, List.map_map]
    rfl
  · apply Node.filter_preorder _ _ hleaves
    intro n hn
    have hno : ¬DefinesNamed n := fun h => by simp [h.1] at hn
    exact decide_eq_false hno
  · apply Node.filter_preorder _ _ hleaves
    intro n hn
    have hno : ¬RebindsLoader n := by
      rintro (⟨hkind, -⟩ | ⟨hkind | hkind, -⟩)
      · simp [hkind] at hn
      · simp [hkind] at hn
      · simp [hkind] at hn
    exact decide_eq_false hno

/-- An assignment inside another one, with a call as its value and a declarator inside that. The
target of the outer assignment is another name, the next line assigns to a member of something
else, and its call has one argument only. -/
theorem check_namedDefine_assignRequire_nested :
    let source :=
      "x += require += define('a', function () \x7b var require; \x7d);\n" ++
        "foo.require += define('b');\nwindow.require ||= 1;\n"
    let named (location : Location) : Finding := ⟨"AMD002", "no-named-define", .error, location,
      "Named module form of `define` is not allowed", none, [], false⟩
    let assigned (location : Location) : Finding := ⟨"AMD003", "no-assign-require", .error,
      location, "Invalid assignment to `require`.", none, [], false⟩
    ∃ p, Program.parse? source = some p ∧ p.root.UniqueIds ∧
      ¬Directive.Covered source "no-named-define" ∧ ¬Directive.Covered source "no-assign-require" ∧
      (Rule.mk .namedDefine .error .forbidden).check ⟨⟨"m.js"⟩, source, p.root⟩ =
        [named ⟨⟨"m.js"⟩, 1, 17, 16, 41⟩] ∧
      (Rule.mk .assignRequire .error .forbidden).check ⟨⟨"m.js"⟩, source, p.root⟩ =
        [assigned ⟨⟨"m.js"⟩, 1, 6, 5, 52⟩, assigned ⟨⟨"m.js"⟩, 1, 47, 46, 7⟩,
          assigned ⟨⟨"m.js"⟩, 3, 1, 87, 20⟩] := by
  intro source named assigned
  have hdeserved : (Program.parse? source).map (fun p =>
      ((p.root.preorder.filter (DefinesNamed ·)).map fun n => named (.ofNode ⟨"m.js"⟩ n),
        (p.root.preorder.filter (RebindsLoader ·)).map fun n => assigned (.ofNode ⟨"m.js"⟩ n))) =
      some ([named ⟨⟨"m.js"⟩, 1, 17, 16, 41⟩],
        [assigned ⟨⟨"m.js"⟩, 1, 6, 5, 52⟩, assigned ⟨⟨"m.js"⟩, 1, 47, 46, 7⟩,
          assigned ⟨⟨"m.js"⟩, 3, 1, 87, 20⟩]) := by
    decide +kernel
  obtain ⟨p, hp, hfindings⟩ := Option.map_eq_some_iff.1 hdeserved
  obtain ⟨hnamed, hassigned⟩ := Prod.mk.inj hfindings
  have hids := Program.uniqueIds_of_parse? hp
  have hlines : ∀ line ∈ Text.lines source.toList, Directive.parse? line = none := by
    decide +kernel
  have hcontent := Directive.not_covered_of_lines hlines
  obtain ⟨hdefines, hrebinds, -⟩ :=
    check_namedDefine_assignRequire .error .forbidden ⟨⟨"m.js"⟩, source, p.root⟩ hids
  refine ⟨p, hp, hids, hcontent _, hcontent _, ?_, ?_⟩
  · rw [hdefines (hcontent _)]
    exact hnamed
  · rw [hrebinds (hcontent _)]
    exact hassigned

end Rule

/-! ## Where findings stand -/

/-- A finding of a rule is one that the rule asked for, or the warning in its place. -/
theorem Rule.exists_request_of_mem_check {r : Rule} {s : Subject} {f : Finding}
    (hf : f ∈ r.check s) :
    ∃ q ∈ r.requests s, f = r.profile.finding s q ∨ f = r.profile.missingReason s q.node := by
  obtain ⟨q, hq, houtcome⟩ := Sink.exists_outcome_of_mem_findings hf
  exact ⟨q, hq, Request.eq_of_outcome houtcome⟩

/-- The place of a finding and those it refers to. -/
def Finding.locations (f : Finding) : List Location := f.location :: f.labels.map (·.location)

/-- What the rules refer to are nodes of the tree. -/
theorem Rule.mem_nodes_of_label {r : Rule} {s : Subject} {q : Request} (hq : q ∈ r.requests s)
    {label : Node × String} (hlabel : q.label = some label) : label.1 ∈ s.root.nodes := by
  obtain ⟨v, hv, hrequest⟩ := List.mem_filterMap.1 hq
  have hmem := (Node.mem_nodes_of_mem_visits hv).1
  unfold request? at hrequest
  split at hrequest
  · -- only the rule on callbacks refers to another node, the dependencies of the call
    rename_i call _
    obtain ⟨shape, names, message, hshape, -, -, rfl⟩ := exists_shape_of_arityRequest? hrequest
    cases hlabel
    obtain ⟨above, hcall⟩ := Node.mem_nodes_iff_exists_ancestry.1 hmem
    obtain ⟨parens, list, hancestry, -, -⟩ :=
      exists_ancestry_argument hcall (LoaderCall.mem_arguments_of_of? hshape).1
    exact Node.mem_nodes_iff_exists_ancestry.2 ⟨_, hancestry⟩
  · unfold namedDefineRequest? at hrequest
    split at hrequest
    · cases hrequest
      cases hlabel
    · cases hrequest
  · unfold assignRequireRequest? at hrequest
    split at hrequest
    · cases hrequest
      cases hlabel
    · cases hrequest
  · cases hrequest

/-- The places of a finding are those of the nodes that its request is about. -/
theorem Request.mem_locations_of_outcome {p : Profile} {s : Subject} {q : Request} {f : Finding}
    (h : q.outcome p s = some f) {l : Location} (hl : l ∈ f.locations) :
    l = .ofNode s.file q.node ∨ ∃ label, q.label = some label ∧ l = .ofNode s.file label.1 := by
  rcases eq_of_outcome h with rfl | rfl
  · rcases List.mem_cons.1 hl with rfl | hl
    · exact .inl rfl
    · simp only [Profile.finding, List.map_map, List.mem_map, Option.mem_toList,
        Function.comp_apply] at hl
      obtain ⟨label, hlabel, rfl⟩ := hl
      exact .inr ⟨label, hlabel, rfl⟩
  · exact .inl (List.mem_singleton.1 hl)

/-- The places of a finding are those of nodes of the tree, in the file that was looked at. -/
theorem Rule.exists_node_of_mem_configuredCheck {r : Rule} {s : Subject} {c : Config} {f : Finding}
    (hf : f ∈ r.configuredCheck c s) {l : Location} (hl : l ∈ f.locations) :
    ∃ n ∈ s.root.nodes, l = .ofNode s.file n := by
  rw [configuredCheck_eq_map] at hf
  obtain ⟨g, hg, rfl⟩ := List.mem_map.1 hf
  -- a configured severity moves nothing
  have hsame : l ∈ g.locations := hl
  obtain ⟨q, hq, houtcome⟩ := Sink.exists_outcome_of_mem_findings hg
  rcases Request.mem_locations_of_outcome houtcome hsame with rfl | ⟨label, hlabel, rfl⟩
  · exact ⟨q.node, (isAnchor_of_mem_requests hq).1, rfl⟩
  · exact ⟨label.1, mem_nodes_of_label hq hlabel, rfl⟩

/-- The places of the findings in a source are those of nodes of its tree. -/
theorem Analyzer.exists_node_of_lint? {a : Analyzer} {path : Path} {source : String}
    {found : List Finding} (h : a.lint? path source = some found) {f : Finding} (hf : f ∈ found)
    {l : Location} (hl : l ∈ f.locations) :
    ∃ p, Program.parse? source = some p ∧
      ∃ n ∈ p.root.nodes, l = .ofNode (path.relativeTo a.root) n := by
  obtain ⟨p, hp, rfl⟩ := Option.map_eq_some_iff.1 h
  obtain ⟨r, -, hr⟩ := List.mem_flatMap.1 hf
  exact ⟨p, hp, Rule.exists_node_of_mem_configuredCheck hr hl⟩

/-! ## Modules with a name

That a call of `define` names its module is found out in two ways: by the shape of a loader call,
and by the rule, which looks at the first argument and at how many there are. The rule knows of
more calls, since it does not ask for dependencies or a callback. On loader calls both agree: a
first argument that is a string cannot list the dependencies of `define`, so it is the name. -/

namespace LoaderCall

variable {call : Node} {c : LoaderCall}

/-- In each shape of the arguments of `define`, the first of them is a string exactly if it names
the module. -/
theorem Shape.Fits.string_first_iff {s : Shape} {args : List Node}
    (h : s.Fits .define args c) :
    (∃ first second rest, args = first :: second :: rest ∧ first.kind = .string) ↔
      c.moduleId.isSome = true := by
  cases h with
  | plain hlists | guarded hlists =>
    -- the first argument lists dependencies, which a string cannot do for `define`
    refine ⟨?_, nofun⟩
    rintro ⟨first, second, rest, heq, hstring⟩
    cases heq
    exact absurd hstring (hlists.2.2.2.2 rfl)
  | named hid =>
    exact ⟨fun _ => rfl, fun _ => ⟨_, _, _, rfl, hid⟩⟩

/-- On loader calls, the rule about named modules and the shape agree. -/
theorem isNamedDefine_iff_variant (h : of? call = some c) :
    isNamedDefine call = true ↔ c.variant = .defineNamed := by
  obtain ⟨loader, callee, s, hcallee, hkind, htext, -, hs⟩ := of?_eq_some_iff.1 h
  have hdefine : (∃ callee, call.callee = some callee ∧ callee.IsName "define") ↔
      loader = .define := by
    rw [hcallee]
    simp only [Option.some.injEq, exists_eq_left', Node.IsName, hkind, htext, true_and]
    exact Loader.name_injective.eq_iff (b := .define)
  rw [isNamedDefine_iff, variant_eq_defineNamed_iff, hs.loader_eq, hdefine]
  refine and_congr_right ?_
  rintro rfl
  exact hs.string_first_iff

/-- The rule about named modules and the shapes of loader calls agree. A loader call that defines a
module with a name is one that the rule is about, and a loader call of any other variant is not. So
in any file, and with any text in which no directive is about the rule, the loader calls that the
rule reports are those that define a module with a name. -/
theorem defineNamed_iff_reported :
    (∀ (call : Node) (c : LoaderCall), of? call = some c →
      (c.variant = .defineNamed → isNamedDefine call = true) ∧
        (c.variant = .defineAnonymous ∨ c.variant = .require ∨ c.variant = .requirejs →
          isNamedDefine call = false)) ∧
    ∀ (source : String) (p : Program), Program.parse? source = some p →
      ∀ (severity : Severity) (policy : SurplusPolicy) (file : Path) (content : String),
        ¬Directive.Covered content "no-named-define" →
        ∀ call ∈ p.root.calls, ∀ c, of? call = some c →
          ((Rule.mk .namedDefine severity policy).Reports ⟨file, content, p.root⟩ call ↔
            c.variant = .defineNamed) := by
  constructor
  · intro call c hc
    have hagree := isNamedDefine_iff_variant hc
    refine ⟨hagree.2, fun hother => ?_⟩
    rw [← Bool.not_eq_true, hagree]
    rcases hother with hother | hother | hother <;> simp [hother]
  · intro source p hp severity policy file content hcontent call hcall c hc
    rw [Rule.reports_namedDefine_iff severity policy (s := ⟨file, content, p.root⟩)
      (Program.laidOut_of_parse? hp) (Program.uniqueIds_of_parse? hp) hcontent hcall,
      isNamedDefine_iff_variant hc]

end LoaderCall

end LoaderLint
