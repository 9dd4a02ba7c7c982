import LoaderLint.Proofs.ArraySlots
import LoaderLint.Proofs.CallForms
import LoaderLint.Proofs.NodeFindings

/-!
# Parentheses around the target of an assignment

Parentheses around the arguments of a call and around the elements of an array are taken off before
a rule looks at them. Those around the target of an assignment, or around the object of a member
that is the target, are not: an assignment to the loader is reported exactly if it is written
without them.

The module introduces:

* `Script.Node.Alike` — nodes that differ by their places and roles only;
* `Script.Node.Encloses`, `Script.Node.Rewraps` — a node in parentheses, and a target that gets
  parentheses around it or around its object;
* `Script.Node.DenotesLoader`, `Script.Node.IsUnwrapped` — targets that are the loader if
  parentheses do not count, and those without any;
* `Subject.Assigns` — an assignment in the tree of a source.

Parentheses keep what a target denotes (`Script.Node.Rewraps.denotesLoader_iff`), but a target is
taken for the loader only if it is unwrapped too (`Script.Node.namesLoader_iff`). The main result
is `Rule.reports_iff_unwrapped`; `Rule.not_reported_in_parens` is an assignment that parentheses
hide.
-/

namespace LoaderLint

open Script (Node Program)

namespace Script.Node

/-! ## Alike nodes -/

/-- The nodes are the same apart from their places, their numbers, the roles they play for their
parents, and edits. -/
def Alike (n m : Node) : Prop := (n.withRole .plain).form = (m.withRole .plain).form

section

variable {n m : Node}

/-- An edit of a node is one in every role of the node. -/
theorem Edit.withRole (h : Edit n m) (role : Role) : Edit (n.withRole role) (m.withRole role) := by
  cases h with
  | move hkind _ htext => exact .move hkind rfl htext
  | comment hholds hc => exact .comment hholds hc
  | wrap hholds hparens hn hfront hback => exact .wrap hholds hparens hn hfront hback
  | inside h => exact .inside h

/-- Nodes of the same form have the same form in every role. -/
theorem form_withRole (h : n.form = m.form) (role : Role) :
    (n.withRole role).form = (m.withRole role).form :=
  congr_form (f := fun n => (n.withRole role).form) (fun _ _ h => (h.withRole role).form_eq) h

/-- Nodes of the same form are alike. -/
theorem Alike.of_form (h : n.form = m.form) : n.Alike m := form_withRole h .plain

theorem Alike.symm (h : n.Alike m) : m.Alike n := Eq.symm h

/-- Alike nodes have the same kind. -/
theorem Alike.kind_eq (h : n.Alike m) : n.kind = m.kind := by
  rw [← kind_withRole n .plain, ← kind_withRole m .plain]
  exact kind_eq_of_form h

/-- Alike nodes have the same spelling. -/
theorem Alike.text_eq (h : n.Alike m) : n.text = m.text := by
  have htext := text_eq_of_form h
  obtain ⟨head, children⟩ := n
  obtain ⟨head', children'⟩ := m
  exact htext

/-- A node that is alike to a name is that name. -/
theorem Alike.isName {name : String} (h : n.Alike m) (hn : n.IsName name) : m.IsName name :=
  ⟨h.kind_eq ▸ hn.1, h.text_eq ▸ hn.2⟩

theorem field_withRole (n : Node) (role role' : Role) :
    (n.withRole role).field role' = n.field role' := by
  cases n
  rfl

/-- Where no comment can be put in, alike nodes have alike fields. -/
theorem Alike.field (h : n.Alike m) (hkind : n.kind.holdsComments = false) {role : Role} {c : Node}
    (hc : n.field role = some c) : ∃ c', m.field role = some c' ∧ c.Alike c' := by
  have hfield := field_of_form h (by rwa [kind_withRole]) role
  rw [field_withRole, field_withRole] at hfield
  rcases hfield with ⟨hnone, -⟩ | ⟨d, d', hd, hd', hform⟩
  · rw [hnone] at hc
    cases hc
  · obtain rfl := Option.some.inj (hd.symm.trans hc)
    exact ⟨d', hd', .of_form hform⟩

/-- The role of a node is not looked at when its parentheses are taken off. -/
theorem withRole_unparenthesized_withRole (n : Node) (role role' : Role) :
    (n.withRole role).unparenthesized.withRole role' = n.unparenthesized.withRole role' := by
  obtain ⟨head, children⟩ := n
  change (mk { head with role } children).unparenthesized.withRole role' = _
  rw [unparenthesized, unparenthesized]
  by_cases hkind : head.kind = .parenthesized
  · rw [if_pos hkind, if_pos hkind]
    cases firstUnparenthesized children <;> rfl
  · rw [if_neg hkind, if_neg hkind]
    rfl

/-- Alike nodes are alike without their parentheses. -/
theorem Alike.unparenthesized (h : n.Alike m) : n.unparenthesized.Alike m.unparenthesized := by
  have hform :
      (n.withRole .plain).unparenthesized.form = (m.withRole .plain).unparenthesized.form := by
    rw [form_unparenthesized, form_unparenthesized, kind_eq_of_form h, symbols_eq_of_form h, h]
  have halike := form_withRole hform .plain
  rwa [withRole_unparenthesized_withRole, withRole_unparenthesized_withRole] at halike

end

/-! ## Targets in parentheses -/

/-- The node is the loader as a target, if parentheses around it and around the object of a member
do not count. -/
def DenotesLoader (n : Node) : Prop :=
  n.unparenthesized.IsName "require" ∨
    n.unparenthesized.kind = .member ∧ ∃ object property,
      n.unparenthesized.field .object = some object ∧ object.unparenthesized.IsName "window" ∧
        n.unparenthesized.field .property = some property ∧ property.text = "require"

/-- There are no parentheses around the node, nor around its object if it is a member. -/
def IsUnwrapped (n : Node) : Prop :=
  n.kind ≠ .parenthesized ∧
    (n.kind = .member → ∀ object, n.field .object = some object → object.kind ≠ .parenthesized)

/-- The expression in a pair of parentheses: all that is there besides punctuation and comments. -/
def enclosed? (n : Node) : Option Node :=
  match n.children.filter isSolid with
  | [m] => some m
  | _ => none

/-- One node is the other one in any number of parentheses, at another place. -/
def Encloses (outer n : Node) : Prop :=
  ∃ inner : Node, inner.Alike n ∧ inner.isSolid = true ∧ inner.Wraps outer

/-- A target gets parentheses around it, or around its object if it is a member. -/
inductive Rewraps : Node → Node → Prop
  /-- The parentheses are around the target. -/
  | target {n m : Node} : m.Encloses n → Rewraps n m
  /-- The parentheses are around the object of a member, and the property stays the same. -/
  | object {n m object object' property property' : Node} :
      n.kind = .member → m.kind = .member → n.field .object = some object →
      m.field .object = some object' → object'.Encloses object →
      n.field .property = some property → m.field .property = some property' →
      property'.text = property.text → Rewraps n m

section

variable {n m : Node} {name : String}

/-- A name is no pair of parentheses. -/
theorem IsName.kind_ne (h : n.IsName name) : n.kind ≠ .parenthesized := by
  rw [h.1]
  decide

/-- What is taken for the loader is no pair of parentheses. -/
theorem NamesLoader.kind_ne (h : n.NamesLoader) : n.kind ≠ .parenthesized := by
  rcases h with h | ⟨h, -⟩
  · exact h.kind_ne
  · rw [h]
    decide

/-- A target is taken for the loader exactly if it denotes it and there are no parentheses. -/
theorem namesLoader_iff : n.NamesLoader ↔ n.DenotesLoader ∧ n.IsUnwrapped := by
  constructor
  · -- neither a name nor a member is a pair of parentheses, so taking these off changes nothing
    intro h
    rw [DenotesLoader, unparenthesized_of_kind_ne h.kind_ne]
    rcases h with hname | ⟨hkind, object, property, hobject, hwindow, hproperty⟩
    · refine ⟨.inl hname, hname.kind_ne, fun hmember => ?_⟩
      rw [hname.1] at hmember
      cases hmember
    · refine ⟨.inr ⟨hkind, object, property, hobject, ?_, hproperty⟩, by rw [hkind]; decide, ?_⟩
      · rwa [unparenthesized_of_kind_ne hwindow.kind_ne]
      · rintro - other hother
        obtain rfl := Option.some.inj (hobject.symm.trans hother)
        exact hwindow.kind_ne
  · rintro ⟨hdenotes, hkind, hmember⟩
    rw [DenotesLoader, unparenthesized_of_kind_ne hkind] at hdenotes
    rcases hdenotes with hname | ⟨hkind, object, property, hobject, hwindow, hproperty⟩
    · exact .inl hname
    · rw [unparenthesized_of_kind_ne (hmember hkind object hobject)] at hwindow
      exact .inr ⟨hkind, object, property, hobject, hwindow, hproperty⟩

/-- Targets that are alike without their parentheses denote the loader both or neither. -/
theorem DenotesLoader.of_alike (h : n.DenotesLoader)
    (halike : n.unparenthesized.Alike m.unparenthesized) : m.DenotesLoader := by
  rcases h with hname | ⟨hkind, object, property, hobject, hwindow, hproperty, htext⟩
  · exact .inl (halike.isName hname)
  · have hholds : n.unparenthesized.kind.holdsComments = false := by rw [hkind]; rfl
    obtain ⟨object', hobject', halikeObject⟩ := halike.field hholds hobject
    obtain ⟨property', hproperty', halikeProperty⟩ := halike.field hholds hproperty
    exact .inr ⟨halike.kind_eq ▸ hkind, object', property', hobject',
      halikeObject.unparenthesized.isName hwindow, hproperty', halikeProperty.text_eq ▸ htext⟩

/-- Targets that are alike are unwrapped both or neither. -/
theorem IsUnwrapped.of_alike (h : n.IsUnwrapped) (halike : n.Alike m) : m.IsUnwrapped := by
  refine ⟨halike.kind_eq ▸ h.1, fun hmember object' hobject' => ?_⟩
  obtain ⟨object, hobject, halikeObject⟩ := halike.symm.field (by rw [hmember]; rfl) hobject'
  rw [halikeObject.kind_eq]
  exact h.2 (halike.kind_eq ▸ hmember) object hobject

/-- A node in parentheses is alike to the node without them. -/
theorem Encloses.unparenthesized (h : m.Encloses n) :
    m.unparenthesized.Alike n.unparenthesized := by
  obtain ⟨inner, halike, hsolid, hwraps⟩ := h
  rw [hwraps.unparenthesized_of_isSolid hsolid]
  exact halike.unparenthesized

/-- Without parentheses around it, a node only stands at another place. -/
theorem Encloses.alike (h : m.Encloses n) (hkind : m.kind ≠ .parenthesized) : m.Alike n := by
  obtain ⟨inner, halike, -, hwraps⟩ := h
  cases hwraps with
  | bare => exact halike
  | parens _ hparens => exact absurd hparens hkind

/-- One more pair of parentheses. -/
theorem Encloses.parens {outer : Node} (h : m.Encloses n) (hkind : outer.kind = .parenthesized)
    (hm : outer.enclosed? = some m) : outer.Encloses n := by
  obtain ⟨inner, halike, hsolid, hwraps⟩ := h
  rw [enclosed?] at hm
  -- the expression is all that is there besides punctuation and comments
  split at hm
  · rename_i only honly
    obtain rfl := Option.some.inj hm
    obtain ⟨front, back, hchildren, hfront, -, hback⟩ := List.filter_eq_cons_iff.1 honly
    obtain ⟨head, children⟩ := outer
    change children = _ at hchildren
    subst hchildren
    rw [List.filter_eq_nil_iff] at hback
    refine ⟨inner, halike, hsolid, .parens hwraps hkind ?_ ?_⟩
    · simpa using hfront
    · simpa using hback
  · cases hm

/-- A name encloses a name with the same spelling, none of them being in parentheses. -/
theorem IsName.encloses (hn : n.IsName name) (hm : m.IsName name) (hn' : n.children = [])
    (hm' : m.children = []) : m.Encloses n := by
  refine ⟨m, ?_, by rw [isSolid, hm.1]; rfl, .bare⟩
  obtain ⟨head, children⟩ := n
  obtain ⟨head', children'⟩ := m
  change children = [] at hn'
  change children' = [] at hm'
  subst hn' hm'
  apply Edit.form_eq
  -- the two differ by their places and roles
  apply Edit.move
  · exact hn.1.trans hm.1.symm
  · rfl
  · exact hn.2.trans hm.2.symm

/-- Parentheses do not change what a target denotes. -/
theorem Rewraps.denotesLoader_iff (h : Rewraps n m) : m.DenotesLoader ↔ n.DenotesLoader := by
  cases h with
  | target h => exact ⟨fun hm => hm.of_alike h.unparenthesized,
      fun hn => hn.of_alike h.unparenthesized.symm⟩
  | @object object object' property property' hn hm hobject hobject' h hproperty hproperty'
      htext =>
    have hwindow :
        object'.unparenthesized.IsName "window" ↔ object.unparenthesized.IsName "window" :=
      ⟨h.unparenthesized.isName, h.unparenthesized.symm.isName⟩
    have hbare {t : Node} (ht : t.kind = .member) : t.unparenthesized = t :=
      unparenthesized_of_kind_ne (by rw [ht]; decide)
    have hname {t : Node} (ht : t.kind = .member) : ¬t.IsName "require" := fun h => by
      rw [h.1] at ht
      cases ht
    -- both are members, with the same property and objects that are alike without parentheses
    simp only [DenotesLoader, hbare hn, hbare hm, hname hn, hname hm, hn, hm, hobject, hobject',
      hproperty, hproperty', false_or, true_and, Option.some.injEq, exists_and_left,
      exists_eq_left', hwindow, htext]

/-- A target that is unwrapped still was unwrapped before. -/
theorem Rewraps.isUnwrapped (h : Rewraps n m) (hm : m.IsUnwrapped) : n.IsUnwrapped := by
  cases h with
  | target h => exact hm.of_alike (h.alike hm.1)
  | @object object object' _ _ hkind hkind' hobject hobject' h =>
    refine ⟨by rw [hkind]; decide, fun _ other hother => ?_⟩
    obtain rfl := Option.some.inj (hobject.symm.trans hother)
    -- there are no parentheses around the new object, so it is the old one at another place
    have hbare := hm.2 hkind' object' hobject'
    rw [← (h.alike hbare).kind_eq]
    exact hbare

/-- However parentheses are put around a target and its object, it denotes the same, and it is
taken for the loader exactly if it was before and there are no parentheses now. -/
theorem rewraps_iff (h : Relation.ReflTransGen Rewraps n m) :
    (m.DenotesLoader ↔ n.DenotesLoader) ∧ (m.NamesLoader ↔ n.NamesLoader ∧ m.IsUnwrapped) := by
  -- each step keeps what is denoted, and takes no parentheses off
  have hkept : (m.DenotesLoader ↔ n.DenotesLoader) ∧ (m.IsUnwrapped → n.IsUnwrapped) := by
    induction h with
    | refl => exact ⟨Iff.rfl, fun hn => hn⟩
    | tail _ hstep ih =>
      exact ⟨hstep.denotesLoader_iff.trans ih.1, fun hm => ih.2 (hstep.isUnwrapped hm)⟩
  refine ⟨hkept.1, ?_⟩
  rw [namesLoader_iff, namesLoader_iff, hkept.1]
  constructor
  · rintro ⟨hdenotes, hm⟩
    exact ⟨⟨hdenotes, hkept.2 hm⟩, hm⟩
  · rintro ⟨⟨hdenotes, -⟩, hm⟩
    exact ⟨hdenotes, hm⟩

end

end Script.Node

/-! ## Reported assignments -/

/-- In the tree of a source, the node is an assignment to the target. -/
structure Subject.Assigns (s : Subject) (a target : Node) : Prop where
  /-- The tree is that of a source. -/
  read : ∃ source p, Program.parse? source = some p ∧ s.root = p.root
  /-- The node is in the tree. -/
  reached : a ∈ s.root.preorder
  /-- It is an assignment. -/
  kind : a.kind = .assignment ∨ a.kind = .compoundAssignment
  /-- The target is on its left side. -/
  left : a.field .left = some target

/-- Whether a request comes to something depends on the directive that permits it only. -/
theorem Request.isSome_outcome_congr (p : Profile) {s s' : Subject} (q q' : Request)
    (h : s'.permission? p.name q'.node = s.permission? p.name q.node) :
    (q'.outcome p s').isSome = (q.outcome p s).isSome := by
  rw [outcome, outcome, h]
  cases s.permission? p.name q.node with
  | none => rfl
  | some directive =>
    simp only
    split <;> rfl

/-- Calls of the same form define a module with a name both or neither. -/
theorem isNamedDefine_eq_of_form {call call' : Node} (hcall : call.kind = .call)
    (h : call.form = call'.form) : isNamedDefine call = isNamedDefine call' := by
  have hargs := Node.forall₂_arguments_of_form h hcall
  rw [isNamedDefine, isNamedDefine, Node.calleeName_eq_of_form h hcall]
  generalize call.arguments = args, call'.arguments = args' at hargs ⊢
  rcases hargs with _ | ⟨hfirst, _ | ⟨_, _⟩⟩
  · rfl
  · rfl
  · simp only [Node.kind_eq_of_form hfirst]

/-- The message of a request at a loader call is that of the verdict. -/
theorem map_message_arityRequest? (policy : SurplusPolicy) (call : Node) :
    (arityRequest? policy call).map (·.message) =
      (arityVerdict? policy call).bind Verdict.message? := by
  unfold arityRequest? arityVerdict?
  cases LoaderCall.of? call with
  | none => rfl
  | some shape =>
    simp only [Option.bind_eq_bind, Option.bind_some]
    cases Dependencies.of shape.dependencies with
    | unknown => rfl
    | known names =>
      simp only [Option.pure_def, Option.bind_some]
      cases (Verdict.judge names shape.callback.parameters.length policy).message? <;> rfl

namespace Rule

/-- At calls of the same form a rule asks for the same. -/
theorem map_message_request?_of_form (r : Rule) {call call' : Node} (hcall : call.kind = .call)
    (h : call.form = call'.form) :
    (r.request? (.call call')).map (·.message) = (r.request? (.call call)).map (·.message) := by
  obtain ⟨id, severity, policy⟩ := r
  cases id with
  | functionArity =>
    change (arityRequest? policy call').map _ = (arityRequest? policy call).map _
    rw [map_message_arityRequest?, map_message_arityRequest?,
      LoaderCall.arityVerdict?_eq_of_form hcall h]
  | namedDefine =>
    change (namedDefineRequest? call').map _ = (namedDefineRequest? call).map _
    rw [namedDefineRequest?, namedDefineRequest?, isNamedDefine_eq_of_form hcall h]
    split <;> rfl
  -- the third rule asks for nothing at a call
  | assignRequire => rfl

section

variable {s s' : Subject} {a a' target target' : Node}

/-- An assignment is reported exactly if its target is taken for the loader and no directive
permits it. -/
theorem reports_iff_of_assigns (severity : Severity) (policy : SurplusPolicy)
    (h : s.Assigns a target) :
    (Rule.mk .assignRequire severity policy).Reports s a ↔ target.NamesLoader ∧
      (Request.outcome (Rule.mk .assignRequire severity policy).profile s
        ⟨a, "Invalid assignment to `require`.", none⟩).isSome = true := by
  obtain ⟨⟨source, p, hp, hroot⟩, hreached, hkind, hleft⟩ := h
  have hlaid := Program.laidOut_of_parse? hp
  have hids := Program.uniqueIds_of_parse? hp
  rw [← hroot] at hlaid hids
  exact reports_assignRequire_iff severity policy hlaid hids hreached hkind hleft

/-- Where nothing is covered, an assignment is reported exactly if its target is taken for the
loader. -/
theorem reports_iff_namesLoader (severity : Severity) (policy : SurplusPolicy)
    (h : s.Assigns a target) (hcontent : ¬Directive.Covered s.content "no-assign-require") :
    (Rule.mk .assignRequire severity policy).Reports s a ↔ target.NamesLoader := by
  rw [reports_iff_of_assigns severity policy h, Request.outcome_of_not_covered hcontent]
  simp

/-- A target of an assignment, and the same target with its object in two pairs of parentheses and
itself in one. -/
theorem exists_rewrapped_window :
    let source := "window.require += x;\n"
    let source' := "(((window)).require) += x;\n"
    ∃ p p' a a' target target', Program.parse? source = some p ∧ Program.parse? source' = some p' ∧
      Subject.Assigns ⟨⟨"m.js"⟩, source, p.root⟩ a target ∧
      Subject.Assigns ⟨⟨"m.js"⟩, source', p'.root⟩ a' target' ∧
      Relation.ReflTransGen Node.Rewraps target target' ∧ target.NamesLoader ∧
      target'.kind = .parenthesized := by
  intro source source'
  -- nodes cannot be compared, so what is looked for in the two trees is said by tests
  let isWindow (n : Node) : Bool := n.kind = .identifier && n.text = "window" && n.children.isEmpty
  let isRequire (n : Node) : Bool := n.text = "require"
  let isMember (isObject : Node → Bool) (n : Node) : Bool :=
    n.kind = .member && (n.field .object).any isObject && (n.field .property).any isRequire
  let inParens (isInside : Node → Bool) (n : Node) : Bool :=
    n.kind = .parenthesized && n.enclosed?.any isInside
  let assigns (isTarget : Node → Bool) (p : Program) : Bool :=
    p.root.preorder.any fun a => a.kind = .compoundAssignment && (a.field .left).any isTarget
  have hplain : (Program.parse? source).any (assigns (isMember isWindow)) = true := by
    decide +kernel
  have hwrapped : (Program.parse? source').any
      (assigns (inParens (isMember (inParens (inParens isWindow))))) = true := by
    decide +kernel
  simp only [assigns, inParens, isMember, isWindow, isRequire, Option.any_eq_true,
    List.any_eq_true, Bool.and_eq_true, decide_eq_true_eq, List.isEmpty_iff] at hplain hwrapped
  obtain ⟨p, hp, a, ha, hkind, target, htarget, ⟨hmember, object, hobject, hname, hleaf⟩, property,
    hproperty, hrequire⟩ := hplain
  obtain ⟨p', hp', a', ha', hkind', target', htarget', hparens, inside, hinside,
    ⟨hmember', object', hobject', houter, middle, hmiddle, hinner, window, hwindow, hname',
    hleaf'⟩, property', hproperty', hrequire'⟩ := hwrapped
  have hencloses : object'.Encloses object :=
    ((Node.IsName.encloses hname hname' hleaf hleaf').parens hinner hwindow).parens houter hmiddle
  have hstep : Node.Rewraps target inside :=
    .object hmember hmember' hobject hobject' hencloses hproperty hproperty'
      (hrequire'.trans hrequire.symm)
  have hself : inside.Encloses inside :=
    ⟨inside, rfl, by rw [Node.isSolid, hmember']; rfl, .bare⟩
  refine ⟨p, p', a, a', target, target', hp, hp', ⟨⟨source, p, hp, rfl⟩, ha, .inr hkind, htarget⟩,
    ⟨⟨source', p', hp', rfl⟩, ha', .inr hkind', htarget'⟩, ?_, ?_, hparens⟩
  · exact .tail (.single hstep) (.target (hself.parens hparens hinside))
  · exact .inr ⟨hmember, object, property, hobject, hname, hproperty, hrequire⟩

/-- No line of the two sources has a directive on it. -/
theorem not_covered_of_rewrapped_window (rule : String) :
    ¬Directive.Covered "window.require += x;\n" rule ∧
      ¬Directive.Covered "(((window)).require) += x;\n" rule :=
  ⟨Directive.not_covered_of_lines (by decide +kernel) rule,
    Directive.not_covered_of_lines (by decide +kernel) rule⟩

/-- Parentheses hide an assignment to the loader. Where nothing is covered, an assignment is
reported exactly if its target denotes the loader and is unwrapped. Putting parentheses around the
target or around its object, any number of times, keeps what the target denotes; but the assignment
is reported afterwards exactly if it was before and no parentheses are there, whatever the
directives are, as long as they treat both alike. At a call nothing of the kind happens: edits,
parentheses around arguments and array elements among them, do not change what any rule asks
for. -/
theorem reports_iff_unwrapped (severity : Severity) (policy : SurplusPolicy)
    (h : s.Assigns a target) (h' : s'.Assigns a' target')
    (hsame : s'.permission? "no-assign-require" a' = s.permission? "no-assign-require" a) :
    (¬Directive.Covered s.content "no-assign-require" →
      ((Rule.mk .assignRequire severity policy).Reports s a ↔
        target.DenotesLoader ∧ target.IsUnwrapped)) ∧
    (Relation.ReflTransGen Node.Rewraps target target' →
      (target'.DenotesLoader ↔ target.DenotesLoader) ∧
        ((Rule.mk .assignRequire severity policy).Reports s' a' ↔
          (Rule.mk .assignRequire severity policy).Reports s a ∧ target'.IsUnwrapped)) ∧
    ∀ (r : Rule) (call call' : Node), call.kind = .call → Relation.EqvGen Node.Edit call call' →
      (r.request? (.call call')).map (·.message) = (r.request? (.call call)).map (·.message) := by
  refine ⟨fun hcontent => ?_, fun hwrapped => ?_, fun r call call' hcall hedits => ?_⟩
  · rw [reports_iff_namesLoader severity policy h hcontent, Node.namesLoader_iff]
  · obtain ⟨hdenotes, hnames⟩ := Node.rewraps_iff hwrapped
    refine ⟨hdenotes, ?_⟩
    -- directives treat both assignments alike, so the requests come to the same
    have houtcome := Request.isSome_outcome_congr (Rule.mk .assignRequire severity policy).profile
      ⟨a, "Invalid assignment to `require`.", none⟩ ⟨a', "Invalid assignment to `require`.", none⟩
      hsame
    rw [reports_iff_of_assigns severity policy h, reports_iff_of_assigns severity policy h',
      hnames, houtcome, and_right_comm]
  · exact r.map_message_request?_of_form hcall (Node.form_eq_iff.2 hedits)

/-- A member in parentheses, with its object in parentheses too, denotes what it did before. -/
theorem reports_iff_unwrapped_window :
    let source := "window.require += x;\n"
    let source' := "(((window)).require) += x;\n"
    let s (p : Program) : Subject := ⟨⟨"m.js"⟩, source, p.root⟩
    let s' (p : Program) : Subject := ⟨⟨"m.js"⟩, source', p.root⟩
    let r := Rule.mk .assignRequire .error .forbidden
    ∃ p p' a a' target target', Program.parse? source = some p ∧ Program.parse? source' = some p' ∧
      (s p).Assigns a target ∧ (s' p').Assigns a' target' ∧
      (s' p').permission? "no-assign-require" a' = (s p).permission? "no-assign-require" a ∧
      ¬Directive.Covered source "no-assign-require" ∧
      Relation.ReflTransGen Node.Rewraps target target' ∧
      (r.Reports (s p) a ↔ target.DenotesLoader ∧ target.IsUnwrapped) ∧
      (target'.DenotesLoader ↔ target.DenotesLoader) ∧
      (r.Reports (s' p') a' ↔ r.Reports (s p) a ∧ target'.IsUnwrapped) := by
  intro source source' s s' r
  obtain ⟨p, p', a, a', target, target', hp, hp', h, h', hrewraps, -, -⟩ :=
    exists_rewrapped_window
  obtain ⟨hcontent, hcontent'⟩ := not_covered_of_rewrapped_window "no-assign-require"
  have hnone := Subject.permission?_eq_none_of_not_covered (s := s p) hcontent a
  have hnone' := Subject.permission?_eq_none_of_not_covered (s := s' p') hcontent' a'
  have hsame := hnone'.trans hnone.symm
  obtain ⟨hreports, hafter, -⟩ := reports_iff_unwrapped .error .forbidden h h' hsame
  exact ⟨p, p', a, a', target, target', hp, hp', h, h', hsame, hcontent, hrewraps,
    hreports hcontent, hafter hrewraps⟩

/-- An assignment that is reported, and that is not once there are parentheses. -/
theorem not_reported_in_parens :
    let source := "window.require += x;\n"
    let source' := "(((window)).require) += x;\n"
    let s (p : Program) : Subject := ⟨⟨"m.js"⟩, source, p.root⟩
    let s' (p : Program) : Subject := ⟨⟨"m.js"⟩, source', p.root⟩
    let r := Rule.mk .assignRequire .error .forbidden
    ∃ p p' a a' target target', Program.parse? source = some p ∧ Program.parse? source' = some p' ∧
      (s p).Assigns a target ∧ (s' p').Assigns a' target' ∧
      ¬Directive.Covered source "no-assign-require" ∧
      ¬Directive.Covered source' "no-assign-require" ∧
      Relation.ReflTransGen Node.Rewraps target target' ∧
      r.Reports (s p) a ∧ ¬r.Reports (s' p') a' := by
  intro source source' s s' r
  obtain ⟨p, p', a, a', target, target', hp, hp', h, h', hrewraps, hnames, hparens⟩ :=
    exists_rewrapped_window
  obtain ⟨hcontent, hcontent'⟩ := not_covered_of_rewrapped_window "no-assign-require"
  refine ⟨p, p', a, a', target, target', hp, hp', h, h', hcontent, hcontent', hrewraps, ?_, ?_⟩
  · exact (reports_iff_namesLoader .error .forbidden h hcontent).2 hnames
  · intro hreports
    have hnames' := (reports_iff_namesLoader .error .forbidden h' hcontent').1 hreports
    exact hnames'.kind_ne hparens

end

end Rule

end LoaderLint
