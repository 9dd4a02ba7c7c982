import LoaderLint.Proofs.AcceptedCounts
import LoaderLint.Proofs.ArraySlots
import LoaderLint.Proofs.Numerals
import LoaderLint.Proofs.TextOffsets

/-!
# Where callbacks and their dependencies stand

A finding about the parameters of a callback is at the callback, and its label is at the
dependencies. In every shape of a loader call the dependencies are an argument directly before the
callback, and what is taken out of parentheses stays inside them. So the label ends before the
finding begins, and both stand inside the call and inside the source. The numbers in the texts are
those of the slots and of the parameters.

The module introduces:

* `Location.stop` — the byte behind a stretch of a file;
* `Dependencies.Declares` — how many dependencies a node declares.

`Node.LaidOut.arguments_layout` says how the arguments of a call stand. What a request of the rule
is made of is taken from `exists_shape_of_arityRequest?`, and what it says from
`Verdict.message?_judge`. The main result is `Rule.label_before_callback`.
-/

namespace LoaderLint

open Script (Node Program)

namespace Script.Node

variable {cs : List Char}

/-! ## Arguments of a call -/

/-- What is in parentheses stands inside them. -/
theorem LaidOut.within_unparenthesized {n : Node} (h : n.LaidOut cs)
    (hn : n.span.start.offset < n.span.stop) :
    n.unparenthesized.Within n.span.start.offset n.span.stop := by
  obtain ⟨above, habove⟩ := mem_nodes_iff_exists_ancestry.1 n.unparenthesized_mem_nodes
  exact habove.within h hn

/-- No node of a tree that is laid out ends behind its root. -/
theorem Ancestry.stop_le {root n : Node} {above : List Node} (h : Ancestry root n above)
    (hroot : root.LaidOut cs) : n.span.stop ≤ root.span.stop := by
  induction h with
  | root => exact Nat.le_refl _
  | child hn hm ih => exact Nat.le_trans ((hn.laidOut hroot).fits.inside _ hm).2.2 ih

/-- The arguments of a call stand inside it, one behind the other. -/
theorem LaidOut.arguments_layout {call : Node} (h : call.LaidOut cs) :
    (∀ arg ∈ call.arguments, arg.Within call.span.start.offset call.span.stop) ∧
      call.arguments.Pairwise Before := by
  unfold arguments
  split
  · rename_i list hlist
    have hmem : list ∈ call.children := List.mem_of_find?_eq_some hlist
    have hlaid : list.LaidOut cs := h.of_mem_children hmem
    obtain ⟨hlow, -, hhigh⟩ := h.fits.inside list hmem
    split
    · -- the arguments are in some of the children of the list, in their order
      have hsublist : (list.namedChildren.filter (!·.isComment)).Sublist list.children :=
        List.filter_sublist.trans List.filter_sublist
      have hinner : ∀ child ∈ list.namedChildren.filter (!·.isComment),
          child.unparenthesized.Within child.span.start.offset child.span.stop := by
        intro child hchild
        have hchild := hsublist.subset hchild
        exact (hlaid.of_mem_children hchild).within_unparenthesized
          (hlaid.fits.inside child hchild).2.1
      constructor
      · rw [List.forall_mem_map]
        intro child hchild
        have houter := hlaid.fits.inside child (hsublist.subset hchild)
        exact (hinner child hchild).mono (Nat.le_trans hlow houter.1)
          (Nat.le_trans houter.2.2 hhigh)
      · rw [List.pairwise_map]
        refine (hlaid.fits.ordered.sublist hsublist).imp_of_mem fun {a b} ha hb hbefore => ?_
        exact Nat.le_trans (hinner a ha).2.2 (Nat.le_trans hbefore (hinner b hb).1)
    · exact ⟨List.forall_mem_nil _, .nil⟩
  · exact ⟨List.forall_mem_nil _, .nil⟩

end Script.Node

/-- The dependencies and the callback of a loader call stand inside the call, in this order. -/
theorem LoaderCall.layout_of_of? {cs : List Char} {call : Node} {shape : LoaderCall}
    (hlaid : call.LaidOut cs) (h : of? call = some shape) :
    shape.dependencies.Within call.span.start.offset call.span.stop ∧
      shape.callback.Within call.span.start.offset call.span.stop ∧
      shape.dependencies.Before shape.callback := by
  obtain ⟨loader, callee, s, -, -, -, -, hs⟩ := of?_eq_some_iff.1 h
  obtain ⟨hdependencies, hcallback⟩ := mem_arguments_of_of? h
  obtain ⟨hinside, hordered⟩ := hlaid.arguments_layout
  refine ⟨hinside _ hdependencies, hinside _ hcallback, ?_⟩
  -- the name of the module may stand before them, and an error callback behind them
  rw [hs.arguments_eq, List.pairwise_append] at hordered
  exact List.rel_of_pairwise_cons hordered.2.1 List.mem_cons_self

/-! ## Places -/

/-- The first byte behind a stretch of a file. -/
def Location.stop (l : Location) : ℕ := l.offset + l.length

/-- A place stops where its node does. -/
theorem Location.stop_ofNode {n : Node} {low high : ℕ} (h : n.Within low high) (file : Path) :
    (Location.ofNode file n).stop = n.span.stop :=
  Nat.add_sub_of_le (Nat.le_of_lt h.2.1)

/-! ## Numbers -/

namespace Dependencies

/-- The node declares that many dependencies: an array one for each of its slots, however they are
written, and a string one. -/
def Declares (n : Node) (count : ℕ) : Prop :=
  (n.kind = .array ∧ count = n.elements.length ∧
    ∀ slots, n.HasSlots slots → count = slots.length) ∨
    n.kind = .string ∧ count = 1

/-- As many dependencies are declared as are known. -/
theorem declares_of_known {n : Node} {names : List (Option String)} (h : of n = .known names) :
    Declares n names.length := by
  unfold of at h
  split at h
  · rename_i hkind
    split at h
    · cases h
    · cases h
      rw [List.length_map]
      exact .inl ⟨hkind, rfl, fun slots hslots => by rw [hslots.elements_eq]⟩
  · rename_i hkind
    cases h
    exact .inr ⟨hkind, rfl⟩
  · cases h

end Dependencies

/-- The numbers in the message about a callback. -/
theorem Text.numbers_arityMessage {word : String}
    (hword : word ≠ "" ∧ word.toList.all (!·.isDigit))
    (expected found : ℕ) :
    numbers (word ++ " parameters in callback (expected " ++ toString expected ++ ", found " ++
      toString found ++ ").").toList = [expected, found] := by
  rw [numbers, ← List.append_nil (String.toList _)]
  simp only [String.toList_append, List.append_assoc]
  rw [numbersFrom_text word hword,
    numbersFrom_text " parameters in callback (expected " (by decide),
    numbersFrom_toString, numbersFrom_text ", found " (by decide), numbersFrom_toString,
    numbersFrom_text ")." (by decide)]
  rfl

/-- The number in the caption of dependencies. -/
theorem Text.numbers_countCaption (n : ℕ) : numbers (countCaption n).toList = [n] := by
  unfold countCaption
  split
  · rename_i hone
    rw [hone]
    decide
  · rw [numbers, ← List.append_nil (String.toList _)]
    simp only [String.toList_append, List.append_assoc]
    rw [numbersFrom_toString, numbersFrom_text " dependencies declared here" (by decide)]
    rfl

namespace Rule

/-- Where the findings about callbacks and their labels stand, in a tree that is laid out and ends
inside the source, whatever the policy and the text with the directives are.

A finding that is not locked has exactly one label. There is a call of a loader function around
both: the label ends before the finding begins, and neither reaches out of the call or of the
source. The finding is at a callback and the label at its dependencies. The message says how many
parameters are expected and how many are found. The first number is that of the dependencies, which
the label says too; the second one is that of the parameters, and it is another one. A locked
finding has no label, but a suggestion. -/
theorem label_before_callback (severity : Severity) (policy : SurplusPolicy) {source : String}
    {s : Subject} (hlaid : s.root.LaidOut source.toList)
    (hend : s.root.span.stop ≤ source.utf8ByteSize) {f : Finding}
    (hf : f ∈ (Rule.mk .functionArity severity policy).check s) :
    (f.locked = true → f.labels = [] ∧ f.suggestion.isSome = true) ∧
    (f.locked = false →
      ∃ (label : Label) (call dependencies callback : Node) (expected found : ℕ),
        f.labels = [label] ∧
        call ∈ s.root.nodes ∧ call.kind = .call ∧
        call.calleeName ∈ [some "define", some "require", some "requirejs"] ∧
        dependencies ∈ call.arguments ∧ label.location = .ofNode s.file dependencies ∧
        callback ∈ call.arguments ∧ f.location = .ofNode s.file callback ∧ callback.IsCallback ∧
        call.span.start.offset ≤ label.location.offset ∧ label.location.stop ≤ f.location.offset ∧
        f.location.stop ≤ call.span.stop ∧ call.span.stop ≤ source.utf8ByteSize ∧
        f.message = (if found < expected then "Not enough" else "Too many") ++
          " parameters in callback (expected " ++ toString expected ++ ", found " ++
          toString found ++ ")." ∧
        Text.numbers f.message.toList = [expected, found] ∧
        Text.numbers label.message.toList = [expected] ∧
        Dependencies.Declares dependencies expected ∧
        found = callback.parameters.length ∧ expected ≠ found) := by
  obtain ⟨q, hq, rfl | rfl⟩ := exists_request_of_mem_check hf
  · refine ⟨nofun, fun _ => ?_⟩
    rw [requests_functionArity] at hq
    obtain ⟨call, hcall, hrequest⟩ := List.mem_filterMap.1 hq
    obtain ⟨shape, names, message, hshape, hnames, hmessage, rfl⟩ :=
      exists_shape_of_arityRequest? hrequest
    obtain ⟨hargument, hfunction⟩ := LoaderCall.mem_arguments_of_of? hshape
    -- the call is a node of the tree, so that it is laid out and inside the source
    have hmem := s.root.calls_sublist_nodes.subset hcall
    rw [Node.calls_eq_filter_preorder] at hcall
    obtain ⟨above, habove⟩ := Node.mem_nodes_iff_exists_ancestry.1 hmem
    obtain ⟨hdependencies, hcallback, hbefore⟩ :=
      LoaderCall.layout_of_of? (habove.laidOut hlaid) hshape
    have hname : call.calleeName ∈ [some "define", some "require", some "requirejs"] := by
      rw [LoaderCall.calleeName_of_of? hshape]
      cases shape.loader <;> decide
    obtain ⟨hne, rfl⟩ := Verdict.message?_judge hmessage
    have hword : ∀ few : Prop, [Decidable few] →
        (if few then "Not enough" else "Too many") ≠ "" ∧
          (if few then "Not enough" else "Too many").toList.all (!·.isDigit) := by
      intro few _
      split <;> decide
    refine ⟨⟨.ofNode s.file shape.dependencies, countCaption names.length⟩, call,
      shape.dependencies, shape.callback, names.length, shape.callback.parameters.length, rfl,
      hmem, of_decide_eq_true (List.mem_filter.1 hcall).2, hname, hargument, rfl, hfunction, rfl,
      Node.isFunction_iff_isCallback.1 (LoaderCall.isFunction_callback hshape), hdependencies.1,
      ?_, ?_, Nat.le_trans (habove.stop_le hlaid) hend, rfl, ?_, Text.numbers_countCaption _,
      Dependencies.declares_of_known hnames, rfl, hne⟩
    · rw [Location.stop_ofNode hdependencies]
      exact hbefore
    · have hstop : (Location.ofNode s.file shape.callback).stop = _ :=
        Location.stop_ofNode hcallback _
      exact hstop ▸ hcallback.2.2
    · exact Text.numbers_arityMessage (hword _) _ _
  · exact ⟨fun _ => ⟨rfl, rfl⟩, nofun⟩

/-- A call in the parenthesized callback of another one, with a directive above it that has no
reason. The finding at the outer callback has its label at the array before it, which has a hole
and an element, and the finding at the inner one is locked. -/
theorem label_before_callback_nested :
    let source := "require([, b], (function () \x7b\n// amd-lint: allow(all)\n" ++
      "require('c', function () \x7b\x7d)\x7d))"
    ∃ (p : Program) (outer inner : Finding),
      Program.parse? source = some p ∧ p.root.LaidOut source.toList ∧
      p.root.span.stop ≤ source.utf8ByteSize ∧
      (Rule.mk .functionArity .error .forbidden).check ⟨⟨"m.js"⟩, source, p.root⟩ =
        [outer, inner] ∧
      outer.locked = false ∧
      (∃ label, outer.labels = [label] ∧ label.location.stop ≤ outer.location.offset ∧
        Text.numbers outer.message.toList = [2, 0] ∧ Text.numbers label.message.toList = [2]) ∧
      inner.locked = true ∧ inner.labels = [] ∧ inner.suggestion.isSome = true := by
  intro source
  have hruns : (Program.parse? source).map (fun p =>
      ((Rule.mk .functionArity .error .forbidden).check ⟨⟨"m.js"⟩, source, p.root⟩).map
        fun f => (f.locked, f.message)) =
      some [(false, "Not enough parameters in callback (expected 2, found 0)."),
        (true, "Allow directive for 'amd-function-arity' is missing required reason")] := by
    decide +kernel
  obtain ⟨p, hp, hfindings⟩ := Option.map_eq_some_iff.1 hruns
  obtain ⟨outer, rest, hcheck, houter, hrest⟩ := List.map_eq_cons_iff.1 hfindings
  obtain ⟨inner, rfl, hinner⟩ := List.map_eq_singleton_iff.1 hrest
  have hlaid := Program.laidOut_of_parse? hp
  have hend : p.root.span.stop ≤ source.utf8ByteSize := by
    obtain ⟨stop, hstop, heq⟩ := Program.endsIn_of_parse? hp
    exact heq ▸ hstop.offset_le
  have hlabels := fun f hf => label_before_callback .error .forbidden
    (s := ⟨⟨"m.js"⟩, source, p.root⟩) hlaid hend (f := f) hf
  rw [hcheck] at hlabels
  obtain ⟨houterLocked, houterMessage⟩ := Prod.mk.inj houter
  obtain ⟨hinnerLocked, -⟩ := Prod.mk.inj hinner
  obtain ⟨label, -, -, -, expected, found, hlabel, -, -, -, -, -, -, -, -, -, hbefore, -, -, -,
    hnumbers, hcaption, -⟩ := (hlabels outer List.mem_cons_self).2 houterLocked
  have hmessage : Text.numbers outer.message.toList = [2, 0] := by
    rw [houterMessage]
    decide
  obtain rfl : expected = 2 := (List.cons.inj (hnumbers.symm.trans hmessage)).1
  exact ⟨p, outer, inner, hp, hlaid, hend, hcheck, houterLocked,
    ⟨label, hlabel, hbefore, hmessage, hcaption⟩, hinnerLocked,
    (hlabels inner (by simp)).1 hinnerLocked⟩

end Rule

end LoaderLint
