import LoaderLint.Loader.Call
import LoaderLint.Proofs.SyntaxTree

/-!
# Shapes of loader calls

A loader call takes its arguments in one of three shapes: dependencies and a callback, the same
with an error callback behind them, or the same with the name of a module before them. No argument
list has two of the shapes: with three arguments, the one in the middle is a function or it lists
dependencies, and nothing is both.

The module introduces:

* `Loader.Lists`, `Script.Node.IsCallback` — the arguments that can list dependencies and those
  that can be callbacks;
* `LoaderCall.Shape`, `LoaderCall.Shape.Fits` — the shapes, and the argument lists that have them;
* `LoaderCall.Shape.match?` — what a single shape makes of an argument list.

The main result is `LoaderCall.of?_iff_fits`.
-/

namespace LoaderLint

open Script (Node Kind)

/-! ## Names and arguments -/

namespace Loader

/-- A loader is found by its name and by no other. -/
theorem ofName?_eq_some_iff {name : String} {loader : Loader} :
    ofName? name = some loader ↔ name = loader.name := by
  constructor
  · intro h
    unfold ofName? at h
    split at h <;> cases h <;> rfl
  · rintro rfl
    cases loader <;> rfl

/-- No two loaders have the same name. -/
theorem name_injective : Function.Injective name := by
  intro loader loader' h
  have hname : ofName? loader.name = some loader := ofName?_eq_some_iff.2 rfl
  rw [h, ofName?_eq_some_iff.2 rfl] at hname
  exact (Option.some.inj hname).symm

/-- The node can list dependencies for the loader. Functions and object literals cannot, and
`define` takes a string for the name of a module. -/
def Lists (loader : Loader) (n : Node) : Prop :=
  n.kind ≠ .function ∧ n.kind ≠ .arrow ∧ n.kind ≠ .functionDeclaration ∧ n.kind ≠ .object ∧
    (loader = .define → n.kind ≠ .string)

/-- What is accepted as dependencies is what can list them. -/
theorem acceptsDependencies_iff_lists {loader : Loader} {n : Node} :
    loader.acceptsDependencies n = true ↔ loader.Lists n := by
  unfold acceptsDependencies Lists
  split <;> simp_all

end Loader

namespace Script

/-- The node can be a callback: it is a function expression or an arrow function. -/
def Node.IsCallback (n : Node) : Prop := n.kind = .function ∨ n.kind = .arrow

/-- The kinds that count as functions are those of callbacks. -/
theorem Node.isFunction_iff_isCallback {n : Node} : n.kind.isFunction = true ↔ n.IsCallback := by
  unfold Kind.isFunction IsCallback
  split <;> simp_all

end Script

/-- Nothing is a callback and lists dependencies. -/
theorem Loader.Lists.not_isCallback {loader : Loader} {n : Node} (h : loader.Lists n) :
    ¬n.IsCallback := by
  rintro (hfunction | harrow)
  · exact h.1 hfunction
  · exact h.2.1 harrow

/-! ## Shapes -/

namespace LoaderCall

/-- The shapes of argument lists. -/
inductive Shape where
  /-- Dependencies and a callback. -/
  | plain
  /-- Dependencies, a callback and an error callback. -/
  | guarded
  /-- The name of a module, dependencies and a callback. -/
  | named
deriving DecidableEq, Repr

namespace Shape

/-- The argument list has the shape, and its arguments are the parts of the call. -/
inductive Fits (loader : Loader) : Shape → List Node → LoaderCall → Prop
  | plain {dependencies callback : Node} :
      loader.Lists dependencies → callback.IsCallback →
      Fits loader .plain [dependencies, callback] ⟨loader, none, dependencies, callback, none⟩
  | guarded {dependencies callback errback : Node} :
      loader.Lists dependencies → callback.IsCallback → errback.IsCallback →
      Fits loader .guarded [dependencies, callback, errback]
        ⟨loader, none, dependencies, callback, some errback⟩
  | named {moduleId dependencies callback : Node} :
      moduleId.kind = .string → loader.Lists dependencies → callback.IsCallback →
      Fits loader .named [moduleId, dependencies, callback]
        ⟨loader, some moduleId, dependencies, callback, none⟩

section

variable {loader : Loader} {s s' : Shape} {args : List Node} {c c' : LoaderCall}

theorem Fits.loader_eq (h : s.Fits loader args c) : c.loader = loader := by
  cases h <;> rfl

/-- The callback of a call is a function. -/
theorem Fits.isCallback (h : s.Fits loader args c) : c.callback.IsCallback := by
  cases h <;> assumption

/-- The arguments are the parts of the call in their order, so that the dependencies and the
callback stand side by side. -/
theorem Fits.arguments_eq (h : s.Fits loader args c) :
    args = c.moduleId.toList ++ c.dependencies :: c.callback :: c.errback.toList := by
  cases h <;> rfl

/-- No shape has both the name of a module and an error callback. -/
theorem Fits.moduleId_or_errback (h : s.Fits loader args c) :
    c.moduleId = none ∨ c.errback = none := by
  cases h with
  | plain | guarded => exact .inl rfl
  | named => exact .inr rfl

/-- An argument list has at most one of the shapes, and makes one call by it. -/
theorem Fits.unique (h : s.Fits loader args c) (h' : s'.Fits loader args c') :
    s = s' ∧ c = c' := by
  cases h with
  | plain =>
    -- the other shapes have three arguments
    cases h'
    exact ⟨rfl, rfl⟩
  | guarded _ hcallback =>
    -- the argument in the middle is a callback here, and lists dependencies in the named shape
    cases h' with
    | guarded => exact ⟨rfl, rfl⟩
    | named _ hlists => exact absurd hcallback hlists.not_isCallback
  | named _ hlists =>
    cases h' with
    | guarded _ hcallback => exact absurd hcallback hlists.not_isCallback
    | named => exact ⟨rfl, rfl⟩

end

/-- The call that an argument list makes by the shape, if it has the shape. -/
def match? (loader : Loader) : Shape → List Node → Option LoaderCall
  | plain, [dependencies, callback] =>
    if callback.kind.isFunction ∧ loader.acceptsDependencies dependencies then
      some ⟨loader, none, dependencies, callback, none⟩
    else none
  | guarded, [dependencies, callback, errback] =>
    if callback.kind.isFunction ∧ errback.kind.isFunction ∧
        loader.acceptsDependencies dependencies then
      some ⟨loader, none, dependencies, callback, some errback⟩
    else none
  | named, [moduleId, dependencies, callback] =>
    if moduleId.kind = .string ∧ callback.kind.isFunction ∧
        loader.acceptsDependencies dependencies then
      some ⟨loader, some moduleId, dependencies, callback, none⟩
    else none
  | _, _ => none

variable {loader : Loader} {args : List Node} {c : LoaderCall}

/-- A shape makes a call of the argument lists that have it. -/
theorem match?_eq_some_iff {s : Shape} : s.match? loader args = some c ↔ s.Fits loader args c := by
  constructor
  · intro h
    unfold match? at h
    -- one case for each shape, with the conditions that the shape asks for
    split at h
    · split at h
      · rename_i hshape
        cases h
        exact .plain (Loader.acceptsDependencies_iff_lists.1 hshape.2)
          (Node.isFunction_iff_isCallback.1 hshape.1)
      · cases h
    · split at h
      · rename_i hshape
        cases h
        exact .guarded (Loader.acceptsDependencies_iff_lists.1 hshape.2.2)
          (Node.isFunction_iff_isCallback.1 hshape.1)
          (Node.isFunction_iff_isCallback.1 hshape.2.1)
      · cases h
    · split at h
      · rename_i hshape
        cases h
        exact .named hshape.1 (Loader.acceptsDependencies_iff_lists.1 hshape.2.2)
          (Node.isFunction_iff_isCallback.1 hshape.2.1)
      · cases h
    · cases h
  · intro h
    cases h with
    | plain hlists hcallback =>
      exact if_pos ⟨Node.isFunction_iff_isCallback.2 hcallback,
        Loader.acceptsDependencies_iff_lists.2 hlists⟩
    | guarded hlists hcallback herrback =>
      exact if_pos ⟨Node.isFunction_iff_isCallback.2 hcallback,
        Node.isFunction_iff_isCallback.2 herrback, Loader.acceptsDependencies_iff_lists.2 hlists⟩
    | named hid hlists hcallback =>
      exact if_pos ⟨hid, Node.isFunction_iff_isCallback.2 hcallback,
        Loader.acceptsDependencies_iff_lists.2 hlists⟩

/-- In whatever order the shapes are tried, the first that fits is the only one that does. -/
theorem findSome?_match?_eq_some_iff {order : List Shape} (horder : ∀ s, s ∈ order) :
    order.findSome? (·.match? loader args) = some c ↔ ∃ s, Fits loader s args c := by
  constructor
  · intro h
    obtain ⟨s, -, hs⟩ := List.exists_of_findSome?_eq_some h
    exact ⟨s, match?_eq_some_iff.1 hs⟩
  · rintro ⟨s, hs⟩
    have hsome : (order.findSome? (·.match? loader args)).isSome = true :=
      List.findSome?_isSome_iff.2
        ⟨s, horder s, by rw [match?_eq_some_iff.2 hs, Option.isSome_some]⟩
    -- the shape that is found first need not be `s`, but it makes the same call
    obtain ⟨found, hfound⟩ := Option.isSome_iff_exists.1 hsome
    obtain ⟨s', -, hs'⟩ := List.exists_of_findSome?_eq_some hfound
    rw [hfound, (hs.unique (match?_eq_some_iff.1 hs')).2]

end Shape

/-- The shapes are tried from the shorter lists to the longer ones, and an error callback is looked
for before the name of a module. -/
theorem ofArguments?_eq_findSome? (loader : Loader) (args : List Node) :
    ofArguments? loader args =
      [Shape.plain, .guarded, .named].findSome? (·.match? loader args) := by
  unfold ofArguments?
  split
  · simp only [List.findSome?_cons, List.findSome?_nil, Shape.match?]
    split <;> rfl
  · simp only [List.findSome?_cons, List.findSome?_nil, Shape.match?]
    split
    · rfl
    · split <;> rfl
  · -- every shape asks for two or three arguments
    rename_i htwo hthree
    have hnone (s : Shape) : s.match? loader args = none := by
      unfold Shape.match?
      split
      · exact absurd rfl (htwo _ _)
      · exact absurd rfl (hthree _ _ _)
      · exact absurd rfl (hthree _ _ _)
      · rfl
    simp [hnone]

/-- An argument list makes a call exactly if it has one of the shapes. -/
theorem ofArguments?_eq_some_iff {loader : Loader} {args : List Node} {c : LoaderCall} :
    ofArguments? loader args = some c ↔ ∃ s, Shape.Fits loader s args c := by
  rw [ofArguments?_eq_findSome?]
  refine Shape.findSome?_match?_eq_some_iff fun s => ?_
  cases s <;> simp

/-! ## Calls -/

section

variable {call : Node} {c : LoaderCall}

/-- A call calls a loader exactly if its callee is the name of the loader. -/
theorem calleeName_bind_ofName?_eq_some_iff {loader : Loader} :
    call.calleeName.bind Loader.ofName? = some loader ↔
      ∃ callee, call.callee = some callee ∧ callee.kind = .identifier ∧
        callee.text = loader.name := by
  cases hcallee : call.callee with
  | none => simp [Node.calleeName, hcallee]
  | some callee =>
    simp only [Node.calleeName, hcallee, Option.bind_some, Node.identifierName, Option.some.injEq,
      exists_eq_left']
    by_cases hkind : callee.kind = .identifier
    · rw [if_pos hkind, Option.bind_some, Loader.ofName?_eq_some_iff]
      exact (and_iff_right hkind).symm
    · rw [if_neg hkind, Option.bind_none]
      simp [hkind]

/-- A call is a loader call exactly if it calls a loader by its name with arguments that have one
of the shapes, none of them a spread. -/
theorem of?_eq_some_iff :
    of? call = some c ↔ ∃ loader callee s, call.callee = some callee ∧ callee.kind = .identifier ∧
      callee.text = loader.name ∧ (∀ arg ∈ call.arguments, arg.kind ≠ .spread) ∧
      Shape.Fits loader s call.arguments c := by
  have hspread : call.arguments.any (·.kind = .spread) = true ↔
      ¬∀ arg ∈ call.arguments, arg.kind ≠ .spread := by
    simp
  simp only [of?, Option.bind_eq_bind, Option.bind_eq_some_iff]
  constructor
  -- the name of the callee is the first thing that is looked at, spreads are the second
  · rintro ⟨loader, hloader, hshape⟩
    obtain ⟨callee, hcallee, hkind, htext⟩ := calleeName_bind_ofName?_eq_some_iff.1
      (Option.bind_eq_some_iff.2 hloader)
    split at hshape
    · cases hshape
    · rename_i hany
      rw [hspread, not_not] at hany
      obtain ⟨s, hs⟩ := ofArguments?_eq_some_iff.1 hshape
      exact ⟨loader, callee, s, hcallee, hkind, htext, hany, hs⟩
  · rintro ⟨loader, callee, s, hcallee, hkind, htext, hnone, hs⟩
    refine ⟨loader, Option.bind_eq_some_iff.1
      (calleeName_bind_ofName?_eq_some_iff.2 ⟨callee, hcallee, hkind, htext⟩), ?_⟩
    rw [if_neg (by rw [hspread, not_not]; exact hnone)]
    exact ofArguments?_eq_some_iff.2 ⟨s, hs⟩

/-- A loader call calls its loader by name. -/
theorem calleeName_of_of? (h : of? call = some c) : call.calleeName = some c.loader.name := by
  obtain ⟨loader, callee, s, hcallee, hkind, htext, -, hs⟩ := of?_eq_some_iff.1 h
  rw [Node.calleeName, hcallee, Option.bind_some, Node.identifierName, if_pos hkind, htext,
    hs.loader_eq]

/-- A call defines a named module exactly if it is a call of `define` with the name of a module. -/
theorem variant_eq_defineNamed_iff :
    c.variant = .defineNamed ↔ c.loader = .define ∧ c.moduleId.isSome = true := by
  obtain ⟨loader, moduleId, dependencies, callback, errback⟩ := c
  cases loader <;> cases moduleId <;> simp [variant]

end

end LoaderCall

/-- Where numbers are unique, no two arguments of a call have the same number. -/
theorem Script.Node.UniqueIds.nodup_arguments {call : Node} (hids : call.UniqueIds) :
    (call.arguments.map Node.id).Nodup := by
  unfold Node.arguments
  split
  · rename_i list hlist
    split
    · have hmem : list ∈ call.nodes := Node.mem_nodes_iff_exists_ancestry.2
        ⟨_, Node.Ancestry.root.child (List.mem_of_find?_eq_some hlist)⟩
      have hlistIds : ((Node.nodesAmong list.children).map Node.id).Nodup := by
        obtain ⟨head, children⟩ := list
        have hids' := hids.of_mem hmem
        rw [Node.UniqueIds, Node.nodes, List.map_cons, List.nodup_cons] at hids'
        exact hids'.2
      -- an argument is a node of the tree of its child, and the trees of the children are apart
      have happart := (Node.pairwise_id_ne_of_nodup hlistIds).filter (·.kind ≠ .punctuation)
      rw [List.map_map, List.Nodup, List.pairwise_map]
      refine (happart.filter (!·.isComment)).imp fun {a b} hab => ?_
      exact hab _ a.unparenthesized_mem_nodes _ b.unparenthesized_mem_nodes
    · exact List.nodup_nil
  · exact List.nodup_nil

namespace LoaderCall

/-- A call is a loader call exactly if it calls `define`, `require` or `requirejs` by its plain
name, has no spread among its arguments, and these have one of the three shapes. No argument list
has two of them, so they may be tried in any order. The arguments are the parts of the call in
their order: the callback directly follows the dependencies, an error callback follows the
callback, and it does not go together with the name of a module. They are different nodes. A call
defines a named module exactly if it calls `define` with such a name. -/
theorem of?_iff_fits (call : Node) :
    (∀ c, of? call = some c ↔
      ∃ loader callee s, call.callee = some callee ∧ callee.kind = .identifier ∧
        callee.text = loader.name ∧ (∀ arg ∈ call.arguments, arg.kind ≠ .spread) ∧
        Shape.Fits loader s call.arguments c) ∧
    (∀ loader args s s' c c', Shape.Fits loader s args c → Shape.Fits loader s' args c' →
      s = s' ∧ c = c') ∧
    (∀ (order : List Shape) loader args, (∀ s, s ∈ order) →
      order.findSome? (·.match? loader args) = ofArguments? loader args) ∧
    ∀ c, of? call = some c →
      call.arguments = c.moduleId.toList ++ c.dependencies :: c.callback :: c.errback.toList ∧
      (c.moduleId = none ∨ c.errback = none) ∧
      (∀ root : Node, root.UniqueIds → call ∈ root.nodes →
        ((c.moduleId.toList ++ c.dependencies :: c.callback :: c.errback.toList).map
          Node.id).Nodup) ∧
      (c.variant = .defineNamed ↔ call.calleeName = some "define" ∧ c.moduleId.isSome = true) := by
  refine ⟨fun c => of?_eq_some_iff, fun loader args s s' c c' h h' => h.unique h', ?_, ?_⟩
  · intro order loader args horder
    apply Option.ext
    intro c
    rw [Shape.findSome?_match?_eq_some_iff horder, ofArguments?_eq_some_iff]
  · intro c hc
    obtain ⟨loader, callee, s, -, -, -, -, hs⟩ := of?_eq_some_iff.1 hc
    refine ⟨hs.arguments_eq, hs.moduleId_or_errback, fun root hids hroot => ?_, ?_⟩
    · rw [← hs.arguments_eq]
      exact (hids.of_mem hroot).nodup_arguments
    · have hname : call.calleeName = some "define" ↔ c.loader = .define := by
        rw [calleeName_of_of? hc, Option.some.injEq]
        exact Loader.name_injective.eq_iff (b := .define)
      rw [hname, variant_eq_defineNamed_iff]

end LoaderCall

end LoaderLint
