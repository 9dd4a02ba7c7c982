import LoaderLint.Proofs.NodeForms
import LoaderLint.Proofs.ProgramLayout
import LoaderLint.Proofs.RelaxedPolicies

/-!
# Loader calls of the same form

What a loader call does, which of its arguments are dependencies and callbacks, and whether its
callback fits depends on the form of the call only. So parentheses around arguments and elements,
and comments among arguments, elements and parameters, make no difference.

The module introduces:

* `LoaderCall.Corresponds` — loader calls that do the same with arguments at the same places.

The main result is `LoaderCall.corresponds_of_edits`.
-/

namespace LoaderLint

open Script (Node Program)

namespace Script.Node

variable {n m : Node}

/-- Calls of the same form have arguments of the same forms. -/
theorem forall₂_arguments_of_form (h : n.form = m.form) (hcall : n.kind = .call) :
    List.Forall₂ (fun a b => a.form = b.form) n.arguments m.arguments := by
  have hforms : List.Forall₂ Eq (n.arguments.map form) (m.arguments.map form) := by
    rw [List.forall₂_eq_eq_eq, arguments_eq_of_form h hcall]
  rwa [List.forall₂_map_left_iff, List.forall₂_map_right_iff] at hforms

end Script.Node

/-- Whether a node can list dependencies is a matter of its form. -/
theorem Loader.acceptsDependencies_eq_of_form (loader : Loader) {n m : Node}
    (h : n.form = m.form) :
    loader.acceptsDependencies n = loader.acceptsDependencies m := by
  rw [acceptsDependencies, acceptsDependencies, Node.kind_eq_of_form h]

namespace LoaderCall

/-- Two loader calls do the same, and their parts are paired. -/
structure Corresponds (pairs : List (Node × Node)) (c c' : LoaderCall) : Prop where
  /-- They do the same. -/
  variant : c.variant = c'.variant
  /-- The arguments that name the module are paired. -/
  moduleId : Option.Rel (fun n m => (n, m) ∈ pairs) c.moduleId c'.moduleId
  /-- The arguments that name the dependencies are paired. -/
  dependencies : (c.dependencies, c'.dependencies) ∈ pairs
  /-- The functions that are given the dependencies are paired. -/
  callback : (c.callback, c'.callback) ∈ pairs
  /-- The functions that are called on an error are paired. -/
  errback : Option.Rel (fun n m => (n, m) ∈ pairs) c.errback c'.errback

/-- At which places the dependencies and callbacks are depends on the forms of the arguments. -/
theorem rel_ofArguments?_of_form (loader : Loader) {args args' : List Node}
    (h : List.Forall₂ (fun n m => n.form = m.form) args args') :
    Option.Rel (Corresponds (args.zip args')) (ofArguments? loader args)
      (ofArguments? loader args') := by
  -- two and three arguments matter, any other number gives nothing
  rcases h with _ | ⟨hfirst, _ | ⟨hsecond, _ | ⟨hthird, _ | _⟩⟩⟩
  · exact .none
  · exact .none
  · rename_i first first' second second'
    rw [ofArguments?, ofArguments?, ← Node.kind_eq_of_form hsecond,
      ← loader.acceptsDependencies_eq_of_form hfirst]
    by_cases hshape : second.kind.isFunction ∧ loader.acceptsDependencies first
    · rw [if_pos hshape, if_pos hshape]
      exact .some ⟨rfl, .none, by simp, by simp, .none⟩
    · rw [if_neg hshape, if_neg hshape]
      exact .none
  · rename_i first first' second second' third third'
    rw [ofArguments?, ofArguments?, ← Node.kind_eq_of_form hfirst, ← Node.kind_eq_of_form hsecond,
      ← Node.kind_eq_of_form hthird, ← loader.acceptsDependencies_eq_of_form hfirst,
      ← loader.acceptsDependencies_eq_of_form hsecond]
    by_cases herrback : second.kind.isFunction ∧ third.kind.isFunction ∧
        loader.acceptsDependencies first
    · rw [if_pos herrback, if_pos herrback]
      exact .some ⟨rfl, .none, by simp, by simp, .some (by simp)⟩
    · rw [if_neg herrback, if_neg herrback]
      by_cases hnamed : first.kind = .string ∧ third.kind.isFunction ∧
          loader.acceptsDependencies second
      · rw [if_pos hnamed, if_pos hnamed]
        exact .some ⟨rfl, .some (by simp), by simp, by simp, .none⟩
      · rw [if_neg hnamed, if_neg hnamed]
        exact .none
  · exact .none

section

variable {call call' : Node}

/-- Calls of the same form are both no loader calls, or loader calls that correspond. -/
theorem rel_of?_of_form (hcall : call.kind = .call) (h : call.form = call'.form) :
    Option.Rel (Corresponds (call.arguments.zip call'.arguments)) (of? call) (of? call') := by
  have hspread :
      call.arguments.any (·.kind = .spread) = call'.arguments.any (·.kind = .spread) := by
    have hspreads : call.arguments.map (fun n => decide (n.kind = .spread)) =
        call'.arguments.map (fun n => decide (n.kind = .spread)) :=
      map_eq_of_map_key (fun n m hform => by rw [Node.kind_eq_of_form hform])
        (Node.arguments_eq_of_form h hcall)
    simpa [List.any_map, Function.comp_def] using congrArg (List.any · id) hspreads
  -- the name and the spreads are the same, so only the shapes of the arguments are left
  simp only [of?, ← Node.calleeName_eq_of_form h hcall, ← hspread]
  cases call.calleeName.bind Loader.ofName? with
  | none => exact .none
  | some loader =>
    rw [Option.bind_eq_bind, Option.bind_some, Option.bind_some]
    by_cases hany : call.arguments.any (·.kind = .spread) = true
    · rw [if_pos hany, if_pos hany]
      exact .none
    · rw [if_neg hany, if_neg hany]
      exact rel_ofArguments?_of_form loader (Node.forall₂_arguments_of_form h hcall)

/-- Calls of the same form get the same verdict. -/
theorem arityVerdict?_eq_of_form (hcall : call.kind = .call) (h : call.form = call'.form)
    (policy : SurplusPolicy) : arityVerdict? policy call = arityVerdict? policy call' := by
  have hpairs {n m : Node} (hmem : (n, m) ∈ call.arguments.zip call'.arguments) :
      n.form = m.form :=
    (List.forall₂_iff_zip.1 (Node.forall₂_arguments_of_form h hcall)).2 hmem
  have hrel := rel_of?_of_form hcall h
  unfold arityVerdict?
  -- both parts that the verdict is about are paired arguments
  generalize of? call = found, of? call' = found' at hrel ⊢
  rcases hrel with hshapes | _
  · rw [Option.bind_eq_bind, Option.bind_some, Option.bind_some,
      Dependencies.of_eq_of_form (hpairs hshapes.dependencies),
      Node.length_parameters_eq_of_form (hpairs hshapes.callback)]
  · rfl

/-- Whatever edits lead from one call to another, both are no loader calls, or loader calls that do
the same with arguments at the same places; the arguments at one place name the same dependencies
and have the same number of parameters, and the calls get the same verdict. Taking parentheses off
leaves none, in any tree that is read from source, and doing it again changes nothing. -/
theorem corresponds_of_edits (hcall : call.kind = .call)
    (h : Relation.EqvGen Node.Edit call call') :
    Option.Rel (Corresponds (call.arguments.zip call'.arguments)) (of? call) (of? call') ∧
      List.Forall₂ (fun n m => n.form = m.form ∧ Dependencies.of n = Dependencies.of m ∧
        n.parameters.length = m.parameters.length) call.arguments call'.arguments ∧
      (∀ policy, arityVerdict? policy call = arityVerdict? policy call') ∧
      (∀ (source : String) (root n : Node), Script.parse? source = some root → n ∈ root.nodes →
        n.unparenthesized.kind ≠ .parenthesized) ∧
      ∀ n : Node, n.unparenthesized.unparenthesized = n.unparenthesized := by
  have hform : call.form = call'.form := Node.form_eq_iff.2 h
  refine ⟨rel_of?_of_form hcall hform, ?_, arityVerdict?_eq_of_form hcall hform, ?_,
    Node.unparenthesized_unparenthesized⟩
  · exact (Node.forall₂_arguments_of_form hform hcall).imp fun n m hnm =>
      ⟨hnm, Dependencies.of_eq_of_form hnm, Node.length_parameters_eq_of_form hnm⟩
  · intro source root n hroot hn
    obtain ⟨above, habove⟩ := Node.mem_nodes_iff_exists_ancestry.1 hn
    exact (habove.laidOut (Script.laidOut_of_parse? hroot)).kind_unparenthesized

end

open Script.Node (unplaced mark note singleton inParens)

/-- A call of `define` with dependencies and a function, where `ahead` is before the dependencies
and `behind` is behind the only parameter of the function. -/
def defineCall (ahead : List Node) (dependencies : Node) (behind : List Node) : Node :=
  unplaced .call .plain ""
    [unplaced .identifier .callee "define" [],
      unplaced .arguments .arguments "" (mark "(" :: ahead ++ [dependencies, mark ",",
        unplaced .function .plain "" [unplaced .parameters .parameters ""
          (mark "(" :: unplaced .identifier .plain "a" [] :: behind ++ [mark ")"])], mark ")"])]

/-- Elements and arguments in parentheses, and comments before arguments and behind parameters, do
not hide that a callback fits: `define(['a'], function (a) …)` is
`define(/**/(/**/[(/**/'a')]), function (a/**/) …)`. -/
theorem corresponds_of_edits_inParens :
    let element := unplaced .string .plain "" [unplaced .fragment .plain "a" []]
    let plain := defineCall [] (singleton element) []
    let dressed := defineCall [note] (inParens (singleton (inParens element))) [note]
    plain.kind = .call ∧ Relation.EqvGen Node.Edit plain dressed ∧
      (∃ c, of? dressed = some c ∧ c.variant = .defineAnonymous) ∧
      ∀ policy, arityVerdict? policy dressed = some .ok := by
  intro element plain dressed
  have hparens (n : Node) (hn : n.isSolid = true) (head : Script.Head) (before behind : List Node)
      (hhead : head.kind.holdsItems = true) :
      Node.Edit (.mk head (before ++ n :: behind)) (.mk head (before ++ inParens n :: behind)) :=
    @Node.Edit.wrap head _ before behind [mark "(", note] [mark ")"] n hhead rfl hn (by decide)
      (by decide)
  -- from the inside out: the element, the array, the parameters, the arguments
  have helement : Node.Edit plain (defineCall [] (singleton (inParens element)) []) :=
    @Node.Edit.inside _ [_] [] _ _ (@Node.Edit.inside _ [_] [_, _, _] _ _
      (hparens element rfl _ [_] [_] rfl))
  have harray : Node.Edit (defineCall [] (singleton (inParens element)) [])
      (defineCall [] (inParens (singleton (inParens element))) []) :=
    @Node.Edit.inside _ [_] [] _ _ (hparens (singleton (inParens element)) rfl _ [_] [_, _, _] rfl)
  have hparameters : Node.Edit (defineCall [] (inParens (singleton (inParens element))) [])
      (defineCall [] (inParens (singleton (inParens element))) [note]) :=
    @Node.Edit.inside _ [_] [] _ _ (@Node.Edit.inside _ [_, _, _] [_] _ _
      (@Node.Edit.inside _ [] [] _ _ (@Node.Edit.comment _ [_, _] [_] note rfl rfl)))
  have harguments :
      Node.Edit (defineCall [] (inParens (singleton (inParens element))) [note]) dressed :=
    @Node.Edit.inside _ [_] [] _ _ (@Node.Edit.comment _ [_] [_, _, _, _] note rfl rfl)
  have hedits : Relation.EqvGen Node.Edit plain dressed :=
    .trans _ _ _ (.trans _ _ _ (.rel _ _ helement) (.rel _ _ harray))
      (.trans _ _ _ (.rel _ _ hparameters) (.rel _ _ harguments))
  obtain ⟨hrel, -, hverdict, -⟩ := corresponds_of_edits rfl hedits
  refine ⟨rfl, hedits, ?_, fun policy => ?_⟩
  · obtain ⟨c, hc, hvariant⟩ : ∃ c, of? plain = some c ∧ c.variant = .defineAnonymous :=
      ⟨_, rfl, rfl⟩
    rw [hc] at hrel
    generalize of? dressed = found at hrel ⊢
    obtain ⟨hcorresponds⟩ := hrel
    exact ⟨_, rfl, hcorresponds.variant.symm.trans hvariant⟩
  · rw [← hverdict policy]
    cases policy <;> rfl

end LoaderCall

end LoaderLint
