import LoaderLint.Script.Node

/-!
# Loader calls

The calls of a module loader that name dependencies and a callback.

The module introduces:

* `Loader` — the functions of a module loader, by their names;
* `LoaderCall`, `LoaderCall.of?` — a call of one of them, by the shape of its arguments;
* `LoaderCall.variant` — what the call does.

## References

* The specification of amd-lint, §4.1: the call-shape classifier `classify` is `LoaderCall.of?`
  here, `ModuleCall` is `LoaderCall`, `CallShape` is `LoaderCall.Variant`, `from_callee` is
  `Loader.ofName?`, and `is_dependency_list` is `Loader.acceptsDependencies`.
-/

namespace LoaderLint

open Script (Node)

/-- The functions of a module loader. -/
inductive Loader where
  /-- Defines a module. -/
  | define
  /-- Loads modules. -/
  | require
  /-- Loads modules, under its other name. -/
  | requirejs
deriving DecidableEq, Repr, Inhabited

namespace Loader

/-- The name of a loader function. -/
def name : Loader → String
  | define => "define"
  | require => "require"
  | requirejs => "requirejs"

/-- The loader function of a name. -/
def ofName? : String → Option Loader
  | "define" => some define
  | "require" => some require
  | "requirejs" => some requirejs
  | _ => none

/-- Whether an argument of this kind can be the dependencies of a call. Functions and object
literals cannot, and `define` takes a string for the name of a module. -/
def acceptsDependencies (l : Loader) (n : Node) : Bool :=
  match n.kind with
  | .function | .arrow | .functionDeclaration | .object => false
  | .string => l ≠ .define
  | _ => true

end Loader

/-- A loader call that names dependencies and a callback. -/
structure LoaderCall where
  /-- The function that is called. -/
  loader : Loader
  /-- The argument that names the module. -/
  moduleId : Option Node
  /-- The argument that names the dependencies. -/
  dependencies : Node
  /-- The function that is given the dependencies. -/
  callback : Node
  /-- The function that is called on an error. -/
  errback : Option Node
deriving Inhabited

/-- What a loader call does. -/
inductive LoaderCall.Variant where
  /-- Defines a module without a name. -/
  | defineAnonymous
  /-- Defines a module with a name. -/
  | defineNamed
  /-- Loads modules with `require`. -/
  | require
  /-- Loads modules with `requirejs`. -/
  | requirejs
deriving DecidableEq, Repr, Inhabited

namespace LoaderCall

/-- The shape of an argument list: dependencies and a callback, the same with an error callback
behind them, or the same with the name of a module before them. -/
def ofArguments? (loader : Loader) : List Node → Option LoaderCall
  | [dependencies, callback] =>
    if callback.kind.isFunction ∧ loader.acceptsDependencies dependencies then
      some ⟨loader, none, dependencies, callback, none⟩
    else none
  | [first, second, third] =>
    if second.kind.isFunction ∧ third.kind.isFunction ∧ loader.acceptsDependencies first then
      some ⟨loader, none, first, second, some third⟩
    else if first.kind = .string ∧ third.kind.isFunction ∧ loader.acceptsDependencies second then
      some ⟨loader, some first, second, third, none⟩
    else none
  | _ => none

/-- The loader call that a call is. A call with a spread among its arguments is none. -/
def of? (call : Node) : Option LoaderCall := do
  let loader ← call.calleeName.bind Loader.ofName?
  let arguments := call.arguments
  if arguments.any (·.kind = .spread) then none else ofArguments? loader arguments

/-- What the call does. -/
def variant (c : LoaderCall) : Variant :=
  match c.loader with
  | .define => if c.moduleId.isSome then .defineNamed else .defineAnonymous
  | .require => .require
  | .requirejs => .requirejs

end LoaderCall

end LoaderLint
