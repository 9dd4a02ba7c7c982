import LoaderLint.Script.Grammar.Literal

/-!
# Functions, objects and classes

The constructs with named members and bodies.

The module introduces:

* `Grammar.parameterList`, `Grammar.functionExpression` — functions;
* `Grammar.objectLiteral` — object literals, also those that turn out to be patterns;
* `Grammar.classExpression` — classes with their decorators.
-/

namespace LoaderLint.Script.Grammar

open Reader

variable (read : Goal → Reader Node)

/-- A parameter, with a default or taking the rest. -/
def parameter : Reader Node := do
  match (← listItem read).toPattern? .element with
  | some pattern => return pattern
  | none => failure

/-- A parameter list in parentheses. -/
def parameterList : Reader Node := do
  let list ← enclose .parameters do
    mark "("
    listOf (parameter read) ")"
  require (Node.isListed true list.listed)
  return list

/-- The parameters and the body of a function. -/
def signatureAndBody : Reader Unit := do
  gap true
  emit ((← parameterList read).withRole .parameters)
  child read .block

/-- A name in the role `role`, if one is next. -/
def optionalName (role : Role) : Reader Unit := do
  if nameLength (← peek true) ≠ 0 then
    gap true
    emit ((← name .identifier).withRole role)

/-- A function from the word `function` on. -/
def functionRest : Reader Unit := do
  word "function"
  if punctuatorAt (← peek true) = "*" then expect "*"
  optionalName .name
  signatureAndBody read

/-- A function expression, also an asynchronous one. -/
def functionExpression : Reader Node :=
  enclose .function do
    if nameAt (← rest) = "async" then
      word "async"
      gap true
    functionRest read

/-- The name of a property: a word, a string, a number, an expression in brackets, or a private
name. -/
def propertyName : Reader Node := do
  match ← rest with
  | '"' :: _ => stringLiteral '"'
  | '\'' :: _ => stringLiteral '\''
  | '[' :: _ =>
    enclose .computedName do
      sign "["
      child read (.expression .inner)
      expectAfter "]"
  | '#' :: cs =>
    require (nameLength cs ≠ 0)
    leaf .privateName (nameLength cs + 1)
  | cs =>
    if nameLength cs ≠ 0 then leaf .propertyName (nameLength cs)
    else token .number numberLength

/-- The words before the name of a method, and the star of a generator. A word is such a modifier
only if a name follows it. -/
def modifiers : Reader Unit :=
  repeatWhile do
    let cs ← rest
    let text := nameAt cs
    let ahead ← peekPast text.length
    if ["static", "async", "get", "set"].contains text &&
        (startsPropertyName ahead || punctuatorAt ahead = "*") then
      word text
      gap true
      return true
    else if punctuatorAt cs = "*" then
      sign "*"
      gap true
      return true
    else
      return false

/-- A member of an object literal. -/
def objectMember : Reader Node := do
  let cs ← rest
  let text := nameAt cs
  let ahead ← peekPast text.length
  if punctuatorAt cs = "..." then
    listItem read
  else if punctuatorAt cs = "*" || (["static", "async", "get", "set"].contains text &&
      (startsPropertyName ahead || punctuatorAt ahead = "*")) then
    enclose .method do
      modifiers
      emit (← propertyName read)
      signatureAndBody read
  else
    let key ← propertyName read
    match punctuatorAt (← peek true) with
    | "(" => extend key .method (signatureAndBody read)
    | ":" =>
      extend key .pair do
        expect ":"
        gap true
        emit ((← read (.expression .inner)).withRole .value)
    | mark =>
      require (key.kind = .propertyName && !isReserved key.text)
      if mark = "=" then
        extend (key.withKind .shorthand) .shorthandDefault do
          expect "="
          child read (.expression .inner)
      else
        return key.withKind .shorthand

/-- An object literal. Keys with a default are read too: the literal may turn out to be a
pattern. -/
def objectLiteral : Reader Node :=
  enclose .object do
    mark "\x7b"
    listOf (objectMember read) "\x7d"

/-- A decorator: a name, a chain of members, a call of one, or an expression in parentheses. -/
def decorator : Reader Unit := do
  emit (← enclose .decorator do
    sign "@"
    gap true
    if punctuatorAt (← rest) = "(" then
      condition read
    else
      let first ← name .identifier
      let target ← repeating (fun left => do
        if ← followedBy "." then
          let node ← extend (left.withRole .object) .member do
            expectAfter "."
            gap true
            let n := nameLength (← rest)
            require (n ≠ 0)
            emit ((← leaf .propertyName n).withRole .property)
          return some node
        else
          return none) first
      if ← followedBy "(" then
        emit (← extend (target.withRole .callee) .call do
          gap false
          emit ((← argumentList read).withRole .arguments))
      else
        emit target)

/-- The decorators ahead. -/
def decorators : Reader Unit :=
  repeatWhile do
    if punctuatorAt (← rest) = "@" then
      decorator read
      gap true
      return true
    else
      return false

/-- A member of a class, with the semicolon behind a field. -/
def classMember : Reader Unit := do
  let text := nameAt (← rest)
  let ahead ← peekPast text.length
  if text = "static" && punctuatorAt ahead = "\x7b" then
    emit (← enclose .staticBlock do
      word "static"
      child read .block)
  else
    let node ← encloseAs do
      decorators read
      modifiers
      emit (← propertyName read)
      if ← followedBy "(" then
        signatureAndBody read
        return .method
      else
        if ← impliesSemicolon false then
          return .classField
        else if ← followedBy "=" then
          expectAfter "="
          gap true
          emit ((← read (.expression .statement)).withRole .value)
          return .classField
        else
          return .classField
    emit node
    if node.kind = .classField then
      semicolon (node.children.any (·.head.role = .value))

/-- The body of a class. -/
def classBody : Reader Node :=
  enclose .classBody do
    sign "\x7b"
    repeatWhile do
      gap true
      match punctuatorAt (← rest) with
      | "\x7d" =>
        sign "\x7d"
        return false
      | ";" =>
        sign ";"
        return true
      | _ =>
        classMember read
        return true

/-- A class from the word `class` on. -/
def classRest : Reader Unit := do
  word "class"
  if nameAt (← peek true) ≠ "extends" then optionalName .name
  if nameAt (← peek true) = "extends" then
    gap true
    emit (← enclose .heritage do
      word "extends"
      child read (.operand .inner))
  gap true
  emit (← classBody read)

/-- A class expression with its decorators. -/
def classExpression : Reader Node :=
  enclose .classExpression do
    decorators read
    classRest read

end LoaderLint.Script.Grammar
