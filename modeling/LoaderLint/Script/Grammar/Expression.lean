import LoaderLint.Script.Grammar.Function
import LoaderLint.Script.Grammar.Markup

/-!
# Expressions

Operands with their prefix and postfix operators, and the infix operators between them.

The module introduces:

* `Operator`, `operatorAt?` — the infix operators with their levels;
* `Grammar.operand` — an operand, up to and including an assignment to it;
* `Grammar.operators` — operands joined by infix operators.

A pair of parentheses is read as a list and becomes a parameter list when an arrow follows it.
-/

namespace LoaderLint.Script

/-- An infix operator. -/
structure Operator where
  /-- Its spelling. -/
  text : String
  /-- How tightly it binds: a higher level binds first. -/
  level : Nat
  /-- Whether it associates to the right. -/
  rightward : Bool
deriving DecidableEq, Repr

/-- The level of the conditional operator. -/
def conditionalLevel : Nat := 3

/-- The infix operators, apart from the conditional and the comma. -/
def infixOperators : List Operator :=
  [⟨"**", 14, true⟩, ⟨"*", 13, false⟩, ⟨"/", 13, false⟩, ⟨"%", 13, false⟩, ⟨"+", 12, false⟩,
   ⟨"-", 12, false⟩, ⟨"<<", 11, false⟩, ⟨">>", 11, false⟩, ⟨">>>", 11, false⟩, ⟨"<", 10, false⟩,
   ⟨"<=", 10, false⟩, ⟨">", 10, false⟩, ⟨">=", 10, false⟩, ⟨"instanceof", 10, false⟩,
   ⟨"in", 10, false⟩, ⟨"==", 9, false⟩, ⟨"!=", 9, false⟩, ⟨"===", 9, false⟩, ⟨"!==", 9, false⟩,
   ⟨"&", 8, false⟩, ⟨"^", 7, false⟩, ⟨"|", 6, false⟩, ⟨"&&", 5, false⟩, ⟨"||", 4, false⟩,
   ⟨"??", conditionalLevel, false⟩]

/-- The infix operator ahead. The word `in` is one only where membership can be asked. -/
def operatorAt? (membership : Bool) (cs : List Char) : Option Operator :=
  let word := nameAt cs
  let text := if word = "" then punctuatorAt cs else word
  if text = "in" && !membership then none else infixOperators.find? (·.text = text)

/-- The compound assignment operators. -/
def compoundOperators : List String :=
  ["+=", "-=", "*=", "/=", "%=", "^=", "&=", "|=", ">>=", ">>>=", "<<=", "**=", "&&=", "||=",
    "??="]

namespace Grammar

open Reader

variable (read : Goal → Reader Node)

/-- The name behind the dot of a member access. -/
def memberName : Reader Unit := do
  gap true
  match ← rest with
  | '#' :: cs =>
    require (nameLength cs ≠ 0)
    emit ((← leaf .privateName (nameLength cs + 1)).withRole .property)
  | cs =>
    require (nameLength cs ≠ 0)
    emit ((← leaf .propertyName (nameLength cs)).withRole .property)

/-- The index of a member access in brackets. -/
def memberIndex : Reader Unit := do
  sign "["
  gap true
  emit (← expressions read .inner)
  expectAfter "]"

/-- The member access or tagged template behind an operand. -/
def access (left : Node) : Reader (Option Node) := do
  match punctuatorAt (← peek false) with
  | "." =>
    some <$> extend (left.withRole .object) .member do
      expectAfter "."
      memberName
  | "?." =>
    some <$> encloseFrom left.span.start [left.withRole .object] do
      expectAfter "?."
      gap true
      if punctuatorAt (← rest) = "[" then
        memberIndex read
        return .subscript
      else
        memberName
        return .member
  | "[" =>
    some <$> extend (left.withRole .object) .subscript do
      gap false
      memberIndex read
  | "`" =>
    some <$> extend (left.withRole .callee) .call do
      gap false
      emit ((← templateLiteral read).withRole .arguments)
  | _ => return none

/-- The call of an operand. -/
def callOf (left : Node) : Reader Node :=
  extend (left.withRole .callee) .call do
    gap false
    emit ((← argumentList read).withRole .arguments)

/-- The call, member access, tagged template, increment or decrement behind an operand. -/
def postfixStep (context : Context) (left : Node) : Reader (Option Node) := do
  if ← ends context then
    return none
  else
    let operator := punctuatorAt (← peek false)
    if operator = "(" then
      some <$> callOf read left
    else if operator = "++" || operator = "--" then
      some <$> extend left .update (expectAfter operator)
    else if operator = "?." then
      let s ← get
      expectAfter "?."
      gap true
      if punctuatorAt (← rest) = "(" then
        set s
        some <$> extend (left.withRole .callee) .call do
          expectAfter "?."
          gap true
          emit ((← argumentList read).withRole .arguments)
      else
        set s
        access read left
    else
      access read left

/-- An assignment to an operand, if an assignment operator follows it. -/
def assignmentTo (context : Context) (left : Node) : Reader Node := do
  let operator := punctuatorAt (← peek false)
  if operator = "=" then
    match left.toTarget? with
    | some target =>
      extend (target.withRole .left) .assignment do
        expectAfter "="
        child read (.expression context)
    | none => return left
  else if compoundOperators.contains operator &&
      [Kind.identifier, .member, .subscript, .parenthesized].contains left.kind then
    extend (left.withRole .left) .compoundAssignment do
      expectAfter operator
      child read (.expression context)
  else
    return left

/-- What follows an operand without prefix operators: accesses, calls, increments and decrements,
then an assignment. -/
def tail (context : Context) (primary : Node) : Reader Node := do
  let node ← repeating (postfixStep read context) primary
  if ← ends context then return node else assignmentTo read context node

/-- The arrow and the body of an arrow function. -/
def arrowBody (context : Context) : Reader Unit := do
  expectAfter "=>"
  gap true
  if punctuatorAt (← rest) = "\x7b" then emit (← read .block)
  else emit (← read (.expression context))

/-- An arrow function with the parameter list `parameters`. -/
def arrowFrom (context : Context) (parameters : Option Node) : Reader Node :=
  match parameters with
  | some list =>
    extend (list.withRole .parameters) .arrow (arrowBody read context)
  | none => failure

/-- An expression in parentheses, or an arrow function with its parameters in parentheses. -/
def parenthesized (context : Context) : Reader Node := do
  let list ← enclose .parenthesized do
    mark "("
    listItems read ")"
  if ← followedBy "=>" then
    arrowFrom read context list.toParameters?
  else match list.groupSequence? with
    | some node => return node
    | none => failure

/-- `new.target` or `import.meta`. -/
def metaProperty (before behind : String) : Reader Node :=
  enclose .metaProperty do
    word before
    expect "."
    gap true
    word behind

/-- A construction with `new`, its arguments if it has any. -/
def construction : Reader Node := do
  if punctuatorAt (← peekPast 3) = "." then
    metaProperty "new" "target"
  else
    enclose .construction do
      word "new"
      child read .constructed
      if ← followedBy "(" then
        gap false
        emit (← argumentList read)

/-- An operand that begins with a word and has no operators. -/
def wordPrimary (context : Context) (text : String) : Reader Node := do
  if valueWords.contains text then
    leaf .keyword text.length
  else match text with
    | "undefined" => leaf .undefined text.length
    | "function" => functionExpression read
    | "class" => classExpression read
    | "new" => construction read
    | "import" =>
      if punctuatorAt (← peekPast text.length) = "." then
        metaProperty "import" "meta"
      else
        require (punctuatorAt (← peekPast text.length) = "(")
        leaf .keyword text.length
    | _ =>
      let node ← name .identifier
      if ← followedBy "=>" then
        extend (node.withRole .parameter) .arrow (arrowBody read context)
      else
        return node

/-- An operand without prefix and postfix operators. -/
def primary (context : Context) : Reader Node := do
  let cs ← rest
  let text := nameAt cs
  if text ≠ "" then
    wordPrimary read context text
  else match cs with
    | '(' :: _ => parenthesized read context
    | '[' :: _ => arrayLiteral read
    | '\x7b' :: _ => objectLiteral read
    | '"' :: _ => stringLiteral '"'
    | '\'' :: _ => stringLiteral '\''
    | '`' :: _ => templateLiteral read
    | '/' :: _ => token .regex regexLength
    | '<' :: _ => read .element
    | '@' :: _ => classExpression read
    | '#' :: name =>
      require (nameLength name ≠ 0)
      let node ← leaf .privateName (nameLength name + 1)
      require (nameAt (← peek false) = "in")
      return node
    | _ => token .number numberLength

/-- What `new` constructs: an operand with member accesses but without calls. -/
def constructed : Reader Node := do
  repeating (access read) (← primary read .inner)

/-- A prefix operator of `n` characters with its operand. -/
def prefixed (kind : Kind) (n : Nat) (context : Context) : Reader Node :=
  enclose kind do
    take n
    child read (.operand context)

/-- An expression that yields, with its value if it has one. -/
def yielded (context : Context) : Reader Node :=
  enclose .yield do
    word "yield"
    if ← ends context then
      pure ()
    else
      let ahead ← peek true
      if punctuatorAt ahead = "*" then
        expect "*"
        child read (.expression context)
      else if startsOperand ahead then
        child read (.expression context)

/-- An arrow function of one parameter without parentheses, behind the word `async`. -/
def asyncSingle (context : Context) : Reader Node :=
  enclose .arrow do
    word "async"
    gap true
    emit ((← name .identifier).withRole .parameter)
    arrowBody read context

/-- A call of `async`, or an asynchronous arrow function with its parameters in parentheses. -/
def asyncCall (context : Context) : Reader Node := do
  let node ← leaf .identifier 5
  let call ← callOf read node
  if ← followedBy "=>" then
    match call.children.reverse with
    | list :: before =>
      match list.toParameters? with
      | some list =>
        encloseFrom call.span.start (list.withRole .parameters :: before.dropLast) do
          arrowBody read context
          return .arrow
      | none => failure
    | [] => failure
  else
    return call

/-- What begins with the word `async`: a function, an arrow function, or the name. -/
def asyncOperand (context : Context) : Reader Node := do
  let ahead ← peekPast 5
  let broken ← if context.breaks then impliesSemicolonPast true 5 else pure false
  if broken then
    tail read context (← name .identifier)
  else if nameAt ahead = "function" then
    tail read context (← functionExpression read)
  else if punctuatorAt ahead = "(" then
    tail read context (← asyncCall read context)
  else if nameAt ahead ≠ "" && !isReserved (nameAt ahead) then
    tail read context (← asyncSingle read context <|> name .identifier)
  else
    tail read context (← primary read context)

/-- What begins with the word `await`: the operator if an operand follows, else the name. -/
def awaitOperand (context : Context) : Reader Node := do
  let broken ← if context.breaks then impliesSemicolonPast true 5 else pure false
  if !broken && startsOperand (← peekPast 5) then
    prefixed read .await 5 context
  else
    tail read context (← primary read context)

/-- An operand with its prefix and postfix operators, up to and including an assignment to it. -/
def operand (context : Context) : Reader Node := do
  let cs ← rest
  let text := nameAt cs
  if ["typeof", "void", "delete"].contains text then
    prefixed read .unary text.length context
  else if text = "await" then
    awaitOperand read context
  else if text = "yield" then
    yielded read context
  else if text = "async" then
    asyncOperand read context
  else
    let operator := punctuatorAt cs
    if operator = "++" || operator = "--" then
      prefixed read .update 2 context
    else if ["!", "~", "+", "-"].contains operator then
      prefixed read .unary 1 context
    else
      tail read context (← primary read context)

/-- The infix operator behind `left` with its right operand, if it binds tightly enough. -/
def operatorStep (level : Nat) (context : Context) (left : Node) : Reader (Option Node) := do
  if ← ends context then
    return none
  else
    let ahead ← peek false
    match operatorAt? context.membership ahead with
    | some operator =>
      if operator.level < level then
        return none
      else
        some <$> extend left .binary do
          gap false
          take operator.text.length
          let next := if operator.rightward then operator.level else operator.level + 1
          child read (.operators next context)
    | none =>
      if punctuatorAt ahead = "?" && level ≤ conditionalLevel then
        some <$> extend left .conditional do
          expectAfter "?"
          child read (.expression .inner)
          expectAfter ":"
          child read (.expression context)
      else
        return none

/-- Operands joined by infix operators that bind at least as tightly as the level. -/
def operators (level : Nat) (context : Context) : Reader Node := do
  repeating (operatorStep read level context) (← read (.operand context))

end Grammar

end LoaderLint.Script
