import LoaderLint.Script.Grammar.Declaration
import LoaderLint.Script.Grammar.Expression

/-!
# Statements

The module introduces:

* `Grammar.loop` — the forms of `for`;
* `Grammar.statement` — any statement or declaration;
* `Grammar.block` — statements in braces.

Braces at the start of a statement are a block. They are an object literal where the text fits only
that, and where they begin with a key and a colon and the statement fits an object literal too.
-/

namespace LoaderLint.Script.Grammar

open Reader

variable (read : Goal → Reader Node)

/-- Statements up to the end of what `stop` tells to be ahead. -/
def statementsUntil (stop : List Char → Bool) : Reader Unit :=
  repeatWhile do
    gap true
    if stop (← rest) then
      return false
    else
      emit (← read .statement)
      return true

/-- Statements in braces. -/
def block : Reader Node :=
  enclose .block do
    sign "\x7b"
    statementsUntil read fun cs => cs.head? = some '\x7d'
    sign "\x7d"

/-- An expression used as a statement. -/
def expressionStatement : Reader Node :=
  enclose .expressionStatement do
    emit (← expressions read .statement)
    semicolon true

/-- Whether the braces ahead begin with a key and a colon. -/
def keyAhead : Reader Bool := do
  let s ← get
  sign "\x7b"
  gap true
  let n := nameLength (← rest)
  let answer ←
    if n = 0 then pure false else pure (punctuatorAt (← peekPast n) == ":")
  set s
  return answer

/-- Whether the braces ahead begin with what only an object literal has there: a key that is no
plain word, or a method. -/
def memberAhead : Reader Bool := do
  let s ← get
  sign "\x7b"
  gap true
  let cs ← rest
  let ahead ← peekPast (nameLength cs)
  set s
  return nameLength cs = 0 && startsPropertyName cs ||
    nameLength cs ≠ 0 && (punctuatorAt ahead = "(" || startsPropertyName ahead)

/-- A statement that begins with a brace. -/
def braced : Reader Node := do
  if ← keyAhead then
    expressionStatement read <|> read .block
  else if ← memberAhead then
    read .block <|> expressionStatement read
  else
    read .block

/-- A condition in parentheses and a statement. -/
def guarded (kind : Kind) (text : String) : Reader Node :=
  enclose kind do
    word text
    condition read
    child read .statement

/-- An `if` statement with its alternative, if it has one. -/
def ifStatement : Reader Node :=
  enclose .ifStatement do
    word "if"
    condition read
    child read .statement
    if nameAt (← peek true) = "else" then
      gap true
      emit (← enclose .elseClause do
        word "else"
        child read .statement)

/-- A `do` statement. The semicolon behind it may be left out anywhere. -/
def doStatement : Reader Node :=
  enclose .doStatement do
    word "do"
    child read .statement
    gap true
    word "while"
    condition read
    if !(← impliesSemicolon true) then
      if ← followedBy ";" then expectAfter ";"

/-- The cases of a `switch` statement. -/
def switchBody : Reader Node :=
  enclose .switchBody do
    sign "\x7b"
    repeatWhile do
      gap true
      let text := nameAt (← rest)
      if text = "case" || text = "default" then
        emit (← enclose .switchCase do
          word text
          if text = "case" then
            gap true
            emit (← expressions read .inner)
          expectAfter ":"
          statementsUntil read fun cs =>
            cs.head? = some '\x7d' || nameAt cs = "case" || nameAt cs = "default")
        return true
      else
        sign "\x7d"
        return false

/-- A `switch` statement. -/
def switchStatement : Reader Node :=
  enclose .switchStatement do
    word "switch"
    condition read
    gap true
    emit (← switchBody read)

/-- A `try` statement with its handler and finalizer. -/
def tryStatement : Reader Node :=
  enclose .tryStatement do
    word "try"
    child read .block
    if nameAt (← peek true) = "catch" then
      gap true
      emit (← enclose .catchClause do
        word "catch"
        if punctuatorAt (← peek true) = "(" then
          expect "("
          gap true
          emit (← binding read)
          expectAfter ")"
        child read .block)
    if nameAt (← peek true) = "finally" then
      gap true
      emit (← enclose .finallyClause do
        word "finally"
        child read .block)

/-- A `break` or `continue` statement with its label, if it has one. -/
def jump (kind : Kind) (text : String) : Reader Node :=
  enclose kind do
    word text
    if !(← impliesSemicolon false) && nameLength (← peek true) ≠ 0 then
      gap true
      emit (← name .label)
    semicolon false

/-- A `return` statement with its value, if it has one. -/
def returnStatement : Reader Node :=
  enclose .returnStatement do
    word "return"
    if ← impliesSemicolon false then
      pure ()
    else if punctuatorAt (← peek true) = ";" then
      expect ";"
    else
      gap true
      emit (← expressions read .statement)
      semicolon true

/-- A `throw` statement. -/
def throwStatement : Reader Node :=
  enclose .throwStatement do
    word "throw"
    gap true
    emit (← expressions read .statement)
    semicolon true

/-- Whether the word `in` or `of` is next behind the target of a loop. -/
def iteratesNext : Reader Bool := do
  let text := nameAt (← peek false)
  return text = "in" || text = "of"

/-- The head of a loop over keys or values from behind its target, and the body. -/
def iterationRest (target : Node) : Reader Kind := do
  emit (target.withRole .left)
  gap true
  take 2
  gap true
  emit (← expressions read .inner)
  expectAfter ")"
  child read .statement
  return .forInStatement

/-- The head of a loop with three parts from behind the first of them, and the body. -/
def countingRest : Reader Kind := do
  gap true
  if punctuatorAt (← rest) = ";" then
    sign ";"
  else
    emit (← expressions read .inner)
    expectAfter ";"
  gap true
  if punctuatorAt (← rest) ≠ ")" then
    emit (← expressions read .inner)
  expectAfter ")"
  child read .statement
  return .forStatement

/-- The head of a loop that begins with a declaration. A loop over keys or values has no
declarator. -/
def declaredLoop (kind : Kind) (begins : List String) : Reader Kind := do
  let s ← get
  words begins
  gap true
  let bound ← binding read
  if ← iteratesNext then
    iterationRest read bound
  else
    let first ← declaratorOf read .loopHead bound
    if begins = ["var"] && (← iteratesNext) then
      emit bound
      match first.children.getLast? with
      | some value => iterationRest read value
      | none => failure
    else
      set s
      emit (← enclose kind do
        words begins
        let _ ← declarators read .loopHead
        expectAfter ";")
      countingRest read

/-- A `for` statement. -/
def loop : Reader Node :=
  encloseAs do
    word "for"
    gap true
    if nameAt (← rest) = "await" then
      word "await"
      gap true
    sign "("
    gap true
    if punctuatorAt (← rest) = ";" then
      sign ";"
      countingRest read
    else match ← declares? false with
      | some (kind, begins) => declaredLoop read kind begins
      | none =>
        let first ← expressions read .loopHead
        if ← iteratesNext then
          match first.toTarget? with
          | some target => iterationRest read target
          | none => failure
        else
          emit first
          expectAfter ";"
          countingRest read

/-- A statement that begins with a word. -/
def wordStatement (text : String) : Reader Node := do
  match text with
  | "if" => ifStatement read
  | "for" => loop read
  | "while" => guarded read .whileStatement text
  | "with" => guarded read .withStatement text
  | "do" => doStatement read
  | "switch" => switchStatement read
  | "try" => tryStatement read
  | "return" => returnStatement read
  | "throw" => throwStatement read
  | "break" => jump .breakStatement text
  | "continue" => jump .continueStatement text
  | "debugger" =>
    enclose .debuggerStatement do
      word text
      semicolon false
  | "import" =>
    let ahead := punctuatorAt (← peekPast text.length)
    if ahead = "(" || ahead = "." then expressionStatement read else importStatement read
  | "export" => enclose .exportStatement (exportRest read)
  | _ =>
    match ← namedDeclaration? read with
    | some node => return node
    | none =>
      match ← declares? true with
      | some (kind, begins) => declaration read kind begins
      | none =>
        if !isReserved text && punctuatorAt (← peekPast text.length) = ":" then
          enclose .labeledStatement do
            emit (← leaf .label text.length)
            expectAfter ":"
            child read .statement
        else
          expressionStatement read

/-- A statement or declaration. -/
def statement : Reader Node := do
  let cs ← rest
  let text := nameAt cs
  if text ≠ "" then
    wordStatement read text
  else match punctuatorAt cs with
    | "\x7b" => braced read
    | ";" => enclose .emptyStatement (sign ";")
    | "@" => decorated read
    | _ => expressionStatement read

end LoaderLint.Script.Grammar
