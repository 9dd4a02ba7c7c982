import LoaderLint.Script.Grammar.Goal

/-!
# Literals

Strings, templates, numbers and regular expressions, and the lists in brackets that arrays,
arguments and parentheses share.

The module introduces:

* `Grammar.stringLiteral`, `Grammar.templateLiteral` — literals with escapes in them;
* `Grammar.expressions` — expressions with comma operators;
* `Grammar.listItems` — items and holes up to a closing bracket.
-/

namespace LoaderLint.Script.Grammar

open Reader

variable (read : Goal → Reader Node)

/-- An escape sequence. -/
def escapeSequence : Reader Unit := do
  match escapeLength (← rest) with
  | some n => emit (← leaf .escape n)
  | none => failure

/-- A string literal in the quotes `quote`. A line of the source does not end inside it. -/
def stringLiteral (quote : Char) : Reader Node :=
  enclose .string do
    take 1
    repeatWhile do
      let cs ← rest
      match cs.head? with
      | some c =>
        if c = quote then
          take 1
          return false
        else if c = '\\' then
          escapeSequence
          return true
        else
          let run := cs.takeWhile fun d => d ≠ quote && d ≠ '\\' && d ≠ '\r' && d ≠ '\n'
          require (!run.isEmpty)
          emit (← leaf .fragment run.length)
          return true
      | none => failure

/-- The number of characters of a template ahead that stand for themselves. -/
def templateRunLength : List Char → Nat
  | [] => 0
  | c :: rest =>
    if c = '`' || c = '\\' || (c = '$' && rest.head? = some '\x7b') then 0
    else 1 + templateRunLength rest

/-- Expressions with comma operators between them. -/
def expressions (context : Context) : Reader Node := do
  let first ← read (.expression context)
  if ← followedBy "," then
    extend first .sequence do
      repeatWhile do
        if ← followedBy "," then
          expectAfter ","
          child read (.expression context)
          return true
        else
          return false
  else
    return first

/-- A template literal with the expressions inside it. -/
def templateLiteral : Reader Node :=
  enclose .template do
    take 1
    repeatWhile do
      let cs ← rest
      match cs with
      | '`' :: _ =>
        take 1
        return false
      | '\\' :: _ =>
        escapeSequence
        return true
      | '$' :: '\x7b' :: _ =>
        emit (← enclose .substitution do
          take 2
          gap true
          emit (← expressions read .inner)
          expectAfter "\x7d")
        return true
      | _ =>
        let n := templateRunLength cs
        require (n ≠ 0)
        emit (← leaf .fragment n)
        return true

/-- A token of the kind, which has the given length. -/
def token (kind : Kind) (length : List Char → Nat) : Reader Node := do
  let n := length (← rest)
  require (n ≠ 0)
  leaf kind n

/-- An expression, or a spread of one. -/
def listItem : Reader Node := do
  if punctuatorAt (← rest) = "..." then
    enclose .spread do
      sign "..."
      child read (.expression .inner)
  else
    read (.expression .inner)

/-- Items read by `item` with commas between them, up to the closing bracket. Where nothing stands
before a comma there is a hole. -/
def listOf (item : Reader Node) (close : String) : Reader Unit :=
  repeatWhile do
    gap true
    let ahead := punctuatorAt (← rest)
    if ahead = close then
      mark close
      return false
    else if ahead = "," then
      mark ","
      return true
    else
      emit (← item)
      gap false
      if punctuatorAt (← rest) = "," then
        mark ","
        return true
      else
        mark close
        return false

/-- Expressions, spreads and holes up to the closing bracket. -/
def listItems (close : String) : Reader Unit := listOf (listItem read) close

/-- An argument list. -/
def argumentList : Reader Node :=
  enclose .arguments do
    mark "("
    listItems read ")"

/-- An array literal. -/
def arrayLiteral : Reader Node :=
  enclose .array do
    mark "["
    listItems read "]"

/-- One expression in parentheses, as conditions of statements are. -/
def condition : Reader Unit := do
  gap true
  emit (← enclose .parenthesized do
    mark "("
    gap true
    emit (← expressions read .inner)
    gap false
    mark ")")

end LoaderLint.Script.Grammar
