import LoaderLint.Script.Pattern
import LoaderLint.Script.Reader

/-!
# Goals of the grammar

The rules of the grammar call each other in circles. Every circle goes through a goal, so each rule
is an ordinary function that is given a reader for every goal.

The module introduces:

* `Context` — what may follow the expression being read;
* `Goal` — the constructs that rules ask each other for;
* `startsOperand`, `startsPropertyName` — what the text ahead can begin.
-/

namespace LoaderLint.Script

/-- What may follow the expression being read. -/
structure Context where
  /-- Whether the expression ends with its statement, so that a line break can end it. -/
  breaks : Bool
  /-- Whether `in` is an operator, as it is everywhere but in the head of a loop. -/
  membership : Bool
deriving DecidableEq, Repr

/-- An expression inside brackets. -/
def Context.inner : Context := ⟨false, true⟩

/-- An expression that ends with its statement. -/
def Context.statement : Context := ⟨true, true⟩

/-- An expression at the start of the head of a loop. -/
def Context.loopHead : Context := ⟨false, false⟩

/-- The constructs that rules ask each other for. -/
inductive Goal where
  /-- A statement or declaration. -/
  | statement
  /-- Statements in braces. -/
  | block
  /-- An expression without a comma operator. -/
  | expression (context : Context)
  /-- An operand with the infix operators behind it that bind at least as tightly as the level. -/
  | operators (level : Nat) (context : Context)
  /-- An operand with its prefix and postfix operators. -/
  | operand (context : Context)
  /-- What `new` constructs. -/
  | constructed
  /-- A markup element. -/
  | element
deriving DecidableEq, Repr

namespace Reader

/-- Whether the expression read so far has to end here. -/
def ends (context : Context) : Reader Bool :=
  if context.breaks then impliesSemicolon true else pure false

/-- Reads a goal behind a gap and adds its node to the construct that is open. -/
def child (read : Goal → Reader Node) (goal : Goal) : Reader Unit := do
  gap true
  emit (← read goal)

end Reader

/-- The words that stand for a value of their own. -/
def valueWords : List String := ["this", "super", "null", "true", "false"]

/-- The reserved words that can begin an operand. -/
def operandWords : List String :=
  valueWords ++ ["function", "class", "new", "typeof", "void", "delete", "import"]

/-- Whether the text ahead can begin an operand. -/
def startsOperand (cs : List Char) : Bool :=
  let word := nameAt cs
  if word ≠ "" then !isReserved word || operandWords.contains word
  else match cs with
    | '.' :: d :: _ => d.isDigit
    | c :: _ => c.isDigit || "([\x7b\"'`+-!~/<#@".toList.contains c
    | [] => false

/-- Whether the text ahead can begin the name of a property. -/
def startsPropertyName (cs : List Char) : Bool :=
  nameLength cs ≠ 0 || numberLength cs ≠ 0 ||
    match cs with
    | c :: _ => "\"'[#".toList.contains c
    | [] => false

end LoaderLint.Script
