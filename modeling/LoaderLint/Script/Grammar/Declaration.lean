import LoaderLint.Script.Grammar.Function

/-!
# Declarations

Declarations of names, and the statements that import and export them.

The module introduces:

* `Grammar.binding`, `Grammar.declarators` — the names and patterns of a declaration;
* `Grammar.declares?` — the kind of declaration of names that the text ahead begins;
* `Grammar.importStatement`, `Grammar.exportRest` — names that cross module borders.
-/

namespace LoaderLint.Script.Grammar

open Reader

variable (read : Goal → Reader Node)

/-- A literal as the pattern that it spells. -/
def patternOf (literal : Node) : Reader Node :=
  match literal.toPattern? .target with
  | some node => pure node
  | none => failure

/-- A name or a pattern that a declaration binds. -/
def binding : Reader Node := do
  match ← rest with
  | '[' :: _ => patternOf (← arrayLiteral read)
  | '\x7b' :: _ => patternOf (← objectLiteral read)
  | _ => name .identifier

/-- The declarator of what is bound, with its value if it has one. -/
def declaratorOf (context : Context) (bound : Node) : Reader Node :=
  extend (bound.withRole .name) .declarator do
    let broken ← if context.breaks then impliesSemicolon false else pure false
    if !broken then
      if ← followedBy "=" then
        expectAfter "="
        gap true
        emit ((← read (.expression context)).withRole .value)

/-- The declarators behind the first, which is `first`. Answers whether the last has a value. -/
def moreDeclarators (context : Context) (first : Node) : Reader Bool := do
  emit first
  let last ← repeating (fun _ => do
    if ← followedBy "," then
      expectAfter ","
      gap true
      let node ← declaratorOf read context (← binding read)
      emit node
      return some node
    else
      return none) first
  return last.children.any (·.head.role = .value)

/-- Declarators with commas between them. Answers whether the last has a value. -/
def declarators (context : Context) : Reader Bool := do
  gap true
  moreDeclarators read context (← declaratorOf read context (← binding read))

/-- Whether a name that can be bound is ahead. -/
def bindable (cs : List Char) : Bool := nameLength cs ≠ 0 && !isReserved (nameAt cs)

/-- The kind of declaration that the text ahead begins, with the words that begin it: `var` and
`const` always do, `let` and `using` only if something to bind follows, and where a statement can
end (`breaks`) only if no semicolon is implied before it. -/
def declares? (breaks : Bool) : Reader (Option (Kind × List String)) := do
  match nameAt (← rest) with
  | "var" => return some (.variableDeclaration, ["var"])
  | "const" => return some (.lexicalDeclaration, ["const"])
  | "let" =>
    let ahead ← peekPast 3
    if !(breaks && (← impliesSemicolonPast true 3)) &&
      (bindable ahead || punctuatorAt ahead = "[" ||
        punctuatorAt ahead = "\x7b") then
      return some (.lexicalDeclaration, ["let"])
    else
      return none
  | "using" =>
    if !(breaks && (← impliesSemicolonPast true 5)) && bindable (← peekPast 5) then
      return some (.usingDeclaration, ["using"])
    else
      return none
  | "await" =>
    let s ← get
    word "await"
    gap true
    let second ← rest
    let behind ← peekPast 5
    set s
    if nameAt second = "using" && bindable behind then
      return some (.usingDeclaration, ["await", "using"])
    else
      return none
  | _ => return none

/-- Takes words one after the other. -/
def words : List String → Reader Unit
  | [] => pure ()
  | [last] => word last
  | first :: others => do
    word first
    gap true
    words others

/-- A declaration of names with the semicolon that ends it. -/
def declaration (kind : Kind) (begins : List String) : Reader Node :=
  enclose kind do
    words begins
    semicolon (← declarators read .statement)

/-- Whether a named function is ahead, also an asynchronous one. -/
def namedFunctionAhead : Reader Bool := do
  let s ← get
  let text := nameAt (← rest)
  let broken ← if text = "async" then impliesSemicolonPast true 5 else pure false
  if text = "async" then
    word "async"
    gap true
  let answer ←
    if nameAt (← rest) = "function" && !broken then do
      word "function"
      gap true
      if punctuatorAt (← rest) = "*" then
        sign "*"
        gap true
      pure (nameLength (← rest) != 0)
    else
      pure false
  set s
  return answer

/-- Whether a named class is ahead. -/
def namedClassAhead : Reader Bool := do
  if nameAt (← rest) = "class" then
    let ahead := nameAt (← peekPast 5)
    return ahead ≠ "" && ahead ≠ "extends"
  else
    return false

/-- A function or class with a name, which declares it; nothing if none is ahead. -/
def namedDeclaration? : Reader (Option Node) := do
  if ← namedFunctionAhead then
    return some ((← functionExpression read).withKind .functionDeclaration)
  else if ← namedClassAhead then
    return some ((← classExpression read).withKind .classDeclaration)
  else
    return none

/-- A string literal, in either kind of quotes. -/
def anyString : Reader Node := do
  match ← rest with
  | '"' :: _ => stringLiteral '"'
  | '\'' :: _ => stringLiteral '\''
  | _ => failure

/-- The module that names come from, with attributes in braces if there are any. -/
def source : Reader Unit := do
  gap true
  emit (← anyString)
  if !(← impliesSemicolon false) && nameAt (← peek true) = "with" then
    gap true
    word "with"
    gap true
    emit (← objectLiteral read)

/-- The word `from` and the module that names come from. -/
def fromSource : Reader Unit := do
  gap true
  word "from"
  source read

/-- The name of an export: a name, a string, or `default`. -/
def exportedName : Reader Node := do
  let cs ← rest
  if cs.head? = some '"' || cs.head? = some '\'' then anyString
  else if nameAt cs = "default" then leaf .label 7
  else name .label

/-- Names in braces, each with another name behind `as` if it has one. An import needs a plain name
for what it binds. -/
def moduleNames (imports : Bool) : Reader Node := do
  let list ← enclose .moduleNames do
    mark "\x7b"
    listOf (enclose .pair do
      let first ← exportedName
      emit first
      if nameAt (← peek true) = "as" then
        gap true
        word "as"
        gap true
        emit (← if imports then name .label else exportedName)
      else
        require (!imports || (first.kind = .label && first.text ≠ "default"))) "\x7d"
  require (Node.isListed true list.listed)
  return list

/-- All names of a module under one name: `* as` and the name. -/
def allNames (item : Reader Node) : Reader Unit := do
  sign "*"
  gap true
  word "as"
  gap true
  emit (← item)

/-- What an import binds: all names under one, names in braces, or a name alone or with one of
these. -/
def importClause : Reader Unit := do
  match punctuatorAt (← rest) with
  | "*" => allNames (name .label)
  | "\x7b" => emit (← moduleNames true)
  | _ =>
    emit (← name .label)
    if punctuatorAt (← peek true) = "," then
      expect ","
      gap true
      if punctuatorAt (← rest) = "*" then allNames (name .label)
      else emit (← moduleNames true)

/-- An import statement. -/
def importStatement : Reader Node :=
  enclose .importStatement do
    word "import"
    gap true
    let cs ← rest
    if cs.head? = some '"' || cs.head? = some '\'' then
      source read
    else
      importClause
      fromSource read
    semicolon false

/-- What follows the word `default` of an export: a declaration or an expression. -/
def exportDefault : Reader Unit := do
  gap true
  match ← namedDeclaration? read with
  | some node => emit node
  | none =>
    emit (← read (.expression .statement))
    semicolon true

/-- An export from the word `export` on. -/
def exportRest : Reader Unit := do
  word "export"
  gap true
  match punctuatorAt (← rest) with
  | "*" =>
    if nameAt (← peekPast 1) = "as" then allNames exportedName else sign "*"
    fromSource read
    semicolon false
  | "\x7b" =>
    emit (← moduleNames false)
    if !(← impliesSemicolon false) && nameAt (← peek true) = "from" then
      fromSource read
    semicolon false
  | "@" => emit ((← classExpression read).withKind .classDeclaration)
  | _ =>
    if nameAt (← rest) = "default" then
      word "default"
      exportDefault read
    else match ← namedDeclaration? read with
      | some node => emit node
      | none =>
        match ← declares? false with
        | some (kind, begins) => emit (← declaration read kind begins)
        | none => failure

/-- A class or an export with decorators in front of it. -/
def decorated : Reader Node :=
  encloseAs do
    decorators read
    if nameAt (← rest) = "export" then
      exportRest read
      return .exportStatement
    else
      require (← namedClassAhead)
      classRest read
      return .classDeclaration

end LoaderLint.Script.Grammar
