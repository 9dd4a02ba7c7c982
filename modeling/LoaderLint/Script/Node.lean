import LoaderLint.Script.Span

/-!
# Syntax trees

A source text is read into a rose tree. Every node has a grammatical kind, the role it plays for
its parent, the span it covers, and a number that no other node of the tree has. Leaves whose
spelling matters carry it as text.

The module introduces:

* `Kind`, `Role`, `Head`, `Node` — the tree;
* `Node.field`, `Node.namedChildren`, `Node.unparenthesized` — steps in the tree;
* `Node.arguments`, `Node.parameters`, `Node.elements` — the parts of calls, functions and arrays,
  with comments skipped and parentheses stripped;
* `Node.visits` — the calls, declarators and assignments of a tree in pre-order;
* `Node.pathTo`, `Node.statementLine` — the ancestors of a node and the line of its statement.

## References

* The specification of amd-lint, §10.1: `JsNode` is `Node` here and `NodeKind` is `Kind`, with more
  kinds under its `Other`; `callee`, `arguments`, `parameters`, `elements`, `unparenthesized` and
  `statement_line` are the functions of `Node` of these names;
* §10.2: `walk_file` with the hooks of `Visit` is `Node.visits` here.
-/

namespace LoaderLint.Script

/-- The grammatical kinds of nodes. -/
inductive Kind where
  /-- The whole source. -/
  | program
  /-- A call, also a tagged template and an optional call. -/
  | call
  /-- A parenthesized argument list. -/
  | arguments
  /-- An array literal. -/
  | array
  /-- An object literal. -/
  | object
  /-- A function expression, also a generator or an asynchronous one. -/
  | function
  /-- An arrow function. -/
  | arrow
  /-- A function declaration, also of a generator or an asynchronous function. -/
  | functionDeclaration
  /-- A name used as an expression or bound by a pattern. -/
  | identifier
  /-- A string literal. -/
  | string
  /-- A template literal. -/
  | template
  /-- A spread in an array, an object or an argument list. -/
  | spread
  /-- A member access by name. -/
  | member
  /-- One name or pattern of a declaration with its value. -/
  | declarator
  /-- An assignment with `=`. -/
  | assignment
  /-- An assignment with a compound operator. -/
  | compoundAssignment
  /-- A comment that starts with two slashes or with a slash and a star. -/
  | comment
  /-- A comment that starts with `<!--` or `-->`. -/
  | markupComment
  /-- An expression in parentheses. -/
  | parenthesized
  /-- A run of characters of a string that stand for themselves. -/
  | fragment
  /-- An escape sequence of a string. -/
  | escape
  /-- A bracket or a comma of a list. -/
  | punctuation
  /-- The name `undefined`. -/
  | undefined
  /-- A member access by an expression in brackets. -/
  | subscript
  /-- Expressions separated by commas. -/
  | sequence
  /-- A prefix operator with its operand. -/
  | unary
  /-- An infix operator with its operands. -/
  | binary
  /-- A conditional expression. -/
  | conditional
  /-- An increment or decrement. -/
  | update
  /-- A construction with `new`. -/
  | construction
  /-- An expression that waits. -/
  | await
  /-- An expression that yields. -/
  | yield
  /-- A class expression. -/
  | classExpression
  /-- The body of a class. -/
  | classBody
  /-- A class that another class extends. -/
  | heritage
  /-- A field of a class. -/
  | classField
  /-- A static block of a class. -/
  | staticBlock
  /-- A decorator of a class or a member. -/
  | decorator
  /-- A method of a class or an object. -/
  | method
  /-- A key of an object with its value. -/
  | pair
  /-- A key of an object that is its own value. -/
  | shorthand
  /-- A key that is its own value, with a default: allowed in patterns only. -/
  | shorthandDefault
  /-- The name of a property. -/
  | propertyName
  /-- A property name computed from an expression. -/
  | computedName
  /-- A property name that starts with `#`. -/
  | privateName
  /-- A parenthesized parameter list. -/
  | parameters
  /-- An array pattern. -/
  | arrayPattern
  /-- An object pattern. -/
  | objectPattern
  /-- A key of an object pattern with its pattern. -/
  | pairPattern
  /-- A pattern with a default value. -/
  | defaultPattern
  /-- A pattern that takes the rest of a list. -/
  | restPattern
  /-- A number literal. -/
  | number
  /-- A regular expression literal. -/
  | regex
  /-- A word that is an expression of its own, such as `this`. -/
  | keyword
  /-- `new.target` or `import.meta`. -/
  | metaProperty
  /-- An expression inside a template literal. -/
  | substitution
  /-- A markup element. -/
  | element
  /-- An opening or closing tag of a markup element. -/
  | tag
  /-- An attribute of a markup element. -/
  | tagAttribute
  /-- Text between markup tags or an attribute value in quotes. -/
  | markupText
  /-- An expression inside markup. -/
  | markupExpression
  /-- Statements in braces. -/
  | block
  /-- The alternative of an `if` statement. -/
  | elseClause
  /-- The cases of a `switch` statement. -/
  | switchBody
  /-- One case of a `switch` statement. -/
  | switchCase
  /-- The handler of a `try` statement. -/
  | catchClause
  /-- The finalizer of a `try` statement. -/
  | finallyClause
  /-- The name of a label. -/
  | label
  /-- The names that an import or export statement lists. -/
  | moduleNames
  /-- The line that names an interpreter. -/
  | interpreterLine
  /-- An export. -/
  | exportStatement
  /-- An import. -/
  | importStatement
  /-- A `debugger` statement. -/
  | debuggerStatement
  /-- An expression used as a statement. -/
  | expressionStatement
  /-- An `if` statement. -/
  | ifStatement
  /-- A `switch` statement. -/
  | switchStatement
  /-- A `for` statement with three parts. -/
  | forStatement
  /-- A `for` statement over keys or values. -/
  | forInStatement
  /-- A `while` statement. -/
  | whileStatement
  /-- A `do` statement. -/
  | doStatement
  /-- A `try` statement. -/
  | tryStatement
  /-- A `with` statement. -/
  | withStatement
  /-- A `break` statement. -/
  | breakStatement
  /-- A `continue` statement. -/
  | continueStatement
  /-- A `return` statement. -/
  | returnStatement
  /-- A `throw` statement. -/
  | throwStatement
  /-- A semicolon alone. -/
  | emptyStatement
  /-- A statement with a label. -/
  | labeledStatement
  /-- A class declaration. -/
  | classDeclaration
  /-- A declaration with `var`. -/
  | variableDeclaration
  /-- A declaration with `let` or `const`. -/
  | lexicalDeclaration
  /-- A declaration with `using`. -/
  | usingDeclaration
deriving DecidableEq, Repr, Inhabited

/-- Whether a node of this kind is a statement or a declaration, whose first line a directive above
a long statement can name. Blocks are not: their statements are. -/
def Kind.isStatement : Kind → Bool
  | .exportStatement | .importStatement | .debuggerStatement | .expressionStatement | .ifStatement
  | .switchStatement | .forStatement | .forInStatement | .whileStatement | .doStatement
  | .tryStatement | .withStatement | .breakStatement | .continueStatement | .returnStatement
  | .throwStatement | .emptyStatement | .labeledStatement | .functionDeclaration
  | .classDeclaration | .variableDeclaration | .lexicalDeclaration | .usingDeclaration => true
  | _ => false

/-- Whether the kind is that of a function value: a function expression or an arrow function. -/
def Kind.isFunction : Kind → Bool
  | .function | .arrow => true
  | _ => false

/-- Whether a comment of this kind may stand between any two tokens. -/
def Kind.isTrivia : Kind → Bool
  | .comment | .markupComment => true
  | _ => false

/-- The role a node plays for its parent. -/
inductive Role where
  /-- No role of its own. -/
  | plain
  /-- What a call calls. -/
  | callee
  /-- The arguments of a call. -/
  | arguments
  /-- The only parameter of an arrow function written without parentheses. -/
  | parameter
  /-- The parameter list of a function. -/
  | parameters
  /-- What a declarator declares. -/
  | name
  /-- The target of an assignment. -/
  | left
  /-- The object of a member access. -/
  | object
  /-- The property of a member access. -/
  | property
  /-- The value of a key. -/
  | value
deriving DecidableEq, Repr, Inhabited

/-- All that a node is apart from its children. -/
structure Head where
  /-- The number of the node, its own in its tree. -/
  id : Nat
  /-- Its grammatical kind. -/
  kind : Kind
  /-- The role it plays for its parent. -/
  role : Role
  /-- The stretch of source it covers. -/
  span : Span
  /-- The spelling of a leaf, empty for other nodes. -/
  text : String
deriving DecidableEq, Repr, Inhabited

/-- A syntax tree. -/
inductive Node where
  /-- A node with its children in source order. -/
  | mk (head : Head) (children : List Node)
deriving Repr, Inhabited

namespace Node

/-- The node without its children. -/
def head : Node → Head
  | mk head _ => head

/-- The children in source order, punctuation included. -/
def children : Node → List Node
  | mk _ children => children

/-- The number of the node. -/
def id (n : Node) : Nat := n.head.id

/-- The grammatical kind of the node. -/
def kind (n : Node) : Kind := n.head.kind

/-- The stretch of source that the node covers. -/
def span (n : Node) : Span := n.head.span

/-- The spelling of a leaf. -/
def text (n : Node) : String := n.head.text

/-- The line on which the node starts. -/
def line (n : Node) : Nat := n.span.start.line

/-- The node in another role. -/
def withRole (role : Role) : Node → Node
  | mk head children => mk { head with role } children

/-- The node as one of another kind. -/
def withKind (kind : Kind) : Node → Node
  | mk head children => mk { head with kind } children

/-- The first child that plays the role. -/
def field (n : Node) (role : Role) : Option Node :=
  n.children.find? (·.head.role = role)

/-- The children without punctuation. -/
def namedChildren (n : Node) : List Node :=
  n.children.filter (·.kind ≠ .punctuation)

/-- Whether the node is a comment that the rules skip. -/
def isComment (n : Node) : Bool := n.kind = .comment

mutual

/-- The expression inside any number of parentheses: of a parenthesized expression the first
child that is neither punctuation nor a comment, and so on inwards. -/
def unparenthesized : Node → Node
  | mk head children =>
    if head.kind = .parenthesized then (firstUnparenthesized children).getD (mk head children)
    else mk head children

/-- The first of the nodes that is neither punctuation nor a comment, without its parentheses. -/
def firstUnparenthesized : List Node → Option Node
  | [] => none
  | n :: rest =>
    if n.kind = .punctuation ∨ n.kind = .comment then firstUnparenthesized rest
    else some n.unparenthesized

end

/-- What a call calls. -/
def callee (n : Node) : Option Node := n.field .callee

/-- The spelling of a plain name. -/
def identifierName (n : Node) : Option String :=
  if n.kind = .identifier then some n.text else none

/-- The name that a call calls, if what it calls is a plain name. -/
def calleeName (n : Node) : Option String := n.callee.bind identifierName

/-- The arguments of a call without comments and without parentheses around them. A tagged template
has none. -/
def arguments (n : Node) : List Node :=
  match n.field .arguments with
  | some list =>
    if list.kind = .arguments then
      (list.namedChildren.filter (!·.isComment)).map unparenthesized
    else []
  | none => []

/-- The members of the parenthesized parameter list of a function, without comments. -/
def listedParameters (n : Node) : List Node :=
  match n.field .parameters with
  | some list => list.namedChildren.filter (!·.isComment)
  | none => []

/-- The parameters of a function, without comments. -/
def parameters (n : Node) : List Node :=
  match n.kind with
  | .arrow =>
    match n.field .parameter with
    | some single => [single]
    | none => n.listedParameters
  | .function | .functionDeclaration => n.listedParameters
  | _ => []

/-- The slots that follow in an array whose children are still to be read, where `current` is the
element read since the last comma. A comma closes the slot before it, also an empty one; the
closing bracket closes a slot only if something stands in it. -/
def slots (current : Option Node) : List Node → List (Option Node)
  | [] => []
  | n :: rest =>
    if n.kind = .comment then slots current rest
    else if n.kind = .punctuation then
      if n.text = "," then current :: slots none rest
      else if n.text = "]" then
        match current with
        | some element => some element :: slots none rest
        | none => slots none rest
      else slots current rest
    else slots (some n.unparenthesized) rest

/-- The slots of an array literal: an element without its parentheses, or nothing for a hole. -/
def elements (n : Node) : List (Option Node) := slots none n.children

end Node

/-- A node that a traversal stops at. -/
inductive Visit where
  /-- A call. -/
  | call (node : Node)
  /-- A declarator. -/
  | declarator (node : Node)
  /-- A plain or compound assignment. -/
  | assignment (node : Node)
deriving Inhabited

namespace Visit

/-- The node stopped at. -/
def node : Visit → Node
  | call n | declarator n | assignment n => n

/-- The stop that a node makes, if it makes one. -/
def ofNode? (n : Node) : Option Visit :=
  match n.kind with
  | .call => some (call n)
  | .declarator => some (declarator n)
  | .assignment | .compoundAssignment => some (assignment n)
  | _ => none

end Visit

namespace Node

mutual

/-- The calls, declarators and assignments of a tree in pre-order: an enclosing one before those it
contains, those side by side in source order. -/
def visits : Node → List Visit
  | mk head children => (Visit.ofNode? (mk head children)).toList ++ visitsAmong children

/-- The stops of a list of trees one after the other. -/
def visitsAmong : List Node → List Visit
  | [] => []
  | n :: rest => (if n.kind = .punctuation then [] else n.visits) ++ visitsAmong rest

end

/-- The calls of a tree in pre-order. -/
def calls (n : Node) : List Node :=
  n.visits.filterMap fun
    | .call c => some c
    | _ => none

mutual

/-- The way from the node with the number `id` up to the root: the node itself first, the root
last. -/
def pathTo (id : Nat) : Node → Option (List Node)
  | mk head children =>
    if head.id = id then some [mk head children]
    else (pathAmong id children).map (· ++ [mk head children])

/-- The way up from the node with the number `id` inside the first tree that has it. -/
def pathAmong (id : Nat) : List Node → Option (List Node)
  | [] => none
  | n :: rest => (pathTo id n).orElse fun _ => pathAmong id rest

end

/-- The line on which the statement around a node of the tree starts: that of the innermost
statement or declaration among the node and its ancestors, or the node's own line if there is
none. -/
def statementLine (root n : Node) : Nat :=
  match ((root.pathTo n.id).getD [n]).find? (·.kind.isStatement) with
  | some statement => statement.line
  | none => n.line

mutual

/-- The tree with its nodes numbered in pre-order from `next` on, and the first number left
over. -/
def numberFrom (next : Nat) : Node → Node × Nat
  | mk head children =>
    let (children, left) := numberAll (next + 1) children
    (mk { head with id := next } children, left)

/-- The trees numbered one after the other from `next` on, and the first number left over. -/
def numberAll (next : Nat) : List Node → List Node × Nat
  | [] => ([], next)
  | n :: rest =>
    let (n, left) := numberFrom next n
    let (rest, left) := numberAll left rest
    (n :: rest, left)

end

/-- The tree with its nodes numbered in pre-order from zero on. -/
def numbered (n : Node) : Node := (n.numberFrom 0).1

end Node

end LoaderLint.Script
