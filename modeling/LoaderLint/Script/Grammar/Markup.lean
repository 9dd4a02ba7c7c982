import LoaderLint.Script.Grammar.Literal

/-!
# Markup elements

Elements in angle brackets that stand where an operand can: with attributes, text, expressions in
braces and further elements inside. The names of an opening and a closing tag are not compared.
-/

namespace LoaderLint.Script.Grammar

open Reader

variable (read : Goal → Reader Node)

/-- The length of the name of a tag or an attribute, which may hold hyphens, dots and colons. -/
def markupNameLength (cs : List Char) : Nat :=
  if nameLength cs = 0 then 0
  else (cs.takeWhile fun c => isNamePart c || c = '-' || c = '.' || c = ':').length

/-- An expression or a spread in braces; the braces may be empty. -/
def markupExpression : Reader Node :=
  enclose .markupExpression do
    sign "\x7b"
    gap true
    if punctuatorAt (← rest) ≠ "\x7d" then
      if punctuatorAt (← rest) = "..." then emit (← listItem read)
      else emit (← expressions read .inner)
    expectAfter "\x7d"

/-- An attribute value in the quotes `quote`, which knows no escapes. -/
def quotedValue (quote : Char) : Reader Node := do
  let body := (← rest).drop 1
  let n := (body.takeWhile (· ≠ quote)).length
  require ((body.drop n).head? = some quote)
  leaf .markupText (n + 2)

/-- An attribute with its value, if it has one. -/
def tagAttribute : Reader Node :=
  enclose .tagAttribute do
    take (markupNameLength (← rest))
    if punctuatorAt (← peek true) = "=" then
      expect "="
      gap true
      match ← rest with
      | '"' :: _ => emit (← quotedValue '"')
      | '\'' :: _ => emit (← quotedValue '\'')
      | '\x7b' :: _ => emit (← markupExpression read)
      | '<' :: _ => emit (← read .element)
      | _ => failure

/-- The rest of an opening tag behind its name: attributes up to the end of the tag. Tells whether
the element is closed already. -/
def openingTagRest : Reader Bool := do
  repeatWhile do
    gap true
    match ← rest with
    | '\x7b' :: _ =>
      emit (← markupExpression read)
      return true
    | cs =>
      if markupNameLength cs ≠ 0 then
        emit (← tagAttribute read)
        return true
      else
        return false
  match ← rest with
  | '>' :: _ =>
    take 1
    return false
  | '/' :: _ =>
    take 1
    gap true
    require ((← rest).head? = some '>')
    take 1
    return true
  | _ => failure

/-- The text, expressions and elements inside an element, up to the end of its closing tag. -/
def elementContent : Reader Unit :=
  repeatWhile do
    let cs ← rest
    match cs with
    | '<' :: _ =>
      if (cs.drop 1).dropWhile isBlank |>.head? |> (· = some '/') then
        emit (← enclose .tag do
          take 1
          gap true
          take 1
          gap true
          take (markupNameLength (← rest))
          gap true
          require ((← rest).head? = some '>')
          take 1)
        return false
      else
        emit (← read .element)
        return true
    | '\x7b' :: _ =>
      emit (← markupExpression read)
      return true
    | _ =>
      let n := (cs.takeWhile fun c => c ≠ '<' && c ≠ '>' && c ≠ '\x7b' && c ≠ '\x7d').length
      require (n ≠ 0)
      emit (← leaf .markupText n)
      return true

/-- A markup element, or a group of elements in a tag without a name. -/
def element : Reader Node :=
  enclose .element do
    require ((← rest).head? = some '<')
    take 1
    gap true
    take (markupNameLength (← rest))
    if ← openingTagRest read then pure () else elementContent read

end LoaderLint.Script.Grammar
