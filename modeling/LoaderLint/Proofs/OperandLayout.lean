import LoaderLint.Proofs.ReaderContracts
import LoaderLint.Script.Grammar.Expression

/-!
# The layout of operands

The rules for literals, functions, markup and operators keep the layout of the text. The contract
of a rule follows its text: each lemma is the rule again, with a contract in the place of each
reader. All of them are relative to readers for the goals that have a contract already.

The kinds that are wider than their parts get there in two ways. A function begins with a word of
its own (`makes_functionExpression`, `makes_asyncSingle`); a call, an assignment and any other
arrow function take something behind the node that they start with (`extends_callOf`,
`extends_assignmentTo`, `extends_asyncArrow`).
-/

namespace LoaderLint.Script.Grammar

open Reader

variable {cs : List Char}

/-! ## Literals -/

/-- An escape of a code point is not empty. -/
theorem unicodeEscapeLength_ne_zero {ahead : List Char} {n : ℕ}
    (h : unicodeEscapeLength ahead = some n) : n ≠ 0 := by
  unfold unicodeEscapeLength at h
  grind

/-- An escape is not empty, so something is ahead where one is read. -/
theorem escapeLength_bounds {ahead : List Char} {n : ℕ} (h : escapeLength ahead = some n) :
    n ≠ 0 ∧ ahead ≠ [] := by
  unfold escapeLength at h
  grind [unicodeEscapeLength_ne_zero]

/-- An escape is added as a leaf. -/
theorem takes_escapeSequence : Takes cs escapeSequence := by
  refine Meets.rest fun ahead => ?_
  cases hlength : escapeLength ahead with
  | none => exact .failure
  | some n =>
    obtain ⟨hn, hahead⟩ := escapeLength_bounds hlength
    exact (makes_leaf hn hahead (by decide)).emit

/-- A string: each round takes the quote that ends it, an escape, or a run of other characters. -/
theorem makes_stringLiteral (quote : Char) : Makes cs (stringLiteral quote) := by
  refine .enclose ((moves_take 1).moved_bind fun _ => .repeatWhile (.rest fun ahead => ?_)) rfl
  -- the string is not closed where the text ends, and the reader fails there
  cases ahead with
  | nil => exact .failure
  | cons c rest =>
    simp only [List.head?_cons]
    split
    · exact (takes_take (by decide) (by simp)).bind_taken fun _ => .pure _
    · split
      · exact takes_escapeSequence.facing.bind_taken fun _ => .pure _
      · refine .require fun hrun => (makes_leaf ?_ (by simp) (by decide)).emits fun _ => .pure _
        simpa using hrun

/-- A token that is not empty makes a leaf. -/
theorem makes_token {kind : Kind} {length : List Char → ℕ}
    (hkind : kind.isLeaf = true) (hlength : length [] = 0) :
    Makes cs (token kind length) := by
  refine .rest fun ahead => .require fun hn => ?_
  have hne : length ahead ≠ 0 := of_decide_eq_true hn
  refine makes_leaf hne ?_ hkind
  rintro rfl
  exact hne hlength

/-- Items with commas between them, up to a bracket that closes them. -/
theorem takes_listOf {item : Reader Node} {close : String} (hitem : Makes cs item)
    (hclose : close ≠ "") : Takes cs (listOf item close) := by
  refine .repeatWhile ((moves_gap true).moved_bind fun _ => looks_rest.bind fun _ => ?_)
  extract_lets ahead
  split
  · exact (takes_mark hclose).bind_taken fun _ => .pure _
  · split
    · exact (takes_mark (by decide)).bind_taken fun _ => .pure _
    · refine hitem.emits fun _ => (moves_gap false).bind_moved fun _ => looks_rest.bind fun _ => ?_
      split
      · exact (takes_mark (by decide)).moved.bind_moved fun _ => .pure _
      · exact (takes_mark hclose).moved.bind_moved fun _ => .pure _

variable {read : Goal → Reader Node} (hread : ∀ goal, Makes cs (read goal))

include hread

/-- Expressions with commas between them make a sequence, and one alone makes itself. -/
theorem makes_expressions (context : Context) : Makes cs (expressions read context) := by
  refine (hread _).extend fun first => (looks_followedBy ",").bind fun comma => ?_
  split
  · refine Extends.extend (.repeatWhile ((looks_followedBy ",").bind fun more => ?_)) rfl
    split
    · refine (takes_expectAfter (by decide)).moved.bind_moved fun _ => ?_
      exact (takes_child hread _).moved.bind_moved fun _ => .pure _
    · exact Moves.pure _
  · exact Extends.pure first

/-- A template: each round takes the mark that ends it, an escape, an inserted expression, or a run
of other characters. -/
theorem makes_templateLiteral : Makes cs (templateLiteral read) := by
  refine .enclose ((moves_take 1).moved_bind fun _ => .repeatWhile (.rest fun ahead => ?_)) rfl
  split
  · exact (takes_take (by decide) (by simp)).bind_taken fun _ => .pure _
  · exact takes_escapeSequence.facing.bind_taken fun _ => .pure _
  · -- an inserted expression takes at least the brace that ends it
    refine (Makes.enclose ?_ rfl).facing.emits fun _ => .pure _
    refine (moves_take 2).moved_bind fun _ => (moves_gap true).moved_bind fun _ => ?_
    exact (makes_expressions hread _).emits fun _ => (takes_expectAfter (by decide)).moved
  · refine .require fun hn => ?_
    have hne : templateRunLength ahead ≠ 0 := of_decide_eq_true hn
    refine (makes_leaf hne ?_ (by decide)).emits fun _ => .pure _
    rintro rfl
    exact hne rfl

/-- An item of a list is an expression or one that is spread. -/
theorem makes_listItem : Makes cs (listItem read) := by
  refine looks_rest.bind fun _ => ?_
  split
  · refine Makes.enclose ?_ rfl
    exact (takes_sign (by decide)).bind_taken fun _ => (takes_child hread _).moved
  · exact hread _

/-- The items of a list with the bracket that closes it. -/
theorem takes_listItems {close : String} (hclose : close ≠ "") : Takes cs (listItems read close) :=
  takes_listOf (makes_listItem hread) hclose

/-- The arguments of a call, with their parentheses. -/
theorem makes_argumentList : Makes cs (argumentList read) :=
  .enclose ((takes_mark (by decide)).bind_taken fun _ => (takes_listItems hread (by decide)).moved)
    rfl

/-- An array, with its brackets. -/
theorem makes_arrayLiteral : Makes cs (arrayLiteral read) :=
  .enclose ((takes_mark (by decide)).bind_taken fun _ => (takes_listItems hread (by decide)).moved)
    rfl

/-- A condition stands in parentheses, and there is something in them. -/
theorem takes_condition : Takes cs (condition read) := by
  refine (moves_gap true).moved_bind fun _ => (Makes.enclose_filled ?_).emit
  refine (takes_mark (by decide)).moved.bind_fills fun _ => (moves_gap true).bind_fills fun _ => ?_
  -- the expression makes the parentheses solid
  refine (makes_expressions hread _).fills fun _ => ?_
  exact (moves_gap false).bind_moved fun _ => (takes_mark (by decide)).moved

/-! ## Functions, objects and classes -/

/-- A parameter is an item that can be read as a pattern. -/
theorem makes_parameter : Makes cs (parameter read) := by
  refine (makes_listItem hread).extend fun n => ?_
  -- the pattern stands where the item does, so it may take its place
  cases hpattern : n.toPattern? .element with
  | none => exact .failure
  | some pattern => exact (Extends.pure pattern).of_laidFor (Node.laidFor_toPattern? _ hpattern)

/-- The parameters of a function, with their parentheses. -/
theorem makes_parameterList : Makes cs (parameterList read) := by
  refine (Makes.enclose ?_ rfl).extend fun list => .require fun _ => Extends.pure list
  exact (takes_mark (by decide)).bind_taken fun _ =>
    (takes_listOf (makes_parameter hread) (by decide)).moved

/-- The parameters and the body of a function, behind its name. -/
theorem takes_signatureAndBody : Takes cs (signatureAndBody read) :=
  (moves_gap true).moved_bind fun _ =>
    (makes_parameterList hread).emits_withRole fun _ => (takes_child hread _).moved

omit hread in
/-- A name that may be left out is added in its role. -/
theorem moves_optionalName (role : Role) : Moves cs (optionalName role) := by
  refine (looks_peek true).bind fun _ => ?_
  split
  · exact (moves_gap true).bind_moved fun _ => (makes_name (by decide)).emit_withRole.moved
  · exact Moves.pure ()

/-- A function from its word on: the word is taken before anything is added. -/
theorem leads_functionRest : Leads cs (functionRest read) := by
  refine (skips_word (by decide)).bind fun _ => (looks_peek true).bind fun _ => ?_
  refine Moves.optional (takes_expect (by decide)).moved fun _ => ?_
  exact (moves_optionalName _).bind_moved fun _ => (takes_signatureAndBody hread).moved

/-- A function begins with a word, so it is wider than its parameters and its body. -/
theorem makes_functionExpression : Makes cs (functionExpression read) := by
  refine .enclose_led (looks_rest.bind fun _ => ?_) rfl
  extract_lets behind
  have hbehind : ∀ u, Leads cs (behind u) := fun _ => leads_functionRest hread
  split
  · exact (skips_word (by decide)).bind fun _ =>
      (moves_gap true).bind_moved fun u => (hbehind u).takes.moved
  · exact hbehind ()

/-- The key of a member is a string, an expression in brackets, a private name, a name or a
number. -/
theorem makes_propertyName : Makes cs (propertyName read) := by
  refine .rest fun ahead => ?_
  split
  · exact (makes_stringLiteral _).facing
  · exact (makes_stringLiteral _).facing
  · refine (Makes.enclose ?_ rfl).facing
    refine (takes_sign (by decide)).bind_taken fun _ => ?_
    exact (takes_child hread _).moved.bind_moved fun _ => (takes_expectAfter (by decide)).moved
  · exact .require fun _ => makes_leaf (by simp) (by simp) (by decide)
  · split
    · -- a name, which may be a keyword here
      rename_i hn
      exact makes_leaf hn (ne_nil_of_nameLength_ne hn) (by decide)
    · exact (makes_token (by decide) rfl).facing

omit hread in
/-- The modifiers of a member are taken, and nothing is added for them. -/
theorem moves_modifiers : Moves cs modifiers := by
  refine .repeatWhile (looks_rest.bind fun ahead => ?_)
  extract_lets text
  refine (looks_peekPast _).bind fun behind => ?_
  split
  · rename_i hword
    -- only words of a list are modifiers, and none of them is empty
    have htext : text ≠ "" := by
      rintro heq
      rw [heq] at hword
      simp at hword
    exact (takes_word htext).moved.bind_moved fun _ => (moves_gap true).bind_moved fun _ => .pure _
  · split
    · exact (takes_sign (by decide)).moved.bind_moved fun _ =>
        (moves_gap true).bind_moved fun _ => .pure _
    · exact Moves.pure _

/-- A member of an object: where its key goes on, the member does. -/
theorem makes_objectMember : Makes cs (objectMember read) := by
  refine looks_rest.bind fun ahead => (looks_peekPast _).bind fun behind => ?_
  split
  · exact makes_listItem hread
  · split
    · refine Makes.enclose (moves_modifiers.moved_bind fun _ => ?_) rfl
      exact (makes_propertyName hread).emits fun _ => (takes_signatureAndBody hread).moved
    · refine (makes_propertyName hread).extend fun key => (looks_peek true).bind fun _ => ?_
      split
      · exact Extends.extend (takes_signatureAndBody hread).moved rfl
      · refine Extends.extend ((takes_expect (by decide)).moved.bind_moved fun _ => ?_) rfl
        exact (moves_gap true).bind_moved fun _ => (hread _).emit_withRole.moved
      · refine .require fun _ => ?_
        split
        · refine (Extends.extend ?_ rfl).kind rfl
          exact (takes_expect (by decide)).moved.bind_moved fun _ => (takes_child hread _).moved
        · exact (Extends.pure _).kind rfl

/-- An object, with its braces. -/
theorem makes_objectLiteral : Makes cs (objectLiteral read) :=
  .enclose ((takes_mark (by decide)).bind_taken fun _ =>
    (takes_listOf (makes_objectMember hread) (by decide)).moved) rfl

/-- The call of an operand is wider than the operand and than its arguments. -/
theorem extends_callOf (left : Node) : Extends cs left (callOf read left) := by
  refine (Extends.extend_taken ?_ rfl).role
  exact (moves_gap false).moved_bind fun _ => (makes_argumentList hread).emit_withRole

/-- A decorator is added: an expression in parentheses, or a name with accesses. -/
theorem takes_decorator : Takes cs (decorator read) := by
  refine (Makes.enclose ?_ rfl).emit
  refine (takes_sign (by decide)).bind_taken fun _ => (moves_gap true).bind_moved fun _ => ?_
  refine looks_rest.bind fun _ => ?_
  split
  · exact (takes_condition hread).moved
  · -- a name with accesses, which may be called once at the end
    refine ((makes_name (by decide)).spend fun first =>
      (Extends.repeating (fun left => ?_) first).spend fun target => ?_).moved
    · refine (looks_followedBy ".").bind fun dot => ?_
      split
      · refine ((Extends.extend ?_ rfl).role).offer
        refine (takes_expectAfter (by decide)).moved.bind_moved fun _ => ?_
        refine (moves_gap true).bind_moved fun _ => Meets.rest fun ahead => .require fun hn => ?_
        have hne : nameLength ahead ≠ 0 := of_decide_eq_true hn
        exact (makes_leaf hne (ne_nil_of_nameLength_ne hne) (by decide)).emit_withRole.moved
      · exact Offers.none
    · refine (looks_followedBy "(").spend fun called => ?_
      split
      · exact (extends_callOf hread target).spend Spends.emit
      · exact Spends.emit target

/-- All decorators ahead are added. -/
theorem moves_decorators : Moves cs (decorators read) := by
  refine .repeatWhile (looks_rest.bind fun _ => ?_)
  split
  · exact (takes_decorator hread).moved.bind_moved fun _ =>
      (moves_gap true).bind_moved fun _ => .pure _
  · exact Moves.pure _

/-- A member of a class: a block, a method or a field with its semicolon. -/
theorem takes_classMember : Takes cs (classMember read) := by
  refine looks_rest.bind fun ahead => (looks_peekPast _).bind fun behind => ?_
  split
  · -- a static block
    refine (Makes.enclose ?_ rfl).emit
    exact (takes_word (by decide)).bind_taken fun _ => (takes_child hread _).moved
  · refine (Makes.encloseAs ?_ ?_).spend fun node => (Spends.emit node).bind fun _ => ?_
    · -- the name of the member makes sure that something is taken
      refine (moves_decorators hread).moved_bind fun _ => moves_modifiers.moved_bind fun _ => ?_
      refine (makes_propertyName hread).emits fun _ => (looks_followedBy "(").bind fun _ => ?_
      split
      · exact (takes_signatureAndBody hread).moved.bind_moved fun _ => .pure _
      · refine (looks_impliesSemicolon false).bind fun _ => ?_
        split
        · exact Moves.pure _
        · refine (looks_followedBy "=").bind fun _ => ?_
          split
          · refine (takes_expectAfter (by decide)).moved.bind_moved fun _ => ?_
            refine (moves_gap true).bind_moved fun _ => ?_
            exact ((hread _).emits_withRole fun _ => .pure _).moved
          · exact Moves.pure _
    · -- methods and fields are of plain kinds
      refine .bind fun _ => .bind fun _ => .bind fun _ => .bind fun _ => .bind fun called => ?_
      split
      · exact Anywhere.bind fun _ => Answers.pure rfl
      · refine Anywhere.bind fun implied => ?_
        split
        · exact Answers.pure rfl
        · refine Anywhere.bind fun valued => ?_
          split
          · refine Anywhere.bind fun _ => .bind fun _ => ?_
            exact .bind fun _ => .bind fun _ => Answers.pure rfl
          · exact Answers.pure rfl
    · split
      · exact moves_semicolon _
      · exact Moves.pure _

/-- The body of a class: each round takes a semicolon, a member, or the brace that ends it. -/
theorem makes_classBody : Makes cs (classBody read) := by
  refine .enclose ((takes_sign (by decide)).bind_taken fun _ => .repeatWhile ?_) rfl
  refine (moves_gap true).bind_moved fun _ => looks_rest.bind fun _ => ?_
  split
  · exact (takes_sign (by decide)).moved.bind_moved fun _ => .pure _
  · exact (takes_sign (by decide)).moved.bind_moved fun _ => .pure _
  · exact (takes_classMember hread).moved.bind_moved fun _ => .pure _

/-- A class from its word on. -/
theorem takes_classRest : Takes cs (classRest read) := by
  refine (takes_word (by decide)).bind_taken fun _ => (looks_peek true).bind fun _ => ?_
  refine Moves.optional (moves_optionalName _) fun _ => (looks_peek true).bind fun _ => ?_
  extract_lets behind
  have hbehind : ∀ u, Moves cs (behind u) := fun _ =>
    (moves_gap true).bind_moved fun _ => (makes_classBody hread).emit.moved
  split
  · refine (moves_gap true).bind_moved fun _ => ((Makes.enclose ?_ rfl).emits hbehind).moved
    exact (takes_word (by decide)).bind_taken fun _ => (takes_child hread _).moved
  · exact hbehind ()

/-- A class, with its decorators before it. -/
theorem makes_classExpression : Makes cs (classExpression read) :=
  .enclose ((moves_decorators hread).moved_bind fun _ => takes_classRest hread) rfl

/-! ## Markup -/

/-- An expression in braces inside markup, which may be empty. -/
theorem makes_markupExpression : Makes cs (markupExpression read) := by
  refine .enclose ((takes_sign (by decide)).bind_taken fun _ => ?_) rfl
  refine (moves_gap true).bind_moved fun _ => looks_rest.bind fun _ => ?_
  extract_lets behind
  have hbehind : ∀ u, Moves cs (behind u) := fun _ => (takes_expectAfter (by decide)).moved
  split
  · refine looks_rest.bind fun _ => ?_
    split
    · exact ((makes_listItem hread).emits hbehind).moved
    · exact ((makes_expressions hread _).emits hbehind).moved
  · exact hbehind ()

omit hread in
/-- The quoted value of an attribute makes a leaf. -/
theorem makes_quotedValue (quote : Char) : Makes cs (quotedValue quote) := by
  refine .rest fun ahead => .require fun hquote => makes_leaf (by simp) ?_ (by decide)
  rintro rfl
  simp at hquote

omit hread in
/-- Where a name of markup is ahead, something is ahead. -/
theorem ne_nil_of_markupNameLength_ne {ahead : List Char} (h : markupNameLength ahead ≠ 0) :
    ahead ≠ [] := by
  rintro rfl
  exact h rfl

/-- An attribute, where its name is ahead. -/
theorem makes_tagAttribute {ahead : List Char} (h : markupNameLength ahead ≠ 0) :
    Meets (Facing cs ahead) (Made cs) (tagAttribute read) := by
  refine Meets.enclose (.rest_facing ?_) rfl
  refine (takes_take h (ne_nil_of_markupNameLength_ne h)).bind_taken fun _ => ?_
  refine (looks_peek true).bind fun _ => ?_
  split
  · refine (takes_expect (by decide)).moved.bind_moved fun _ => ?_
    refine (moves_gap true).bind_moved fun _ => looks_rest.bind fun _ => ?_
    split
    · exact (makes_quotedValue _).emit.moved
    · exact (makes_quotedValue _).emit.moved
    · exact (makes_markupExpression hread).emit.moved
    · exact (hread _).emit.moved
    · exact .failure
  · exact Moves.pure _

/-- An opening tag from its attributes on. -/
theorem moves_openingTagRest : Moves cs (openingTagRest read) := by
  refine (Moves.repeatWhile ?_).bind_moved fun _ => Meets.rest fun ahead => ?_
  · refine (moves_gap true).bind_moved fun _ => Meets.rest fun ahead => ?_
    split
    · exact ((makes_markupExpression hread).facing.emits fun _ => .pure _).moved
    · split
      · rename_i hn
        exact ((makes_tagAttribute hread hn).emits fun _ => .pure _).moved
      · exact (Moves.pure _).facing
  · split
    · exact ((takes_take (by decide) (by simp)).bind_taken fun _ => .pure _).moved
    · refine ((takes_take (by decide) (by simp)).bind_taken fun _ => ?_).moved
      refine (moves_gap true).bind_moved fun _ => looks_rest.bind fun _ => .require fun _ => ?_
      exact (moves_take 1).bind_moved fun _ => .pure _
    · exact .failure

/-- The content of an element: elements, expressions in braces, text, and the closing tag. -/
theorem moves_elementContent : Moves cs (elementContent read) := by
  refine .repeatWhile (Meets.rest fun ahead => ?_)
  split
  · split
    · -- a closing tag takes at least the bracket that ends it
      refine ((Makes.enclose ?_ rfl).facing.emits fun _ => .pure _).moved
      refine (moves_take 1).moved_bind fun _ => (moves_gap true).moved_bind fun _ => ?_
      refine (moves_take 1).moved_bind fun _ => (moves_gap true).moved_bind fun _ => ?_
      refine looks_rest.bind fun _ => (moves_take _).moved_bind fun _ => ?_
      refine (moves_gap true).moved_bind fun _ => Meets.rest fun ahead => .require fun hclose => ?_
      refine takes_take (by decide) ?_
      rintro rfl
      simp at hclose
    · exact ((hread _).facing.emits fun _ => .pure _).moved
  · exact ((makes_markupExpression hread).facing.emits fun _ => .pure _).moved
  · refine .require fun hn => ?_
    refine ((makes_leaf (of_decide_eq_true hn) ?_ (by decide)).emits fun _ => .pure _).moved
    rintro rfl
    simp at hn

/-- An element begins with its bracket. -/
theorem makes_element : Makes cs (element read) := by
  refine .enclose (.rest fun ahead => .require fun hopen => ?_) rfl
  have hahead : ahead ≠ [] := by
    rintro rfl
    simp at hopen
  refine (takes_take (by decide) hahead).bind_taken fun _ =>
    (moves_gap true).bind_moved fun _ => ?_
  refine looks_rest.bind fun _ => (moves_take _).bind_moved fun _ => ?_
  refine (moves_openingTagRest hread).bind_moved fun closed => ?_
  split
  · exact Moves.pure _
  · exact moves_elementContent hread

/-! ## Expressions -/

omit hread in
/-- The name behind a point is added in its role. -/
theorem takes_memberName : Takes cs memberName := by
  refine (moves_gap true).moved_bind fun _ => .rest fun ahead => ?_
  split
  · exact .require fun _ => (makes_leaf (by simp) (by simp) (by decide)).emit_withRole
  · refine .require fun hn => ?_
    have hne : nameLength ahead ≠ 0 := of_decide_eq_true hn
    exact (makes_leaf hne (ne_nil_of_nameLength_ne hne) (by decide)).emit_withRole

/-- The expression in brackets behind an object is added. -/
theorem takes_memberIndex : Takes cs (memberIndex read) := by
  refine (takes_sign (by decide)).bind_taken fun _ => (moves_gap true).bind_moved fun _ => ?_
  exact ((makes_expressions hread _).emits fun _ => (takes_expectAfter (by decide)).moved).moved

/-- An access goes on from its object, and where there is none the object is left. -/
theorem offers_access (left : Node) : Offers cs left (access read left) := by
  refine (looks_peek false).bind fun _ => ?_
  split
  · refine (Extends.extend ?_ rfl).role.some
    exact (takes_expectAfter (by decide)).moved.bind_moved fun _ => takes_memberName.moved
  · -- which kind of access `?.` starts shows only behind it
    refine (Extends.encloseFrom (congrArg Span.start (left.span_withRole _)) ?_ ?_).role.some
    · refine (takes_expectAfter (by decide)).moved.bind_moved fun _ => ?_
      refine (moves_gap true).bind_moved fun _ => looks_rest.bind fun _ => ?_
      split
      · exact (takes_memberIndex hread).moved.bind_moved fun _ => .pure _
      · exact takes_memberName.moved.bind_moved fun _ => .pure _
    · refine .bind fun _ => .bind fun _ => .bind fun _ => ?_
      split
      · exact Anywhere.bind fun _ => Answers.pure rfl
      · exact Anywhere.bind fun _ => Answers.pure rfl
  · refine (Extends.extend ?_ rfl).role.some
    exact (moves_gap false).bind_moved fun _ => (takes_memberIndex hread).moved
  · -- a tagged template is a call, so it has to be wider than its tag
    refine (Extends.extend_taken ?_ rfl).role.some
    exact (moves_gap false).moved_bind fun _ => (makes_templateLiteral hread).emit_withRole
  · exact Offers.none

/-- A call, an access or an increment goes on from its operand. -/
theorem offers_postfixStep (context : Context) (left : Node) :
    Offers cs left (postfixStep read context left) := by
  refine (looks_ends context).bind fun ended => ?_
  split
  · exact Offers.none
  · refine (looks_peek false).bind fun ahead => ?_
    extract_lets operator
    split
    · exact (extends_callOf hread left).some
    · split
      · rename_i hoperator
        refine (Extends.extend (takes_expectAfter ?_).moved rfl).some
        rintro heq
        simp [heq] at hoperator
      · split
        · -- the mark is read to see what follows it, then once more
          refine Meets.get fun s hs => .bind fun _ => .bind fun _ => .bind fun _ => ?_
          split
          · refine Ensures.set ((Extends.extend_taken ?_ rfl).role.some s hs)
            refine (takes_expectAfter (by decide)).bind_taken fun _ => ?_
            refine (moves_gap true).bind_moved fun _ => ?_
            exact (makes_argumentList hread).emit_withRole.moved
          · exact Ensures.set (offers_access hread left s hs)
        · exact offers_access hread left

/-- An assignment is wider than its target and than its value. -/
theorem extends_assignmentTo (context : Context) (left : Node) :
    Extends cs left (assignmentTo read context left) := by
  refine (looks_peek false).bind fun ahead => ?_
  extract_lets operator
  split
  · -- an operand that can be no target is left as it is
    cases htarget : left.toTarget? with
    | none => exact Extends.pure left
    | some target =>
      refine (Extends.extend_taken ?_ rfl).role.of_laidFor (Node.laidFor_toTarget? htarget)
      exact (takes_expectAfter (by decide)).bind_taken fun _ => (takes_child hread _).moved
  · split
    · rename_i hoperator
      have hne : operator ≠ "" := by
        rintro heq
        simp [heq, compoundOperators] at hoperator
      refine (Extends.extend_taken ?_ rfl).role
      exact (takes_expectAfter hne).bind_taken fun _ => (takes_child hread _).moved
    · exact Extends.pure left

/-- What stands behind an operand goes on from it. -/
theorem extends_tail (context : Context) (primary : Node) :
    Extends cs primary (tail read context primary) := by
  refine (Extends.repeating (offers_postfixStep hread context) primary).bind fun node => ?_
  refine (looks_ends context).bind fun ended => ?_
  split
  · exact Extends.pure node
  · exact extends_assignmentTo hread context node

/-- An arrow with the body of its function. -/
theorem takes_arrowBody (context : Context) : Takes cs (arrowBody read context) := by
  refine (takes_expectAfter (by decide)).bind_taken fun _ => ?_
  refine (moves_gap true).bind_moved fun _ => looks_rest.bind fun _ => ?_
  split
  · exact (hread _).emit.moved
  · exact (hread _).emit.moved

/-- An expression in parentheses, or an arrow function whose parameters they are. There may be
nothing in the parentheses until it is clear which of the two it is. -/
theorem makes_parenthesized (context : Context) : Makes cs (parenthesized read context) := by
  have hplain : Kind.parameters.isPlain = true := rfl
  refine Makes.extend_of (Makes.enclose_withKind ?_ hplain) answers_enclose fun list hkind => ?_
  · exact (takes_mark (by decide)).bind_taken fun _ => (takes_listItems hread (by decide)).moved
  · refine (looks_followedBy "=>").bind fun arrow => ?_
    split
    · -- an arrow follows, so the list becomes the parameters of a function
      cases hparameters : list.toParameters? with
      | none => exact .failure
      | some parameters =>
        exact (Extends.extend_taken (takes_arrowBody hread context) rfl).role.of_laidFor
          (Node.laidFor_toParameters? _ hparameters)
    · -- no arrow follows, and the list is one expression or a sequence
      cases hgroup : list.groupSequence? with
      | none => exact .failure
      | some node =>
        exact (Extends.pure node).of_laidFor (Node.laidFor_groupSequence? hkind hplain hgroup)

omit hread in
/-- Two words with a point between them. -/
theorem makes_metaProperty {before behind : String} (hbefore : before ≠ "")
    (hbehind : behind ≠ "") : Makes cs (metaProperty before behind) := by
  refine .enclose ((takes_word hbefore).bind_taken fun _ => ?_) rfl
  refine (takes_expect (by decide)).moved.bind_moved fun _ => ?_
  exact (moves_gap true).bind_moved fun _ => (takes_word hbehind).moved

/-- A construction begins with the word `new`. -/
theorem makes_construction : Makes cs (construction read) := by
  refine (looks_peekPast 3).bind fun _ => ?_
  split
  · exact makes_metaProperty (by decide) (by decide)
  · refine Makes.enclose ((takes_word (by decide)).bind_taken fun _ => ?_) rfl
    refine (takes_child hread _).moved.bind_moved fun _ => (looks_followedBy "(").bind fun _ => ?_
    split
    · exact (moves_gap false).bind_moved fun _ => (makes_argumentList hread).emit.moved
    · exact Moves.pure _

/-- An operand that begins with a word, where a word is ahead. -/
theorem makes_wordPrimary {ahead : List Char} {text : String} (hahead : ahead ≠ [])
    (htext : text ≠ "") (context : Context) :
    Meets (Facing cs ahead) (Made cs) (wordPrimary read context text) := by
  have hleaf : ∀ kind : Kind, kind.isLeaf = true →
      Meets (Facing cs ahead) (Made cs) (leaf kind text.length) :=
    fun kind hkind => makes_leaf (length_ne_zero htext) hahead hkind
  unfold wordPrimary
  split
  · exact hleaf _ (by decide)
  · split
    · exact hleaf _ (by decide)
    · exact (makes_functionExpression hread).facing
    · exact (makes_classExpression hread).facing
    · exact (makes_construction hread).facing
    · refine (looks_peekPast _).bind fun _ => ?_
      split
      · exact (makes_metaProperty (by decide) (by decide)).facing
      · exact (looks_peekPast _).bind fun _ => .require fun _ => hleaf _ (by decide)
    · -- a name, or an arrow function with one parameter
      refine (makes_name (by decide)).facing.extend fun node => ?_
      refine (looks_followedBy "=>").bind fun _ => ?_
      split
      · exact (Extends.extend_taken (takes_arrowBody hread context) rfl).role
      · exact Extends.pure node

/-- An operand before anything that goes on from it, by what is ahead. -/
theorem makes_primary (context : Context) : Makes cs (primary read context) := by
  refine .rest fun ahead => ?_
  extract_lets text
  split
  · rename_i htext
    exact makes_wordPrimary hread (ne_nil_of_nameAt_ne htext) htext context
  · split
    · exact (makes_parenthesized hread context).facing
    · exact (makes_arrayLiteral hread).facing
    · exact (makes_objectLiteral hread).facing
    · exact (makes_stringLiteral _).facing
    · exact (makes_stringLiteral _).facing
    · exact (makes_templateLiteral hread).facing
    · exact (makes_token (by decide) rfl).facing
    · exact (hread _).facing
    · exact (makes_classExpression hread).facing
    · -- a private name, which only stands before `in`
      refine .require fun _ => (makes_leaf (by simp) (by simp) (by decide)).extend fun node => ?_
      exact (looks_peek false).bind fun _ => .require fun _ => Extends.pure node
    · exact (makes_token (by decide) rfl).facing

/-- What is constructed may have accesses, and no calls. -/
theorem makes_constructed : Makes cs (constructed read) :=
  (makes_primary hread .inner).extend fun node => .repeating (offers_access hread) node

/-- An operator in front of an operand. -/
theorem makes_prefixed {kind : Kind} (hkind : kind.isPlain = true) (n : ℕ) (context : Context) :
    Makes cs (prefixed read kind n context) :=
  .enclose ((moves_take n).moved_bind fun _ => takes_child hread _) hkind

/-- A value that is yielded may be left out. -/
theorem makes_yielded (context : Context) : Makes cs (yielded read context) := by
  refine .enclose ((takes_word (by decide)).bind_taken fun _ => ?_) rfl
  refine (looks_ends context).bind fun ended => ?_
  split
  · exact Moves.pure _
  · refine (looks_peek true).bind fun ahead => ?_
    split
    · exact (takes_expect (by decide)).moved.bind_moved fun _ => (takes_child hread _).moved
    · split
      · exact (takes_child hread _).moved
      · exact Moves.pure _

/-- An asynchronous arrow function begins with a word. -/
theorem makes_asyncSingle (context : Context) : Makes cs (asyncSingle read context) := by
  refine .enclose_led ((skips_word (by decide)).bind fun _ => ?_) rfl
  refine (moves_gap true).bind_moved fun _ => ?_
  have hbody : Moves cs (arrowBody read context) := (takes_arrowBody hread context).moved
  exact ((makes_name (by decide)).emits_withRole fun _ => hbody).moved

/-- What was read as a call of `async` may turn out to be the head of an arrow function. -/
theorem extends_asyncArrow {call list parameters : Node} {before : List Node} (context : Context)
    (hchildren : call.children.reverse = list :: before)
    (hparameters : list.toParameters? = some parameters) :
    Extends cs call (encloseFrom call.span.start
      (parameters.withRole .parameters :: before.dropLast) do
        arrowBody read context
        return .arrow) := by
  intro s hs
  have hfor : Node.LaidFor cs list parameters := by
    have hfor : Node.LaidFor cs (list.withKind list.kind) parameters :=
      Node.laidFor_toParameters? list.kind hparameters
    rwa [list.withKind_kind] at hfor
  -- the list becomes the parameters, and the word `async`, which stands first, is dropped
  have hopened :
      Opened cs call.span.start (parameters.withRole .parameters :: before.dropLast) s := by
    have hall : Opened cs call.span.start (list :: before) s := hchildren ▸ hs.opened_children
    refine (hall.sublist (before.dropLast_sublist.cons_cons list)).replace ?_ fun hlist => ?_
    · rw [Node.span_withRole, Node.span_eq_of_face_eq hfor.face_eq]
    · exact (hfor.laid hlist).withRole _
  refine Ensures.encloseFrom ?_
  refine Ensures.bind (takes_arrowBody hread context _ hs.stands) fun u t ht => .pure ?_
  obtain ⟨⟨new, hnew⟩, hlt⟩ := ht
  have hstart : call.span.start.offset < s.offset :=
    Nat.lt_of_lt_of_le hs.within.2.1 hs.within.2.2
  exact hnew.gives (Nat.lt_trans hstart hlt) rfl (hopened.laidOut_tight hnew rfl hstart hlt)

/-- The word `async` with a list in parentheses is a call, or an arrow function if an arrow
follows. -/
theorem makes_asyncCall {ahead : List Char} (hahead : ahead ≠ []) (context : Context) :
    Meets (Facing cs ahead) (Made cs) (asyncCall read context) := by
  refine (makes_leaf (by decide) hahead (by decide)).extend fun node => ?_
  refine (extends_callOf hread node).bind fun call => (looks_followedBy "=>").bind fun arrow => ?_
  split
  · cases hchildren : call.children.reverse with
    | nil => exact .failure
    | cons list before =>
      cases hparameters : list.toParameters? with
      | none =>
        simp only [hparameters]
        exact .failure
      | some parameters =>
        simp only [hparameters]
        exact extends_asyncArrow hread context hchildren hparameters
  · exact Extends.pure call

/-- What begins with the word `async`, where that word is ahead. -/
theorem makes_asyncOperand {ahead : List Char} (hahead : ahead ≠ []) (context : Context) :
    Meets (Facing cs ahead) (Made cs) (asyncOperand read context) := by
  have htail := extends_tail hread context
  refine (looks_peekPast 5).bind fun behind => ?_
  extract_lets further
  have hfurther : ∀ broken, Meets (Facing cs ahead) (Made cs) (further broken) := by
    intro broken
    unfold further
    split
    · exact (makes_name (by decide)).facing.extend htail
    · split
      · exact (makes_functionExpression hread).facing.extend htail
      · split
        · exact (makes_asyncCall hread hahead context).extend htail
        · split
          · -- a name behind `async` is a parameter if an arrow follows it
            exact (Meets.orElse (makes_asyncSingle hread context)
              (makes_name (by decide))).facing.extend htail
          · exact (makes_primary hread context).facing.extend htail
  split
  · exact (looks_impliesSemicolonPast true 5).bind hfurther
  · exact hfurther false

/-- The word `await` is an operator or a name. -/
theorem makes_awaitOperand (context : Context) : Makes cs (awaitOperand read context) := by
  unfold awaitOperand
  extract_lets further
  have hfurther : ∀ broken, Makes cs (further broken) := by
    intro broken
    refine (looks_peekPast 5).bind fun _ => ?_
    split
    · exact makes_prefixed hread rfl 5 context
    · exact (makes_primary hread context).extend (extends_tail hread context)
  split
  · exact (looks_impliesSemicolonPast true 5).bind hfurther
  · exact hfurther false

/-- An operand with its operators before and behind it. -/
theorem makes_operand (context : Context) : Makes cs (operand read context) := by
  refine .rest fun ahead => ?_
  extract_lets text operator
  split
  · exact (makes_prefixed hread rfl _ context).facing
  · split
    · exact (makes_awaitOperand hread context).facing
    · split
      · exact (makes_yielded hread context).facing
      · split
        · rename_i htext
          refine makes_asyncOperand hread (ne_nil_of_nameAt_ne ?_) context
          rw [show nameAt ahead = "async" from htext]
          decide
        · split
          · exact (makes_prefixed hread rfl _ context).facing
          · split
            · exact (makes_prefixed hread rfl _ context).facing
            · exact (makes_primary hread context).facing.extend (extends_tail hread context)

/-- An operator that binds tightly enough goes on from its left operand. -/
theorem offers_operatorStep (level : ℕ) (context : Context) (left : Node) :
    Offers cs left (operatorStep read level context left) := by
  refine (looks_ends context).bind fun ended => ?_
  split
  · exact Offers.none
  · refine (looks_peek false).bind fun ahead => ?_
    split
    · split
      · exact Offers.none
      · refine (Extends.extend ((moves_gap false).bind_moved fun _ => ?_) rfl).some
        exact (moves_take _).bind_moved fun _ => (takes_child hread _).moved
    · split
      · -- the conditional operator has two marks and two more operands
        refine (Extends.extend ?_ rfl).some
        refine (takes_expectAfter (by decide)).moved.bind_moved fun _ => ?_
        refine (takes_child hread _).moved.bind_moved fun _ => ?_
        exact (takes_expectAfter (by decide)).moved.bind_moved fun _ => (takes_child hread _).moved
      · exact Offers.none

/-- Operands with operators of a level or above between them. -/
theorem makes_operators (level : ℕ) (context : Context) :
    Makes cs (operators read level context) :=
  (hread _).extend fun node => .repeating (offers_operatorStep hread level context) node

end LoaderLint.Script.Grammar
