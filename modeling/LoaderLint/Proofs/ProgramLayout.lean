import LoaderLint.Proofs.OperandLayout
import LoaderLint.Script.Program

/-!
# The layout of programs

The rules for declarations and statements keep the layout of the text, and so does the grammar: the
rules make nodes that are laid out, given readers for the goals that do, and a goal is read by its
rule with one step less. So every tree of a source text is laid out (`Program.laidOut_of_parse?`).
-/

namespace LoaderLint.Script.Grammar

open Reader

variable {cs : List Char}

/-! ## Looking ahead -/

/-- Whether a declaration of names is ahead is found by a look. -/
theorem looks_declares? (breaks : Bool) : Looks (declares? breaks) := by
  refine looks_rest.bind fun ahead => ?_
  split
  · exact Looks.pure _
  · exact Looks.pure _
  · refine (looks_peekPast 3).bind fun _ => (looks_impliesSemicolonPast true 3).bind fun _ => ?_
    split
    · exact Looks.pure _
    · exact Looks.pure _
  · refine (looks_impliesSemicolonPast true 5).bind fun _ => (looks_peekPast 5).bind fun _ => ?_
    split
    · exact Looks.pure _
    · exact Looks.pure _
  · -- what was read behind `await` is given back
    refine Meets.get fun s _ => .bind fun _ => .bind fun _ => .bind fun _ => .bind fun _ => ?_
    refine Ensures.set ?_
    split
    · exact .pure rfl
    · exact .pure rfl
  · exact Looks.pure _

/-- The kinds of declarations of names are plain. -/
theorem answers_declares? (breaks : Bool) :
    Answers (fun answer => ∀ declared ∈ answer, declared.1.isPlain = true) (declares? breaks) := by
  -- both answers that the branches give
  have hnone : Answers (fun answer : Option (Kind × List String) =>
      ∀ declared ∈ answer, declared.1.isPlain = true) (pure none) := .pure nofun
  have hsome : ∀ {kind : Kind} (begins : List String), kind.isPlain = true →
      Answers (fun answer => ∀ declared ∈ answer, declared.1.isPlain = true)
        (pure (some (kind, begins))) :=
    fun begins hkind => .pure fun declared hdeclared => by cases hdeclared; exact hkind
  refine .bind fun ahead => ?_
  split
  · exact hsome _ rfl
  · exact hsome _ rfl
  · refine Anywhere.bind fun _ => .bind fun _ => ?_
    split
    · exact hsome _ rfl
    · exact hnone
  · refine Anywhere.bind fun _ => .bind fun _ => ?_
    split
    · exact hsome _ rfl
    · exact hnone
  · refine Anywhere.bind fun _ => .bind fun _ => .bind fun _ => .bind fun _ => .bind fun _ => ?_
    refine Anywhere.bind fun _ => ?_
    split
    · exact hsome _ rfl
    · exact hnone
  · exact hnone

/-- Whether a function with a name is ahead is found by a look. -/
theorem looks_namedFunctionAhead : Looks namedFunctionAhead := by
  refine Meets.get fun s _ => .bind fun ahead => ?_
  extract_lets text back starred begun
  -- all ways end by going back to where the look started
  have hback : ∀ answer, Anywhere (fun _ s' => s' = s) (back answer) :=
    fun _ => Ensures.set (.pure rfl)
  have hstarred : ∀ u, Anywhere (fun _ s' => s' = s) (starred u) :=
    fun _ => .bind fun _ => .bind hback
  have hbegun : ∀ broken, Anywhere (fun _ s' => s' = s) (begun broken) := by
    intro broken
    unfold begun
    extract_lets further
    have hfurther : ∀ u, Anywhere (fun _ s' => s' = s) (further u) := by
      refine fun _ => .bind fun _ => ?_
      split
      · refine Anywhere.bind fun _ => .bind fun _ => .bind fun _ => ?_
        split
        · exact Anywhere.bind fun _ => .bind hstarred
        · exact hstarred ()
      · exact Anywhere.bind hback
    split
    · exact Anywhere.bind fun _ => .bind hfurther
    · exact hfurther ()
  split
  · exact Anywhere.bind hbegun
  · exact Anywhere.bind hbegun

/-- Whether a class with a name is ahead is found by a look. -/
theorem looks_namedClassAhead : Looks namedClassAhead := by
  refine looks_rest.bind fun _ => ?_
  split
  · exact (looks_peekPast 5).bind fun _ => Looks.pure _
  · exact Looks.pure _

/-- Whether a brace is followed by a key is found by a look. -/
theorem looks_keyAhead : Looks keyAhead := by
  refine Meets.get fun s _ => .bind fun _ => .bind fun _ => .bind fun _ => ?_
  extract_lets n back
  -- both ways end by going back
  have hback : ∀ answer, Anywhere (fun _ s' => s' = s) (back answer) :=
    fun _ => Ensures.set (.pure rfl)
  split
  · exact Anywhere.bind hback
  · exact Anywhere.bind fun _ => .bind hback

/-- Whether a brace is followed by a member is found by a look. -/
theorem looks_memberAhead : Looks memberAhead := by
  refine Meets.get fun s _ => .bind fun _ => .bind fun _ => .bind fun _ => .bind fun _ => ?_
  exact Ensures.set (.pure rfl)

theorem looks_iteratesNext : Looks iteratesNext := (looks_peek false).bind fun _ => Looks.pure _

/-! ## Declarations -/

/-- A literal that is read as a pattern keeps its place. -/
theorem extends_patternOf (literal : Node) : Extends cs literal (patternOf literal) := by
  unfold patternOf
  cases hpattern : literal.toPattern? .target with
  | none => exact .failure
  | some pattern => exact (Extends.pure pattern).of_laidFor (Node.laidFor_toPattern? _ hpattern)

/-- The words that a declaration begins with are taken, with the blanks between them. -/
theorem moves_words (begins : List String) : Moves cs (words begins) := by
  fun_induction words begins with
  | case1 => exact Moves.pure ()
  | case2 last => exact moves_word last
  -- the recursion of the reader: a word, a gap, and the other words
  | case3 first others _ ih =>
    exact (moves_word first).bind_moved fun _ => (moves_gap true).bind_moved fun _ => ih

variable {read : Goal → Reader Node} (hread : ∀ goal, Makes cs (read goal))

include hread

/-- What is declared is a name or a pattern. -/
theorem makes_binding : Makes cs (binding read) := by
  refine looks_rest.bind fun ahead => ?_
  split
  · exact (makes_arrayLiteral hread).extend extends_patternOf
  · exact (makes_objectLiteral hread).extend extends_patternOf
  · exact makes_name (by decide)

/-- A declarator goes on from what it declares, with a value or without one. -/
theorem extends_declaratorOf (context : Context) (bound : Node) :
    Extends cs bound (declaratorOf read context bound) := by
  refine (Extends.extend_declarator ?_ (bound.role_withRole .name)).role
  extract_lets further
  -- the value, which a line break may cut off
  have hfurther : ∀ broken, Moves cs (further broken) := by
    intro broken
    unfold further
    split
    · refine (looks_followedBy "=").bind fun _ => ?_
      split
      · refine (takes_expectAfter (by decide)).moved.bind_moved fun _ => ?_
        exact (moves_gap true).bind_moved fun _ => (hread _).emit_withRole.moved
      · exact Moves.pure _
    · exact Moves.pure _
  split
  · exact (looks_impliesSemicolon false).bind hfurther
  · exact hfurther false

/-- The first declarator is added, and all that follow it. -/
theorem spends_moreDeclarators (context : Context) (first : Node) :
    Spends cs first (moreDeclarators read context first) := by
  refine (Spends.emit first).bind fun _ => ?_
  refine (Moves.repeating (fun _ => ?_) first).bind_moved fun _ => .pure _
  -- each round takes a comma and one more declarator
  refine (looks_followedBy ",").bind fun _ => ?_
  split
  · refine (takes_expectAfter (by decide)).moved.bind_moved fun _ => ?_
    refine (moves_gap true).bind_moved fun _ => ((makes_binding hread).spend fun bound => ?_).moved
    refine (extends_declaratorOf hread context bound).spend fun node => ?_
    exact (Spends.emit node).bind fun _ => .pure _
  · exact Moves.pure _

/-- The declarators of a declaration are added, of which there is at least one. -/
theorem takes_declarators (context : Context) : Takes cs (declarators read context) := by
  refine (moves_gap true).moved_bind fun _ => (makes_binding hread).spend fun bound => ?_
  exact (extends_declaratorOf hread context bound).spend (spends_moreDeclarators hread context)

/-- A declaration of names takes its declarators, whatever words it begins with. -/
theorem makes_declaration {kind : Kind} (hkind : kind.isPlain = true) (begins : List String) :
    Makes cs (declaration read kind begins) := by
  refine .enclose ((moves_words begins).moved_bind fun _ => ?_) hkind
  exact (takes_declarators hread _).bind_taken fun valued => moves_semicolon valued

/-- A function or a class with a name is made as a declaration, or nothing is read. -/
theorem finds_namedDeclaration? : Finds cs (namedDeclaration? read) := by
  refine looks_namedFunctionAhead.bind fun _ => ?_
  split
  · exact (makes_functionExpression hread).find rfl
  · refine looks_namedClassAhead.bind fun _ => ?_
    split
    · exact (makes_classExpression hread).find rfl
    · exact fun _ _ => .pure rfl

omit hread in
/-- A string in quotes of either kind. -/
theorem makes_anyString : Makes cs anyString := by
  refine looks_rest.bind fun _ => ?_
  split
  · exact makes_stringLiteral _
  · exact makes_stringLiteral _
  · exact .failure

/-- The source of an import with its attributes is added. -/
theorem takes_source : Takes cs (source read) := by
  refine (moves_gap true).moved_bind fun _ => makes_anyString.emits fun _ => ?_
  refine (looks_impliesSemicolon false).bind fun _ => (looks_peek true).bind fun _ => ?_
  -- attributes of the import
  split
  · refine (moves_gap true).bind_moved fun _ => (moves_word _).bind_moved fun _ => ?_
    exact (moves_gap true).bind_moved fun _ => (makes_objectLiteral hread).emit.moved
  · exact Moves.pure _

/-- The word `from` with the source behind it. -/
theorem takes_fromSource : Takes cs (fromSource read) :=
  (moves_gap true).moved_bind fun _ => (moves_word _).moved_bind fun _ => takes_source hread

omit hread in
/-- A name in a list of a module may be a string or the word `default`. -/
theorem makes_exportedName : Makes cs exportedName := by
  refine .rest fun ahead => ?_
  split
  · exact makes_anyString.facing
  · split
    · rename_i hname
      refine makes_leaf (by decide) (ne_nil_of_nameAt_ne ?_) (by decide)
      rw [hname]
      decide
    · exact (makes_name (by decide)).facing

omit hread in
/-- The list of the names that are imported or exported, with its braces. -/
theorem makes_moduleNames (imports : Bool) : Makes cs (moduleNames imports) := by
  refine (Makes.enclose ?_ rfl).extend fun list => .require fun _ => Extends.pure list
  refine (takes_mark (by decide)).bind_taken fun _ => ?_
  refine (takes_listOf (.enclose ?_ rfl) (by decide)).moved
  refine makes_exportedName.spend fun first => (Spends.emit first).bind fun _ => ?_
  refine (looks_peek true).bind fun _ => ?_
  split
  · refine (moves_gap true).bind_moved fun _ => (moves_word _).bind_moved fun _ => ?_
    refine (moves_gap true).bind_moved fun _ => ?_
    split
    · exact (makes_name (by decide)).emit.moved
    · exact makes_exportedName.emit.moved
  · exact (looks_require _).moves

omit hread in
/-- The star for all names of a module, with the name that they get. -/
theorem takes_allNames {item : Reader Node} (hitem : Makes cs item) :
    Takes cs (allNames item) := by
  refine (takes_sign (by decide)).bind_taken fun _ => (moves_gap true).bind_moved fun _ => ?_
  refine (moves_word _).bind_moved fun _ => (moves_gap true).bind_moved fun _ => hitem.emit.moved

omit hread in
/-- What is imported: all names, a list of names, or a default name with one of these. -/
theorem takes_importClause : Takes cs importClause := by
  refine looks_rest.bind fun _ => ?_
  split
  · exact takes_allNames (makes_name (by decide))
  · exact (makes_moduleNames true).emit
  · refine (makes_name (by decide)).emits fun _ => (looks_peek true).bind fun _ => ?_
    split
    · refine (takes_expect (by decide)).moved.bind_moved fun _ => ?_
      refine (moves_gap true).bind_moved fun _ => looks_rest.bind fun _ => ?_
      split
      · exact (takes_allNames (makes_name (by decide))).moved
      · exact (makes_moduleNames true).emit.moved
    · exact Moves.pure _

/-- An import begins with its word. -/
theorem makes_importStatement : Makes cs (importStatement read) := by
  refine .enclose ((takes_word (by decide)).bind_taken fun _ => ?_) rfl
  refine (moves_gap true).bind_moved fun _ => looks_rest.bind fun ahead => ?_
  split
  · -- an import for its effects names nothing
    exact (takes_source hread).moved.bind_moved fun _ => moves_semicolon _
  · refine takes_importClause.moved.bind_moved fun _ => ?_
    exact (takes_fromSource hread).moved.bind_moved fun _ => moves_semicolon _

/-- What is exported by default is a declaration or an expression. -/
theorem moves_exportDefault : Moves cs (exportDefault read) := by
  refine (moves_gap true).bind_moved fun _ => (finds_namedDeclaration? hread).spend Spends.emit ?_
  exact ((hread _).emits fun _ => moves_semicolon _).moved

/-- An export from its word on. -/
theorem takes_exportRest : Takes cs (exportRest read) := by
  refine (takes_word (by decide)).bind_taken fun _ => ?_
  refine (moves_gap true).bind_moved fun _ => looks_rest.bind fun _ => ?_
  split
  · -- all names of another module
    refine (looks_peekPast 1).bind fun _ => ?_
    extract_lets behind
    have hbehind : ∀ u, Moves cs (behind u) := fun _ =>
      (takes_fromSource hread).moved.bind_moved fun _ => moves_semicolon _
    split
    · exact (takes_allNames makes_exportedName).moved.bind_moved hbehind
    · exact (takes_sign (by decide)).moved.bind_moved hbehind
  · -- a list of names, perhaps of another module
    refine ((makes_moduleNames false).emits fun _ => ?_).moved
    refine (looks_impliesSemicolon false).bind fun _ => (looks_peek true).bind fun _ => ?_
    exact Moves.optional (takes_fromSource hread).moved fun _ => moves_semicolon _
  · exact ((makes_classExpression hread).spend fun n => Spends.emit_withKind n rfl).moved
  · refine looks_rest.bind fun _ => ?_
    split
    · exact (moves_word _).bind_moved fun _ => moves_exportDefault hread
    · refine (finds_namedDeclaration? hread).spend Spends.emit ?_
      refine (looks_declares? false).bind_of (answers_declares? false) fun answer hanswer => ?_
      split
      · exact (makes_declaration hread (hanswer _ rfl) _).emit.moved
      · exact .failure

/-- Decorators with the class or the export behind them. -/
theorem makes_decorated : Makes cs (decorated read) := by
  refine .encloseAs ((moves_decorators hread).moved_bind fun _ => looks_rest.bind fun _ => ?_) ?_
  · split
    · exact (takes_exportRest hread).bind_taken fun _ => .pure _
    · refine looks_namedClassAhead.bind fun _ => .require fun _ => ?_
      exact (takes_classRest hread).bind_taken fun _ => .pure _
  · refine .bind fun _ => .bind fun _ => ?_
    split
    · exact Anywhere.bind fun _ => Answers.pure rfl
    · exact Anywhere.bind fun _ => .bind fun _ => .bind fun _ => Answers.pure rfl

/-! ## Statements -/

/-- Statements up to a place where they stop. -/
theorem moves_statementsUntil (stop : List Char → Bool) :
    Moves cs (statementsUntil read stop) := by
  refine .repeatWhile ((moves_gap true).bind_moved fun _ => looks_rest.bind fun _ => ?_)
  split
  · exact Moves.pure _
  · exact ((hread _).emits fun _ => .pure _).moved

/-- A block, with its braces. -/
theorem makes_block : Makes cs (block read) := by
  refine .enclose ((takes_sign (by decide)).bind_taken fun _ => ?_) rfl
  exact (moves_statementsUntil hread _).bind_moved fun _ => (takes_sign (by decide)).moved

/-- Expressions as a statement, up to a semicolon that may be implied. -/
theorem makes_expressionStatement : Makes cs (expressionStatement read) :=
  .enclose ((makes_expressions hread _).emits fun _ => moves_semicolon _) rfl

/-- What begins with a brace is an object or a block, and the other one if it cannot be that. -/
theorem makes_braced : Makes cs (braced read) := by
  refine looks_keyAhead.bind fun _ => ?_
  split
  · exact (makes_expressionStatement hread).orElse (hread _)
  · refine looks_memberAhead.bind fun _ => ?_
    split
    · exact (hread _).orElse (makes_expressionStatement hread)
    · exact hread _

/-- A statement that is a word, a condition and another statement. -/
theorem makes_guarded {kind : Kind} {text : String} (hkind : kind.isPlain = true)
    (htext : text ≠ "") : Makes cs (guarded read kind text) := by
  refine .enclose ((takes_word htext).bind_taken fun _ => ?_) hkind
  exact (takes_condition hread).moved.bind_moved fun _ => (takes_child hread _).moved

/-- A statement with a condition may have a second branch. -/
theorem makes_ifStatement : Makes cs (ifStatement read) := by
  refine .enclose ((takes_word (by decide)).bind_taken fun _ => ?_) rfl
  refine (takes_condition hread).moved.bind_moved fun _ => ?_
  refine (takes_child hread _).moved.bind_moved fun _ => (looks_peek true).bind fun _ => ?_
  split
  · refine (moves_gap true).bind_moved fun _ => (Makes.enclose ?_ rfl).emit.moved
    exact (takes_word (by decide)).bind_taken fun _ => (takes_child hread _).moved
  · exact Moves.pure _

/-- A loop whose condition stands at its end. -/
theorem makes_doStatement : Makes cs (doStatement read) := by
  refine .enclose ((takes_word (by decide)).bind_taken fun _ => ?_) rfl
  refine (takes_child hread _).moved.bind_moved fun _ => (moves_gap true).bind_moved fun _ => ?_
  refine (moves_word _).bind_moved fun _ => (takes_condition hread).moved.bind_moved fun _ => ?_
  refine (looks_impliesSemicolon true).bind fun _ => ?_
  split
  · refine (looks_followedBy ";").bind fun _ => ?_
    split
    · exact (takes_expectAfter (by decide)).moved
    · exact Moves.pure _
  · exact Moves.pure _

/-- The cases of a switch: each round takes a case or the brace that ends them. -/
theorem makes_switchBody : Makes cs (switchBody read) := by
  refine .enclose ((takes_sign (by decide)).bind_taken fun _ => .repeatWhile ?_) rfl
  refine (moves_gap true).bind_moved fun _ => looks_rest.bind fun _ => ?_
  extract_lets text behind
  have hbehind : ∀ u, Moves cs (behind u) := fun _ =>
    (takes_expectAfter (by decide)).moved.bind_moved fun _ => moves_statementsUntil hread _
  split
  · rename_i hword
    -- only the two words of a case get here, and neither is empty
    have htext : text ≠ "" := by
      rintro heq
      simp [heq] at hword
    refine ((Makes.enclose ((takes_word htext).bind_taken fun _ => ?_) rfl).emits
      fun _ => .pure _).moved
    split
    · exact (moves_gap true).bind_moved fun _ => ((makes_expressions hread _).emits hbehind).moved
    · exact hbehind ()
  · exact (takes_sign (by decide)).moved.bind_moved fun _ => .pure _

/-- A switch begins with its word. -/
theorem makes_switchStatement : Makes cs (switchStatement read) := by
  refine .enclose ((takes_word (by decide)).bind_taken fun _ => ?_) rfl
  refine (takes_condition hread).moved.bind_moved fun _ => (moves_gap true).bind_moved fun _ => ?_
  exact (makes_switchBody hread).emit.moved

/-- A block with a handler, a final block, or both. -/
theorem makes_tryStatement : Makes cs (tryStatement read) := by
  refine .enclose ((takes_word (by decide)).bind_taken fun _ => ?_) rfl
  refine (takes_child hread _).moved.bind_moved fun _ => (looks_peek true).bind fun _ => ?_
  extract_lets behind
  -- the final block is read alike behind a handler and without one
  have hbehind : ∀ u, Moves cs (behind u) := by
    refine fun _ => (looks_peek true).bind fun _ => ?_
    split
    · refine (moves_gap true).bind_moved fun _ => (Makes.enclose ?_ rfl).emit.moved
      exact (takes_word (by decide)).bind_taken fun _ => (takes_child hread _).moved
    · exact Moves.pure _
  split
  · refine (moves_gap true).bind_moved fun _ => ((Makes.enclose ?_ rfl).emits hbehind).moved
    refine (takes_word (by decide)).bind_taken fun _ => (looks_peek true).bind fun _ => ?_
    split
    · refine (takes_expect (by decide)).moved.bind_moved fun _ => ?_
      refine (moves_gap true).bind_moved fun _ => ((makes_binding hread).emits fun _ => ?_).moved
      exact (takes_expectAfter (by decide)).moved.bind_moved fun _ => (takes_child hread _).moved
    · exact (takes_child hread _).moved
  · exact hbehind ()

omit hread in
/-- A jump is a word, and a label if one stands on its line. -/
theorem makes_jump {kind : Kind} {text : String} (hkind : kind.isPlain = true)
    (htext : text ≠ "") :
    Makes cs (jump kind text) := by
  refine .enclose ((takes_word htext).bind_taken fun _ => ?_) hkind
  refine (looks_impliesSemicolon false).bind fun _ => (looks_peek true).bind fun _ => ?_
  split
  · exact (moves_gap true).bind_moved fun _ =>
      ((makes_name (by decide)).emits fun _ => moves_semicolon _).moved
  · exact moves_semicolon _

/-- A return may have a value. -/
theorem makes_returnStatement : Makes cs (returnStatement read) := by
  refine .enclose ((takes_word (by decide)).bind_taken fun _ => ?_) rfl
  refine (looks_impliesSemicolon false).bind fun _ => ?_
  split
  · exact Moves.pure _
  · refine (looks_peek true).bind fun _ => ?_
    split
    · exact (takes_expect (by decide)).moved
    · exact (moves_gap true).bind_moved fun _ =>
        ((makes_expressions hread _).emits fun _ => moves_semicolon _).moved

/-- A throw has a value. -/
theorem makes_throwStatement : Makes cs (throwStatement read) := by
  refine .enclose ((takes_word (by decide)).bind_taken fun _ => ?_) rfl
  exact (moves_gap true).bind_moved fun _ =>
    ((makes_expressions hread _).emits fun _ => moves_semicolon _).moved

/-! ## Loops -/

/-- A loop over values from its target on: the target is added, then the values and the body. -/
theorem spends_iterationRest (target : Node) : Spends cs target (iterationRest read target) := by
  refine (Spends.emit_withRole target .left).bind fun _ => (moves_gap true).bind_moved fun _ => ?_
  refine (moves_take 2).bind_moved fun _ => (moves_gap true).bind_moved fun _ => ?_
  refine ((makes_expressions hread _).emits fun _ => ?_).moved
  refine (takes_expectAfter (by decide)).moved.bind_moved fun _ => ?_
  exact (takes_child hread _).moved.bind_moved fun _ => .pure _

/-- A counting loop from its condition on. -/
theorem moves_countingRest : Moves cs (countingRest read) := by
  refine (moves_gap true).bind_moved fun _ => looks_rest.bind fun _ => ?_
  extract_lets body closing
  -- the three parts of the head are left out one by one, so the body is read from two places
  have hbody : ∀ u, Moves cs (body u) := fun _ =>
    (takes_expectAfter (by decide)).moved.bind_moved fun _ =>
      (takes_child hread _).moved.bind_moved fun _ => .pure _
  have hclosing : ∀ u, Moves cs (closing u) := by
    refine fun _ => (moves_gap true).bind_moved fun _ => looks_rest.bind fun _ => ?_
    split
    · exact ((makes_expressions hread _).emits hbody).moved
    · exact hbody ()
  split
  · exact (takes_sign (by decide)).moved.bind_moved hclosing
  · refine ((makes_expressions hread _).emits fun _ => ?_).moved
    exact (takes_expectAfter (by decide)).moved.bind_moved hclosing

/-- A declarator reads nothing, or its last child is the value that it read last. -/
theorem ensures_declaratorOf {s : ReaderState} (context : Context) (bound : Node)
    (hs : s.cursor.At cs) :
    Ensures s (declaratorOf read context bound) fun first s' =>
      s' = s ∨ ∃ value, first.children.getLast? = some value ∧ Made cs s value s' := by
  refine Ensures.encloseFrom ?_
  generalize hopen : ({ s with nodes := [bound.withRole .name] } : ReaderState) = s₀
  have hs₀ : s₀.cursor.At cs := hopen ▸ hs
  have hoffset : s.offset = s₀.offset := by rw [← hopen]
  -- the last node of what the body leaves is the last child
  suffices hbody : Ensures s₀ _ fun _ t => t = s₀ ∨
      ∃ value, t.nodes.head? = some value ∧ Made cs s value { t with nodes := s.nodes } by
    refine hbody.bind ?_
    rintro _ t (rfl | ⟨value, hhead, hmade⟩)
    · subst hopen
      exact .pure (.inl rfl)
    · refine .pure (.inr ⟨value, ?_, hmade⟩)
      rw [Node.children, List.getLast?_reverse, hhead]
  extract_lets further
  have hfurther : ∀ broken, Ensures s₀ (further broken) fun _ t => t = s₀ ∨
      ∃ value, t.nodes.head? = some value ∧ Made cs s value { t with nodes := s.nodes } := by
    intro broken
    unfold further
    split
    · refine (looks_followedBy "=" s₀ trivial).bind fun valued _ heq => ?_
      rw [heq]
      split
      · have hequals : "=" ≠ "" := by decide
        refine (takes_expectAfter hequals s₀ hs₀).bind fun _ t₁ htaken => ?_
        obtain ⟨⟨_, hmark⟩, -⟩ := htaken
        refine (moves_gap true t₁ hmark.stands).bind fun _ t₂ hmoved => ?_
        obtain ⟨_, hgap⟩ := hmoved
        refine (hread _ t₂ hgap.stands).bind fun value t₃ hvalue => .emit (.inr ⟨_, rfl, ?_⟩)
        -- the value stands behind the mark and the blanks, so it is made from where the declarator
        -- began
        have hforward : s.offset ≤ t₂.offset :=
          hoffset ▸ Nat.le_trans hmark.forward hgap.forward
        have hrole := hvalue.withRole .value
        exact ⟨⟨hrole.past.stands, hrole.past.laid, hrole.past.solid, hrole.past.within⟩,
          Nat.le_trans hforward hrole.after, rfl, Nat.le_trans hforward hrole.forward⟩
      · exact .pure (.inl rfl)
    · exact .pure (.inl rfl)
  split
  · refine (looks_impliesSemicolon false s₀ trivial).bind fun broken _ heq => ?_
    rw [heq]
    exact hfurther broken
  · exact hfurther false

omit hread in
/-- The look at the word ahead gives the same answer whenever it is made in the same state. -/
theorem ensures_iteratesNext (s : ReaderState) :
    Ensures s iteratesNext fun answer s' => s' = s ∧ iteratesNext s = some (answer, s) := by
  intro answer s' hrun
  obtain rfl : s' = s := looks_iteratesNext s trivial answer s' hrun
  exact ⟨rfl, hrun⟩

/-- A loop over what a declarator was given: the name and the value stand one behind the other. -/
theorem ensures_valueLoop {s t t' : ReaderState} {bound value : Node} (hbound : Made cs s bound t)
    (hvalue : Made cs t value t') :
    Ensures t' (emit bound >>= fun _ => iterationRest read value) (Moved cs s) := by
  have hfirst : Grown cs s { t with nodes := bound :: t.nodes } [bound] := hbound.grown
  have hsecond : Made cs { t with nodes := bound :: t.nodes } value
      { t' with nodes := bound :: t'.nodes } :=
    ⟨⟨hvalue.past.stands, hvalue.past.laid, hvalue.past.solid, hvalue.past.within⟩, hvalue.after,
      congrArg (bound :: ·) hvalue.nodes, hvalue.forward⟩
  refine Ensures.emit_bind ?_
  refine (spends_iterationRest hread value _ _ hsecond).mono fun _ s' ⟨⟨_, hrest⟩, _⟩ => ?_
  exact ⟨_, hfirst.trans hrest⟩

/-- The head of a loop that begins with a declaration. Where a value follows the name and then `in`
or `of`, the value was read with the declarator, since without it nothing was read between the two
looks at the word ahead. -/
theorem moves_declaredLoop {kind : Kind} (hkind : kind.isPlain = true) (begins : List String) :
    Moves cs (declaredLoop read kind begins) := by
  intro s hs
  refine Ensures.get ((moves_words begins s hs).bind fun _ t₁ ⟨_, hwords⟩ => ?_)
  refine (moves_gap true t₁ hwords.stands).bind fun _ t₂ ⟨_, hgap⟩ => ?_
  have hahead := hwords.trans hgap
  refine (makes_binding hread t₂ hgap.stands).bind fun bound t hbound => ?_
  refine (ensures_iteratesNext t).bind fun iterates _ ⟨heq, hlook⟩ => ?_
  rw [heq]
  split
  · refine (spends_iterationRest hread bound t₂ t hbound).mono fun _ s' ⟨⟨_, hrest⟩, _⟩ => ?_
    exact ⟨_, hahead.trans hrest⟩
  · -- with a value behind the name, the word ahead is looked at once more
    rename_i hnot
    refine (ensures_declaratorOf hread _ bound hbound.past.stands).bind fun first t' hfirst => ?_
    refine (ensures_iteratesNext t').bind fun iterates' _ ⟨heq', hlook'⟩ => ?_
    rw [heq']
    split
    · rename_i hvar
      rcases hfirst with rfl | ⟨value, hlast, hvalue⟩
      · -- nothing was read, so the second look would have given the first answer
        rw [hlook] at hlook'
        cases hlook'
        simp [hnot] at hvar
      · rw [hlast]
        refine (ensures_valueLoop hread hbound hvalue).mono fun _ s' ⟨_, hrest⟩ => ?_
        exact ⟨_, hahead.trans hrest⟩
    · -- a counting loop is read once more from its first word
      refine Ensures.set ?_ t' trivial
      refine (Makes.enclose ?_ hkind).emits (fun _ => moves_countingRest hread) |>.moved s hs
      refine (moves_words begins).moved_bind fun _ => ?_
      refine (takes_declarators hread _).bind_taken fun _ => ?_
      exact (takes_expectAfter (by decide)).moved

omit hread in
/-- Loops are of plain kinds. -/
theorem answers_iterationRest (target : Node) :
    Answers (·.isPlain = true) (iterationRest read target) :=
  .bind fun _ => .bind fun _ => .bind fun _ => .bind fun _ => .bind fun _ => .bind fun _ =>
    .bind fun _ => .bind fun _ => Answers.pure rfl

omit hread in
/-- Counting loops are of a plain kind. -/
theorem answers_countingRest : Answers (·.isPlain = true) (countingRest read) := by
  refine .bind fun _ => .bind fun _ => ?_
  extract_lets body closing
  have hbody : ∀ u, Answers (·.isPlain = true) (body u) :=
    fun _ => .bind fun _ => .bind fun _ => Answers.pure rfl
  have hclosing : ∀ u, Answers (·.isPlain = true) (closing u) := by
    refine fun _ => .bind fun _ => .bind fun _ => ?_
    split
    · exact Anywhere.bind fun _ => .bind hbody
    · exact hbody ()
  split
  · exact Anywhere.bind hclosing
  · exact Anywhere.bind fun _ => .bind fun _ => .bind hclosing

omit hread in
/-- Loops that begin with a declaration are of plain kinds. -/
theorem answers_declaredLoop (kind : Kind) (begins : List String) :
    Answers (·.isPlain = true) (declaredLoop read kind begins) := by
  refine .bind fun s => .bind fun _ => .bind fun _ => .bind fun bound => .bind fun iterates => ?_
  split
  · exact answers_iterationRest bound
  · refine Anywhere.bind fun first => .bind fun iterates' => ?_
    split
    · refine Anywhere.bind fun _ => ?_
      split
      · exact answers_iterationRest _
      · exact .failure
    · exact Anywhere.bind fun _ => .bind fun _ => .bind fun _ => answers_countingRest

/-- A loop begins with its word and is of a plain kind, whichever of its forms it has. -/
theorem makes_loop : Makes cs (loop read) := by
  refine .encloseAs ((takes_word (by decide)).bind_taken fun _ => ?_) ?_
  · -- the nodes of the loop
    refine (moves_gap true).bind_moved fun _ => looks_rest.bind fun _ => ?_
    extract_lets begun
    have hbegun : ∀ u, Moves cs (begun u) := by
      refine fun _ => (takes_sign (by decide)).moved.bind_moved fun _ => ?_
      refine (moves_gap true).bind_moved fun _ => looks_rest.bind fun _ => ?_
      split
      · exact (takes_sign (by decide)).moved.bind_moved fun _ => moves_countingRest hread
      · refine (looks_declares? false).bind_of (answers_declares? false) fun answer hanswer => ?_
        split
        · exact moves_declaredLoop hread (hanswer _ rfl) _
        · refine ((makes_expressions hread _).spend fun first => ?_).moved
          refine looks_iteratesNext.spend fun _ => ?_
          split
          · cases htarget : first.toTarget? with
            | none => exact fun _ => .failure
            | some target =>
              have hfor : Node.LaidFor cs first target := Node.laidFor_toTarget? htarget
              exact (spends_iterationRest hread target).of_span_eq
                (Node.span_eq_of_face_eq hfor.face_eq) hfor.laid hfor.solid
          · refine (Spends.emit first).bind fun _ => ?_
            exact (takes_expectAfter (by decide)).moved.bind_moved fun _ =>
              moves_countingRest hread
    split
    · exact (moves_word _).bind_moved fun _ => (moves_gap true).bind_moved hbegun
    · exact hbegun ()
  · -- its kind
    refine .bind fun _ => .bind fun _ => .bind fun _ => ?_
    extract_lets begun
    have hbegun : ∀ u, Answers (·.isPlain = true) (begun u) := by
      refine fun _ => .bind fun _ => .bind fun _ => .bind fun _ => ?_
      split
      · exact Anywhere.bind fun _ => answers_countingRest
      · refine Anywhere.bind fun answer => ?_
        split
        · exact answers_declaredLoop _ _
        · refine Anywhere.bind fun first => .bind fun iterates => ?_
          split
          · split
            · exact answers_iterationRest _
            · exact .failure
          · exact Anywhere.bind fun _ => .bind fun _ => answers_countingRest
    split
    · exact Anywhere.bind fun _ => .bind hbegun
    · exact hbegun ()

/-- A statement that begins with a word, where a word is ahead. -/
theorem makes_wordStatement {ahead : List Char} {text : String} (hahead : ahead ≠ [])
    (htext : text ≠ "") : Meets (Facing cs ahead) (Made cs) (wordStatement read text) := by
  unfold wordStatement
  split
  · exact (makes_ifStatement hread).facing
  · exact (makes_loop hread).facing
  · exact (makes_guarded hread rfl htext).facing
  · exact (makes_guarded hread rfl htext).facing
  · exact (makes_doStatement hread).facing
  · exact (makes_switchStatement hread).facing
  · exact (makes_tryStatement hread).facing
  · exact (makes_returnStatement hread).facing
  · exact (makes_throwStatement hread).facing
  · exact (makes_jump rfl htext).facing
  · exact (makes_jump rfl htext).facing
  · exact (Makes.enclose ((takes_word htext).bind_taken fun _ => moves_semicolon _) rfl).facing
  · -- `import` may also begin an expression
    refine (looks_peekPast _).bind fun _ => ?_
    extract_lets mark
    split
    · exact (makes_expressionStatement hread).facing
    · exact (makes_importStatement hread).facing
  · exact (Makes.enclose (takes_exportRest hread) rfl).facing
  · refine (finds_namedDeclaration? hread).extend (fun _ hs => hs.1) Extends.pure ?_
    refine (looks_declares? true).bind_of (answers_declares? true) fun answer hanswer => ?_
    split
    · exact (makes_declaration hread (hanswer _ rfl) _).facing
    · refine (looks_peekPast _).bind fun _ => ?_
      split
      · -- a label is a leaf of the word that is ahead
        refine Meets.enclose ?_ rfl
        refine (makes_leaf (length_ne_zero htext) hahead (by decide)).emits fun _ => ?_
        exact (takes_expectAfter (by decide)).moved.bind_moved fun _ => (takes_child hread _).moved
      · exact (makes_expressionStatement hread).facing

/-- A statement, by what is ahead. -/
theorem makes_statement : Makes cs (statement read) := by
  refine .rest fun ahead => ?_
  extract_lets text
  split
  · rename_i htext
    exact makes_wordStatement hread (ne_nil_of_nameAt_ne htext) htext
  · split
    · exact (makes_braced hread).facing
    · exact (Makes.enclose (takes_sign (by decide)) rfl).facing
    · exact (makes_decorated hread).facing
    · exact (makes_expressionStatement hread).facing

/-! ## The grammar -/

/-- The rule of a goal makes a node that is laid out, if the readers for all goals do. -/
theorem makes_rule : ∀ goal, Makes cs (rule read goal)
  | .statement => makes_statement hread
  | .block => makes_block hread
  | .expression _ => hread _
  | .operators level context => makes_operators hread level context
  | .operand context => makes_operand hread context
  | .constructed => makes_constructed hread
  | .element => makes_element hread

omit hread in
/-- However many steps a goal is given, the node that is made of it is laid out. -/
theorem makes_read (steps : ℕ) : ∀ goal, Makes cs (Grammar.read steps goal) := by
  induction steps with
  -- a goal without steps left fails, so it makes no node that is not laid out
  | zero => exact fun _ => .failure
  | succ steps ih => exact makes_rule ih

omit hread in
/-- The tree of a whole source is laid out and ends in the text; it may be empty. -/
theorem laidOut_program (steps : ℕ) :
    Meets (InText cs) (fun _ root _ => root.LaidOut cs ∧ root.EndsIn cs) (program steps) := by
  refine Moves.enclose ((moves_gap true).bind_moved fun _ => Meets.rest fun ahead => ?_) rfl
  have hstatements : Moves cs (statementsUntil (Grammar.read steps) List.isEmpty) :=
    moves_statementsUntil (makes_read steps) List.isEmpty
  split
  · exact ((makes_leaf (by simp) (by simp) (by decide)).emits fun _ => hstatements).moved
  · exact hstatements.facing

end LoaderLint.Script.Grammar

namespace LoaderLint.Script

/-- The tree of a source is laid out and ends in the source. -/
theorem layout_of_parse? {source : String} {root : Node} (h : parse? source = some root) :
    root.LaidOut source.toList ∧ root.EndsIn source.toList := by
  have hbegin : (Cursor.mk source.toList .start).At source.toList := ⟨[], rfl, rfl⟩
  have hstart : (Cursor.mk source.toList .start).skipBlanks.At source.toList := hbegin.advance _
  simp only [parse?] at h
  split at h
  · cases h
  · split at h
    · rename_i tree s' hrun
      split at h
      · cases h
        -- numbering changes no place
        obtain ⟨hlaid, hends⟩ := Grammar.laidOut_program _ _ hstart tree s' hrun
        exact ⟨hlaid.numbered, hends.numbered⟩
      · cases h
    · cases h

/-- The tree of a source is laid out. -/
theorem laidOut_of_parse? {source : String} {root : Node} (h : parse? source = some root) :
    root.LaidOut source.toList :=
  (layout_of_parse? h).1

/-- The tree of a program is laid out in its source. -/
theorem Program.laidOut_of_parse? {source : String} {p : Program}
    (h : Program.parse? source = some p) : p.root.LaidOut source.toList := by
  obtain ⟨root, hroot, rfl⟩ := Option.map_eq_some_iff.1 h
  exact Script.laidOut_of_parse? hroot

/-- The tree of a program ends in its source. -/
theorem Program.endsIn_of_parse? {source : String} {p : Program}
    (h : Program.parse? source = some p) : p.root.EndsIn source.toList := by
  obtain ⟨root, hroot, rfl⟩ := Option.map_eq_some_iff.1 h
  exact (layout_of_parse? hroot).2

end LoaderLint.Script
