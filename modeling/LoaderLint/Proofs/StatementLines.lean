import LoaderLint.Proofs.CommentDirectives
import LoaderLint.Proofs.TextOffsets

/-!
# Lines of statements

A directive above a statement of several lines is about all that starts in the statement, but not
about what starts in a statement inside it. The line of the innermost statement around a node is
not behind the line of the node, since a node starts inside its ancestors, and it is the same for
all nodes on the way up to that statement.

The module introduces:

* `Kind.grammarNames` — the names that the grammar has for the nodes of a kind;
* `Node.IsStatement` — a node whose name in the grammar ends as those of statements and
  declarations do;
* `Node.InnermostStatement` — the first statement on the way up from a node;
* `Subject.Reaches` — the lines on which a directive can permit a finding at a node.

What the ancestors of a node are is taken from `Node.Ancestry`, and the order of lines from the
order of offsets. The main result is `Subject.statementLine_innermost`.
-/

namespace LoaderLint

open Script (Node Program)

namespace Script.Kind

/-! ## Names of kinds -/

/-- The names that the grammar has for the nodes of a kind. There are several where the grammar
tells nodes apart that are alike for the rules. A mark or a word is its own name. -/
def grammarNames : Kind → List String
  | program => ["program"]
  | call => ["call_expression"]
  | arguments => ["arguments"]
  | array => ["array"]
  | object => ["object"]
  | function => ["function_expression", "generator_function"]
  | arrow => ["arrow_function"]
  | functionDeclaration => ["function_declaration", "generator_function_declaration"]
  | identifier => ["identifier"]
  | string => ["string"]
  | template => ["template_string"]
  | spread => ["spread_element"]
  | member => ["member_expression"]
  | declarator => ["variable_declarator"]
  | assignment => ["assignment_expression"]
  | compoundAssignment => ["augmented_assignment_expression"]
  | comment => ["comment"]
  | markupComment => ["html_comment"]
  | parenthesized => ["parenthesized_expression"]
  | fragment => ["string_fragment"]
  | escape => ["escape_sequence"]
  | punctuation => ["(", ")", "[", "]", "\x7b", "\x7d", ","]
  | undefined => ["undefined"]
  | subscript => ["subscript_expression"]
  | sequence => ["sequence_expression"]
  | unary => ["unary_expression"]
  | binary => ["binary_expression"]
  | conditional => ["ternary_expression"]
  | update => ["update_expression"]
  | construction => ["new_expression"]
  | await => ["await_expression"]
  | yield => ["yield_expression"]
  | classExpression => ["class"]
  | classBody => ["class_body"]
  | heritage => ["class_heritage"]
  | classField => ["field_definition"]
  | staticBlock => ["class_static_block"]
  | decorator => ["decorator"]
  | method => ["method_definition"]
  | pair => ["pair", "import_specifier", "export_specifier"]
  | shorthand => ["shorthand_property_identifier", "shorthand_property_identifier_pattern"]
  | shorthandDefault => ["object_assignment_pattern"]
  | propertyName => ["property_identifier"]
  | computedName => ["computed_property_name"]
  | privateName => ["private_property_identifier"]
  | parameters => ["formal_parameters"]
  | arrayPattern => ["array_pattern"]
  | objectPattern => ["object_pattern"]
  | pairPattern => ["pair_pattern"]
  | defaultPattern => ["assignment_pattern"]
  | restPattern => ["rest_pattern"]
  | number => ["number"]
  | regex => ["regex"]
  | keyword => ["this", "super", "null", "true", "false", "import"]
  | metaProperty => ["meta_property"]
  | substitution => ["template_substitution"]
  | element => ["jsx_element", "jsx_self_closing_element"]
  | tag => ["jsx_opening_element", "jsx_closing_element"]
  | tagAttribute => ["jsx_attribute"]
  | markupText => ["jsx_text", "string"]
  | markupExpression => ["jsx_expression"]
  | block => ["statement_block"]
  | elseClause => ["else_clause"]
  | switchBody => ["switch_body"]
  | switchCase => ["switch_case", "switch_default"]
  | catchClause => ["catch_clause"]
  | finallyClause => ["finally_clause"]
  | label => ["statement_identifier", "identifier", "default"]
  | moduleNames => ["named_imports", "export_clause"]
  | interpreterLine => ["hash_bang_line"]
  | exportStatement => ["export_statement"]
  | importStatement => ["import_statement"]
  | debuggerStatement => ["debugger_statement"]
  | expressionStatement => ["expression_statement"]
  | ifStatement => ["if_statement"]
  | switchStatement => ["switch_statement"]
  | forStatement => ["for_statement"]
  | forInStatement => ["for_in_statement"]
  | whileStatement => ["while_statement"]
  | doStatement => ["do_statement"]
  | tryStatement => ["try_statement"]
  | withStatement => ["with_statement"]
  | breakStatement => ["break_statement"]
  | continueStatement => ["continue_statement"]
  | returnStatement => ["return_statement"]
  | throwStatement => ["throw_statement"]
  | emptyStatement => ["empty_statement"]
  | labeledStatement => ["labeled_statement"]
  | classDeclaration => ["class_declaration"]
  | variableDeclaration => ["variable_declaration"]
  | lexicalDeclaration => ["lexical_declaration"]
  | usingDeclaration => ["using_declaration"]

/-- A name of the grammar with the ending of statements or the one of declarations. -/
def EndsAsStatement (name : String) : Prop :=
  "_statement".toList <:+ name.toList ∨ "_declaration".toList <:+ name.toList

instance : DecidablePred EndsAsStatement :=
  fun _ => inferInstanceAs (Decidable (_ ∨ _))

/-- All names of a kind have such an ending, or none has. -/
theorem isStatement_eq_of_mem_grammarNames (k : Kind) :
    ∀ name ∈ k.grammarNames, k.isStatement = decide (EndsAsStatement name) := by
  cases k <;> decide +kernel

/-- Each kind has a name in the grammar. -/
theorem grammarNames_ne_nil (k : Kind) : k.grammarNames ≠ [] := by
  cases k <;> exact List.cons_ne_nil _ _

end Script.Kind

namespace Script.Node

/-! ## The way up -/

/-- The grammar calls the node a statement or a declaration. -/
def IsStatement (n : Node) : Prop :=
  ∃ name ∈ n.kind.grammarNames, Kind.EndsAsStatement name

/-- The kinds that count as statements are those that the grammar calls so. -/
theorem isStatement_iff {n : Node} : n.kind.isStatement = true ↔ n.IsStatement := by
  constructor
  · intro h
    obtain ⟨name, hname⟩ := List.exists_mem_of_ne_nil _ n.kind.grammarNames_ne_nil
    rw [n.kind.isStatement_eq_of_mem_grammarNames name hname] at h
    exact ⟨name, hname, of_decide_eq_true h⟩
  · rintro ⟨name, hname, hends⟩
    rw [n.kind.isStatement_eq_of_mem_grammarNames name hname]
    exact decide_eq_true hends

theorem isStatement_eq_false_iff {n : Node} : n.kind.isStatement = false ↔ ¬n.IsStatement := by
  rw [← isStatement_iff, Bool.not_eq_true]

/-- `path` leads up from a node over `inner`, in which there is no statement, to `statement`, and
from there over `outer` to the root. -/
structure InnermostStatement (path inner : List Node) (statement : Node) (outer : List Node) :
    Prop where
  /-- The statement is on the path. -/
  path_eq : path = inner ++ statement :: outer
  /-- It is a statement or a declaration. -/
  isStatement : statement.IsStatement
  /-- Nothing before it is. -/
  innermost : ∀ m ∈ inner, ¬m.IsStatement

/-- There is an innermost statement on a path, or there is none at all. -/
theorem exists_innermostStatement (path : List Node) :
    (∃ inner statement outer, InnermostStatement path inner statement outer) ∨
      ∀ m ∈ path, ¬m.IsStatement := by
  cases hfind : path.find? (·.kind.isStatement) with
  | none => exact .inr fun m hm => mt isStatement_iff.2 (List.find?_eq_none.1 hfind m hm)
  | some statement =>
    obtain ⟨hstatement, inner, outer, hpath, hinner⟩ := List.find?_eq_some_iff_append.1 hfind
    refine .inl ⟨inner, statement, outer, hpath, isStatement_iff.1 hstatement, fun m hm => ?_⟩
    exact isStatement_eq_false_iff.1 (by simpa using hinner m hm)

/-- The search on the way up finds the innermost statement. -/
theorem InnermostStatement.find?_eq {path inner outer : List Node} {statement : Node}
    (h : InnermostStatement path inner statement outer) :
    path.find? (·.kind.isStatement) = some statement :=
  List.find?_eq_some_iff_append.2 ⟨isStatement_iff.2 h.isStatement, inner, outer, h.path_eq,
    fun m hm => by simp [isStatement_eq_false_iff.2 (h.innermost m hm)]⟩

/-- Below a statement that is the innermost one for a node, it is the innermost one for all
nodes. -/
theorem InnermostStatement.of_append {front path outer : List Node} {m statement : Node}
    {rest : List Node} (h : InnermostStatement path (front ++ m :: rest) statement outer) :
    InnermostStatement (m :: (rest ++ statement :: outer)) (m :: rest) statement outer :=
  ⟨rfl, h.isStatement, fun n hn => h.innermost n (List.mem_append_right front hn)⟩

variable {root n m : Node} {above : List Node}

/-- The ancestors of an ancestor are those above it. -/
theorem Ancestry.of_append {inner outer : List Node} (h : Ancestry root n above)
    (heq : n :: above = inner ++ m :: outer) : Ancestry root m outer := by
  -- each node of `inner` is one step up
  induction inner generalizing n above with
  | nil =>
    obtain ⟨rfl, rfl⟩ := List.cons.inj heq
    exact h
  | cons first inner ih =>
    obtain ⟨rfl, habove⟩ := List.cons.inj heq
    cases h with
    | root => exact absurd habove.symm (by simp)
    | child hparent _ => exact ih hparent habove

/-- A node does not start on a line before those of its ancestors. -/
theorem Ancestry.line_le {cs : List Char} (h : Ancestry root n above) (hroot : root.LaidOut cs)
    (hm : m ∈ n :: above) : m.line ≤ n.line := by
  induction h with
  | root =>
    obtain rfl := List.mem_singleton.1 hm
    exact Nat.le_refl _
  | @child parent c above hparent hc ih =>
    rcases List.mem_cons.1 hm with rfl | hm
    · exact Nat.le_refl _
    · -- one step up does not lead to a later line
      have hlaid := hparent.laidOut hroot
      have hstep : parent.line ≤ c.line :=
        hlaid.fits.placed.line_le (hlaid.of_mem_children hc).fits.placed (hlaid.fits.inside c hc).1
      exact Nat.le_trans (ih hm) hstep

/-! ## The line of the statement -/

/-- The line of the statement is the one of the first statement on the way up, or else the line of
the node. -/
theorem Ancestry.statementLine_eq (h : Ancestry root n above) (hids : root.UniqueIds) :
    root.statementLine n = (((n :: above).find? (·.kind.isStatement)).getD n).line := by
  rw [statementLine, h.pathTo_eq hids, Option.getD_some]
  cases (n :: above).find? (·.kind.isStatement) <;> rfl

/-- It is the line of the innermost statement. -/
theorem Ancestry.statementLine_of_innermost {inner outer : List Node} {statement : Node}
    (h : Ancestry root n above) (hids : root.UniqueIds)
    (hinner : InnermostStatement (n :: above) inner statement outer) :
    root.statementLine n = statement.line := by
  rw [h.statementLine_eq hids, hinner.find?_eq, Option.getD_some]

/-- On the way up to the innermost statement the line of the statement stays the same. -/
theorem Ancestry.statementLine_of_between {inner outer : List Node} {statement : Node}
    (h : Ancestry root n above) (hids : root.UniqueIds)
    (hinner : InnermostStatement (n :: above) inner statement outer)
    (hm : m ∈ inner ++ [statement]) : root.statementLine m = statement.line := by
  rcases List.mem_append.1 hm with hm | hm
  · obtain ⟨front, rest, rfl⟩ := List.append_of_mem hm
    have hpath : n :: above = front ++ m :: (rest ++ statement :: outer) := by
      rw [hinner.path_eq, List.append_assoc, List.cons_append]
    exact (h.of_append hpath).statementLine_of_innermost hids hinner.of_append
  · obtain rfl := List.mem_singleton.1 hm
    have hself : InnermostStatement (m :: outer) [] m outer :=
      ⟨rfl, hinner.isStatement, List.forall_mem_nil _⟩
    exact (h.of_append hinner.path_eq).statementLine_of_innermost hids hself

/-- Outside of all statements it is the line of the node. -/
theorem Ancestry.statementLine_of_none (h : Ancestry root n above) (hids : root.UniqueIds)
    (hnone : ∀ m ∈ n :: above, ¬m.IsStatement) : root.statementLine n = n.line := by
  have hfind : (n :: above).find? (·.kind.isStatement) = none :=
    List.find?_eq_none.2 fun m hm => mt isStatement_iff.1 (hnone m hm)
  rw [h.statementLine_eq hids, hfind, Option.getD_none]

/-- A statement does not start on a line behind the nodes inside it. -/
theorem Ancestry.statementLine_le {cs : List Char} (h : Ancestry root n above)
    (hids : root.UniqueIds) (hroot : root.LaidOut cs) : root.statementLine n ≤ n.line := by
  rcases exists_innermostStatement (n :: above) with ⟨inner, statement, outer, hinner⟩ | hnone
  · rw [h.statementLine_of_innermost hids hinner]
    exact h.line_le hroot (by rw [hinner.path_eq]; simp)
  · exact Nat.le_of_eq (h.statementLine_of_none hids hnone)

end Script.Node

/-! ## Directives -/

namespace Subject

/-- A directive on the line with the number `k` can permit a finding at the node: the node or the
statement around it starts on that line or on the next one. -/
def Reaches (s : Subject) (k : ℕ) (n : Node) : Prop :=
  n.line = k ∨ n.line = k + 1 ∨ s.root.statementLine n = k ∨ s.root.statementLine n = k + 1

/-- The lines on which directives are looked for are those that reach the node. -/
theorem mem_lineNumbers_iff_reaches {s : Subject} {n : Node} {k : ℕ} (hk : k ≠ 0) :
    k ∈ s.lineNumbers n ↔ s.Reaches k n := by
  have hpos : 0 < k := Nat.pos_of_ne_zero hk
  rw [mem_lineNumbers, Reaches]
  simp only [List.mem_cons, List.not_mem_nil, or_false]
  omega

/-- A line that does not reach a node does not matter for requests at the node. -/
theorem outcome_of_lines {s : Subject} {profile : Profile} {r : Request} {content : String}
    (h : ∀ k, s.Reaches k r.node → Text.lineAt? (Text.lines content.toList) k =
      Text.lineAt? (Text.lines s.content.toList) k) :
    r.outcome profile { s with content } = r.outcome profile s := by
  refine Request.outcome_congr_content fun k hk => ?_
  -- above the first line the number is zero, which is that of no line
  by_cases hzero : k = 0
  · rw [hzero]
    rfl
  · exact h k ((mem_lineNumbers_iff_reaches hzero).1 hk)

/-- A request is suppressed exactly if a directive about the rule is on a line that reaches its
node. -/
theorem suppressed_iff_reaches {s : Subject} {profile : Profile} {r : Request} :
    r.Suppressed profile s ↔
      ∃ k d, Directive.OnLine s.content k d ∧ d.Lists profile.name ∧ s.Reaches k r.node := by
  rw [Request.suppressed_iff_isSome, isSome_permission?_iff]
  constructor
  · rintro ⟨k, hk, d, hd, hlists⟩
    obtain ⟨-, -, -, hpos, -⟩ := hd.exists_line
    exact ⟨k, d, hd, hlists, (mem_lineNumbers_iff_reaches (Nat.ne_zero_of_lt hpos)).1 hk⟩
  · rintro ⟨k, d, hd, hlists, hk⟩
    obtain ⟨-, -, -, hpos, -⟩ := hd.exists_line
    exact ⟨k, (mem_lineNumbers_iff_reaches (Nat.ne_zero_of_lt hpos)).2 hk, d, hd, hlists⟩

/-- The line of the statement around a node, in a tree that is laid out and whose nodes have
different numbers.

It is the line of the innermost node that the grammar calls a statement or a declaration, among the
node and its ancestors, or the line of the node if there is none. It is not behind the line of the
node, and it is the same for all nodes from the node up to the statement. So a request at the node
is suppressed exactly if a directive about the rule is on a line on which the node or that
statement starts, or on the line above one of them. What stands on lines behind that of the node
makes no difference, and neither does a line, say above an outer statement, if neither the
innermost statement nor the node starts on it or on the next one. -/
theorem statementLine_innermost (s : Subject) {cs : List Char} (hlaid : s.root.LaidOut cs)
    (hids : s.root.UniqueIds) {n : Node} {above : List Node} (h : s.root.Ancestry n above) :
    ((∃ inner statement outer,
        Node.InnermostStatement (n :: above) inner statement outer ∧
        s.root.statementLine n = statement.line ∧
        ∀ m ∈ inner ++ [statement], s.root.statementLine m = s.root.statementLine n) ∨
      (∀ m ∈ n :: above, ¬m.IsStatement) ∧ s.root.statementLine n = n.line) ∧
    s.root.statementLine n ≤ n.line ∧
    ∀ (profile : Profile) (r : Request), r.node = n →
      (r.Suppressed profile s ↔
        ∃ k d, Directive.OnLine s.content k d ∧ d.Lists profile.name ∧
          (n.line = k ∨ n.line = k + 1 ∨
            s.root.statementLine n = k ∨ s.root.statementLine n = k + 1)) ∧
      (∀ content : String,
        (∀ k ≤ n.line, Text.lineAt? (Text.lines content.toList) k =
          Text.lineAt? (Text.lines s.content.toList) k) →
        r.outcome profile { s with content } = r.outcome profile s) ∧
      ∀ (k : ℕ) (content : String),
        (∀ j ≠ k, Text.lineAt? (Text.lines content.toList) j =
          Text.lineAt? (Text.lines s.content.toList) j) →
        n.line ≠ k → n.line ≠ k + 1 →
        s.root.statementLine n ≠ k → s.root.statementLine n ≠ k + 1 →
        r.outcome profile { s with content } = r.outcome profile s := by
  have hle : s.root.statementLine n ≤ n.line := h.statementLine_le hids hlaid
  refine ⟨?_, hle, ?_⟩
  · rcases Node.exists_innermostStatement (n :: above) with
      ⟨inner, statement, outer, hinner⟩ | hnone
    · have hline := h.statementLine_of_innermost hids hinner
      refine .inl ⟨inner, statement, outer, hinner, hline, fun m hm => ?_⟩
      rw [hline]
      exact h.statementLine_of_between hids hinner hm
    · exact .inr ⟨hnone, h.statementLine_of_none hids hnone⟩
  · rintro profile r rfl
    refine ⟨suppressed_iff_reaches, fun content hlines => ?_, fun k content hlines => ?_⟩
    · refine outcome_of_lines fun k hk => hlines k ?_
      rcases hk with hk | hk | hk | hk <;> omega
    · intro hnode hnext hstatement hbelow
      refine outcome_of_lines fun j hj => hlines j ?_
      rintro rfl
      rcases hj with hj | hj | hj | hj <;> contradiction

/-- A call in a statement inside another one, with a directive above the outer statement and one
behind the call. Neither permits the finding at the call. -/
theorem statementLine_innermost_nested :
    let source := "// amd-lint: allow(all) reason=\"x\"\nf(function () \x7b\n  g(\n" ++
      "    define('x', \x7b\x7d));\n\x7d); // amd-lint: allow(all) reason=\"y\"\n"
    let profile := (Rule.default .namedDefine).profile
    (∀ k ∈ [1, 5], ∃ d, Directive.OnLine source k d ∧ d.Lists profile.name) ∧
    ∃ p n above, Program.parse? source = some p ∧ p.root.LaidOut source.toList ∧
      p.root.UniqueIds ∧ p.root.Ancestry n above ∧ n.calleeName = some "define" ∧ n.line = 4 ∧
      p.root.statementLine n = 3 ∧
      ¬Request.Suppressed profile ⟨⟨"m.js"⟩, source, p.root⟩ ⟨n, "", none⟩ := by
  intro source profile
  have hlines : (Text.lines source.toList).map Directive.parse? =
      [some ⟨["all"], some "x"⟩, none, none, none, some ⟨["all"], some "y"⟩] := by
    decide +kernel
  have honLine (k : ℕ) (d : Directive) : Directive.OnLine source (k + 1) d ↔
      [some ⟨["all"], some "x"⟩, none, none, none, some ⟨["all"], some "y"⟩][k]? =
        some (some d) := by
    rw [← hlines, List.getElem?_map, Directive.OnLine, Text.lineAt?, Option.bind_eq_some_iff,
      Option.map_eq_some_iff]
  refine ⟨?_, ?_⟩
  · rw [List.forall_mem_cons, List.forall_mem_singleton]
    exact ⟨⟨_, (honLine 0 _).2 rfl, .inr List.mem_cons_self⟩,
      ⟨_, (honLine 4 _).2 rfl, .inr List.mem_cons_self⟩⟩
  have hcall : (Program.parse? source).any (fun p => p.root.nodes.any fun n =>
      n.calleeName = some "define" && n.line = 4 && p.root.statementLine n = 3) = true := by
    decide +kernel
  simp only [Option.any_eq_true, List.any_eq_true, Bool.and_eq_true, decide_eq_true_eq] at hcall
  obtain ⟨p, hp, n, hn, ⟨hcallee, hline⟩, hstatement⟩ := hcall
  obtain ⟨above, habove⟩ := Node.mem_nodes_iff_exists_ancestry.1 hn
  have hlaid := Program.laidOut_of_parse? hp
  have hids := Program.uniqueIds_of_parse? hp
  refine ⟨p, n, above, hp, hlaid, hids, habove, hcallee, hline, hstatement, ?_⟩
  obtain ⟨-, -, hrequests⟩ :=
    statementLine_innermost ⟨⟨"m.js"⟩, source, p.root⟩ hlaid hids habove
  rw [(hrequests profile ⟨n, "", none⟩ rfl).1, hline]
  -- the lines that reach the call are the second to the fourth
  rintro ⟨k, d, hd, -, hk⟩
  rw [hstatement] at hk
  rcases hk with rfl | hk | rfl | hk
  · exact absurd ((honLine 3 d).1 hd) (by simp)
  · obtain rfl : 3 = k := Nat.succ.inj hk
    exact absurd ((honLine 2 d).1 hd) (by simp)
  · exact absurd ((honLine 2 d).1 hd) (by simp)
  · obtain rfl : 2 = k := Nat.succ.inj hk
    exact absurd ((honLine 1 d).1 hd) (by simp)

end Subject

end LoaderLint
