import LoaderLint.Proofs.DirectiveGrammar
import LoaderLint.Proofs.ProgramLayout
import LoaderLint.Proofs.ReportSink
import LoaderLint.Rule
import Mathlib.Tactic.MkIffOfInductiveProp

/-!
# Directives and the comments of a program

Directives are looked for in the text of lines, where what looks like the opener of a comment need
not be one. On lines that are legible the search agrees with the comments of the tree: a request is
suppressed exactly if a comment that starts on a candidate line is a directive about the rule.

The module introduces:

* `Directive.behindKeyword?`, `Node.IsDirective` — comments that begin with the keyword, and those
  that are directives about a rule;
* `Program.marked`, `Program.Legible` — the comments of a line that begin with the keyword, and the
  lines on which they are what the search sees;
* `Request.Suppressed` — a request that is dropped or becomes a warning.

The main result is `Request.suppressed_iff_comment`. `Request.suppressed_without_comment` shows
that lines have to be legible: a string is taken for a comment, and a string hides a comment.
-/

namespace LoaderLint

open Script (Node Program Position)

/-! ## Comments that begin with the keyword -/

namespace Directive

/-- The text behind the opener of a comment. -/
def behindOpener? : List Char → Option (List Char)
  | '/' :: '/' :: rest => some rest
  | '/' :: '*' :: '*' :: rest => some rest
  | '/' :: '*' :: rest => some rest
  | _ => none

/-- The text behind the keyword of a comment that has it right behind its opener, blanks aside. -/
def behindKeyword? (comment : List Char) : Option (List Char) :=
  (behindOpener? comment).bind fun text =>
    Text.dropStart? keyword (text.dropWhile fun c => Text.isWhite c && c ≠ '\n')

/-- The openers of comments that a directive may stand behind. -/
def openers : List (List Char) := ["//".toList, "/*".toList, "/**".toList]

/-- A text opens a comment exactly if it ends with an opener, blanks aside. -/
theorem opensComment_eq_true_iff {before : List Char} :
    opensComment before = true ↔
      ∃ opener ∈ openers, ∃ front, Text.trimEnd before = front ++ opener := by
  simp [opensComment, openers, Option.isSome_iff_exists, Text.dropEnd?_eq_some_iff, or_assoc]

/-- What stands behind the opener of a comment follows one of the openers. -/
theorem exists_opener_of_behindOpener? {comment text : List Char}
    (h : behindOpener? comment = some text) : ∃ opener ∈ openers, comment = opener ++ text := by
  unfold behindOpener? at h
  split at h
  · cases h
    exact ⟨"//".toList, by decide, rfl⟩
  · cases h
    exact ⟨"/**".toList, by decide, rfl⟩
  · cases h
    exact ⟨"/*".toList, by decide, rfl⟩
  · cases h

/-- The last character of an opener is no blank. -/
theorem exists_last_of_mem_openers {opener : List Char} (h : opener ∈ openers) :
    ∃ start last, opener = start ++ [last] ∧ Text.isWhite last = false := by
  simp only [openers, List.mem_cons, List.not_mem_nil, or_false] at h
  rcases h with rfl | rfl | rfl
  · exact ⟨['/'], '/', rfl, by decide⟩
  · exact ⟨['/'], '*', rfl, by decide⟩
  · exact ⟨['/', '*'], '*', rfl, by decide⟩

/-- A text that ends with an opener and blanks opens a comment, since trimming stops at the
opener. -/
theorem opensComment_append {opener blanks : List Char} (hopener : opener ∈ openers)
    (hblanks : ∀ c ∈ blanks, Text.isWhite c = true) (front : List Char) :
    opensComment (front ++ (opener ++ blanks)) = true := by
  obtain ⟨start, last, rfl, hwhite⟩ := exists_last_of_mem_openers hopener
  rw [opensComment_eq_true_iff]
  refine ⟨start ++ [last], hopener, front, ?_⟩
  have htrim := Text.trimEnd_append_cons hwhite (front ++ start) blanks
  rw [Text.trimEnd_eq_nil hblanks] at htrim
  simpa using htrim

/-- A text opens a comment exactly if it ends with an opener and blanks. -/
theorem opensComment_iff_exists {before : List Char} :
    opensComment before = true ↔ ∃ code opener gap, before = code ++ (opener ++ gap) ∧
      opener ∈ openers ∧ ∀ c ∈ gap, Text.isWhite c = true := by
  constructor
  · intro h
    obtain ⟨opener, hopener, code, htrim⟩ := opensComment_eq_true_iff.1 h
    obtain ⟨gap, hgap, hwhite⟩ := Text.exists_eq_trimEnd before
    exact ⟨code, opener, gap, by rw [hgap, htrim, List.append_assoc], hopener, hwhite⟩
  · rintro ⟨code, opener, gap, rfl, hopener, hgap⟩
    exact opensComment_append hopener hgap code

/-- Neither the marks of an opener nor blanks are characters of the keyword. -/
theorem apart_keyword {opener gap : List Char} (hopener : opener ∈ openers)
    (hgap : ∀ c ∈ gap, Text.isWhite c = true) :
    opener ++ gap ≠ [] ∧ ∀ c ∈ opener ++ gap, c ∉ keyword := by
  have hall : (openers.all fun opener => !opener.isEmpty &&
      opener.all fun c => !keyword.contains c) = true := by decide
  have hmarks : opener ≠ [] ∧ ∀ c ∈ opener, c ∉ keyword := by
    simpa using List.all_eq_true.1 hall opener hopener
  refine ⟨by simp [hmarks.1], fun c hc hmem => ?_⟩
  rcases List.mem_append.1 hc with hc | hc
  · exact hmarks.2 c hc hmem
  · have hword : keyword.all (!Text.isWhite ·) = true := by decide
    have hblack : (!Text.isWhite c) = true := List.all_eq_true.1 hword c hmem
    rw [hgap c hc] at hblack
    cases hblack

/-- What stands before the keyword of a comment that begins with it. -/
theorem exists_gap_of_behindKeyword? {comment rest : List Char}
    (h : behindKeyword? comment = some rest) :
    ∃ gap, comment = gap ++ (keyword ++ rest) ∧ gap ≠ [] ∧ (∀ c ∈ gap, c ∉ keyword ∧ c ≠ '\n') ∧
      ∀ front, opensComment (front ++ gap) = true := by
  obtain ⟨text, hopener, hkeyword⟩ := Option.bind_eq_some_iff.1 h
  obtain ⟨opener, hmem, rfl⟩ := exists_opener_of_behindOpener? hopener
  rw [Text.dropStart?_eq_some_iff] at hkeyword
  have hblanks : ∀ c ∈ text.takeWhile (fun c => Text.isWhite c && c ≠ '\n'),
      Text.isWhite c = true ∧ c ≠ '\n' := by
    intro c hc
    simpa using List.mem_takeWhile_imp hc
  have hnewline : '\n' ∉ opener := by
    have hall : openers.all (!·.contains '\n') = true := by decide
    simpa using List.all_eq_true.1 hall opener hmem
  obtain ⟨hne, hapart⟩ := apart_keyword hmem fun c hc => (hblanks c hc).1
  refine ⟨opener ++ text.takeWhile fun c => Text.isWhite c && c ≠ '\n', ?_, hne,
    fun c hc => ⟨hapart c hc, ?_⟩,
    fun front => opensComment_append hmem (fun c hc => (hblanks c hc).1) front⟩
  · rw [List.append_assoc, ← hkeyword, List.takeWhile_append_dropWhile]
  · rcases List.mem_append.1 hc with hc | hc
    · exact fun heq => hnewline (heq ▸ hc)
    · exact (hblanks c hc).2

/-- A list that ends on the line and in the comment is the same list for both. -/
theorem allows_iff_of_closed {front rest after behind : List Char} (hfront : '\n' ∉ front)
    (hline : (Text.lines (front ++ (rest ++ after))).head? = some (front ++ behind))
    (hclosed : Opens rest ∨ Opens behind → ')' ∈ rest.takeWhile (· ≠ '\n')) (rules : List String) :
    Allows behind rules ↔ Allows rest rules := by
  by_cases hopens : Opens rest ∨ Opens behind
  · obtain ⟨body, tail, hbody⟩ := List.append_of_mem (hclosed hopens)
    have hrest : rest = body ++ ')' :: (tail ++ rest.dropWhile (· ≠ '\n')) := by
      rw [← List.cons_append, ← List.append_assoc, ← hbody, List.takeWhile_append_dropWhile]
    have hnewline : '\n' ∉ (front ++ body) ++ [')'] := by
      have hmem : '\n' ∉ body := by
        intro hmem
        have htake : '\n' ∈ rest.takeWhile (· ≠ '\n') := hbody ▸ List.mem_append_left _ hmem
        exact absurd (List.mem_takeWhile_imp htake) (by decide)
      simp [hfront, hmem]
    -- up to the end of the list the line and the comment go on in the same way
    obtain ⟨tail', hhead⟩ := Text.head?_lines_append hnewline ⟨')', by simp, by decide⟩
      (tail ++ rest.dropWhile (· ≠ '\n') ++ after)
    have hsame : front ++ (rest ++ after) =
        front ++ body ++ [')'] ++ (tail ++ rest.dropWhile (· ≠ '\n') ++ after) := by
      nth_rewrite 1 [hrest]
      simp
    rw [hsame, hhead, Option.some.injEq] at hline
    have hbehind : behind = body ++ ')' :: tail' := by simpa [eq_comm] using hline
    rw [hrest, hbehind]
    exact ⟨.replace_tail, .replace_tail⟩
  · exact ⟨fun h => absurd (.inr h.opens) hopens, fun h => absurd (.inl h.opens) hopens⟩

end Directive

/-- The node is a comment that is a directive about the rule. -/
def Script.Node.IsDirective (n : Node) (rule : String) : Prop :=
  n.kind = .comment ∧ ∃ rest rules, Directive.behindKeyword? n.text.toList = some rest ∧
    Directive.Allows rest rules ∧ (rule ∈ rules ∨ "all" ∈ rules)

namespace Script.Program

/-- The comments that start on a line and begin with the keyword. -/
def marked (p : Program) (k : ℕ) : List Node :=
  p.root.nodes.filter fun n =>
    n.kind = .comment ∧ n.line = k ∧ (Directive.behindKeyword? n.text.toList).isSome

theorem mem_marked {p : Program} {k : ℕ} {n : Node} :
    n ∈ p.marked k ↔ n ∈ p.root.nodes ∧ n.kind = .comment ∧ n.line = k ∧
      (Directive.behindKeyword? n.text.toList).isSome = true := by
  simp [marked]

/-- The line with the number. -/
def line? (p : Program) (k : ℕ) : Option (List Char) := Text.lineAt? (Text.lines p.source.toList) k

/-- A line on which a search for directives sees the comments as they are. -/
@[mk_iff]
structure Legible (p : Program) (k : ℕ) : Prop where
  /-- Where the line has a directive, it has a comment that begins with the keyword. -/
  real : ∀ line ∈ p.line? k, (Directive.parse? line).isSome → p.marked k ≠ []
  /-- No keyword stands on the line before such a comment. -/
  first : ∀ n ∈ p.marked k, ∀ line ∈ p.line? k,
    ¬Directive.keyword <:+: takeBytes (n.span.start.column - 1) line
  /-- A list that begins behind the keyword ends on the line and in the comment. -/
  closed : ∀ n ∈ p.marked k, ∀ rest ∈ Directive.behindKeyword? n.text.toList,
    ∀ line ∈ p.line? k, ∀ cut ∈ Text.cutAt? Directive.keyword line,
      Directive.Opens rest ∨ Directive.Opens cut.2 → ')' ∈ rest.takeWhile (· ≠ '\n')

instance (p : Program) (k : ℕ) : Decidable (p.Legible k) :=
  decidable_of_iff _ (legible_iff p k).symm

/-! ## The directive of a legible line -/

variable {p : Program} {k : ℕ}

/-- The first keyword of a legible line is that of the comment that begins with it, and the list of
rules that the search reads there is the list of the comment. -/
theorem Legible.exists_cut (h : p.Legible k) (hlaid : p.root.LaidOut p.source.toList) {n : Node}
    (hn : n ∈ p.marked k) {rest : List Char}
    (hrest : Directive.behindKeyword? n.text.toList = some rest) :
    ∃ line before behind, p.line? k = some line ∧
      Text.cutAt? Directive.keyword line = some (before, behind) ∧
      Directive.opensComment before = true ∧
      ∀ rules, Directive.Allows behind rules ↔ Directive.Allows rest rules := by
  obtain ⟨hnode, hkind, hline, -⟩ := mem_marked.1 hn
  obtain ⟨above, hancestry⟩ := Node.mem_nodes_iff_exists_ancestry.1 hnode
  obtain ⟨prior, after, hsource, hstart, -⟩ := (hancestry.laidOut hlaid).fits.spelled hkind
  obtain ⟨gap, hgap, hne, hapart, hopens⟩ := Directive.exists_gap_of_behindKeyword? hrest
  obtain ⟨front, hfront, hcolumn, hat⟩ := Position.exists_line_past prior
  have hnewline : '\n' ∉ front ++ gap ++ Directive.keyword := by
    have hgap : '\n' ∉ gap := fun hmem => (hapart '\n' hmem).2 rfl
    have hkeyword : '\n' ∉ Directive.keyword := by decide
    simp [hfront, hgap, hkeyword]
  -- the keyword is on the line, whatever follows it
  obtain ⟨behind, hhead⟩ := Text.head?_lines_append hnewline
    ⟨':', by rw [List.getLast?_append_of_ne_nil _ (by decide)]; rfl, by decide⟩ (rest ++ after)
  have hat : p.line? k = some (front ++ gap ++ Directive.keyword ++ behind) := by
    have hnumber : (Position.start.past prior).line = k := by
      rw [← hline, ← hstart]
      rfl
    rw [line?, hsource, ← hnumber, hat, ← hhead]
    have htext : n.head.text.toList = gap ++ (Directive.keyword ++ rest) := hgap
    simp [htext]
  -- the part of the line before the comment is what its column counts
  have hfirst : ¬Directive.keyword <:+: front := by
    have hfirst := h.first n hn _ hat
    have hbytes : takeBytes (n.span.start.column - 1)
        (front ++ (gap ++ (Directive.keyword ++ behind))) = front := by
      rw [Node.span, hstart, hcolumn]
      exact takeBytes_column hfront .start _
    rwa [List.append_assoc, List.append_assoc, hbytes] at hfirst
  have hcut : Text.cutAt? Directive.keyword (front ++ gap ++ Directive.keyword ++ behind) =
      some (front ++ gap, behind) := by
    rw [List.append_assoc, List.append_assoc]
    exact Text.cutAt?_append_apart hfirst hne (fun c hc => (hapart c hc).1) behind
  -- the list ends before the line and the comment go separate ways
  exact ⟨_, front ++ gap, behind, hat, hcut, hopens front,
    Directive.allows_iff_of_closed hnewline hhead (h.closed n hn rest hrest _ hat _ hcut)⟩

/-- On a legible line the directives about a rule are the comments that are. -/
theorem Legible.exists_onLine_iff (h : p.Legible k) (hlaid : p.root.LaidOut p.source.toList)
    (rule : String) :
    (∃ d, Directive.OnLine p.source k d ∧ d.Lists rule) ↔
      ∃ n ∈ p.root.nodes, n.line = k ∧ n.IsDirective rule := by
  constructor
  · -- the line has some comment that begins with the keyword, and the search found that comment
    rintro ⟨d, hd, hlists⟩
    obtain ⟨line, hline, hparse⟩ := Option.bind_eq_some_iff.1 hd
    obtain ⟨n, hn⟩ := List.exists_mem_of_ne_nil _ (h.real line hline (by simp [hparse]))
    obtain ⟨hnode, hkind, hnumber, hmarked⟩ := mem_marked.1 hn
    obtain ⟨rest, hrest⟩ := Option.isSome_iff_exists.1 hmarked
    obtain ⟨line', before, behind, hline', hcut, hopens, hrules⟩ := h.exists_cut hlaid hn hrest
    obtain rfl : line = line' := Option.some.inj (hline.symm.trans hline')
    have hallows := (Directive.exists_parse?_iff hcut hopens).1 ⟨d, hparse, rfl⟩
    exact ⟨n, hnode, hnumber, hkind, rest, d.rules, hrest, (hrules _).1 hallows, hlists⟩
  · rintro ⟨n, hnode, hnumber, hkind, rest, rules, hrest, hallows, hlists⟩
    have hn : n ∈ p.marked k := mem_marked.2 ⟨hnode, hkind, hnumber, by rw [hrest]; rfl⟩
    obtain ⟨line, before, behind, hline, hcut, hopens, hrules⟩ := h.exists_cut hlaid hn hrest
    obtain ⟨d, hparse, rfl⟩ :=
      (Directive.exists_parse?_iff hcut hopens).2 ((hrules rules).2 hallows)
    exact ⟨d, Option.bind_eq_some_iff.2 ⟨line, hline, hparse⟩, hlists⟩

end Script.Program

/-! ## Suppressed requests -/

/-- The numbers of the candidate lines of a node. -/
theorem Subject.mem_lineNumbers {s : Subject} {n : Node} {k : ℕ} :
    k ∈ s.lineNumbers n ↔
      k ∈ [n.line - 1, n.line, s.root.statementLine n - 1, s.root.statementLine n] := by
  unfold lineNumbers
  by_cases hline : s.root.statementLine n = n.line
  · simp [hline]
    omega
  · simp [hline]

/-- A node is permitted a finding if one of its candidate lines has a directive about the rule. -/
theorem Subject.isSome_permission?_iff {s : Subject} {rule : String} {n : Node} :
    (s.permission? rule n).isSome = true ↔
      ∃ k ∈ s.lineNumbers n, ∃ d, Directive.OnLine s.content k d ∧ d.Lists rule := by
  rw [permission?_eq_find?, Directive.find?, List.findSome?_isSome_iff]
  simp only [Option.isSome_iff_exists, Directive.filter_covers_eq_some_iff]

namespace Request

/-- The request is dropped, or becomes a warning about a missing reason. -/
def Suppressed (profile : Profile) (s : Subject) (r : Request) : Prop :=
  r.outcome profile s = none ∨ r.outcome profile s = some (profile.missingReason s r.node)

/-- A request is suppressed exactly if a directive permits it. -/
theorem suppressed_iff_isSome {profile : Profile} {s : Subject} {r : Request} :
    r.Suppressed profile s ↔ (s.permission? profile.name r.node).isSome = true := by
  unfold Suppressed outcome
  cases s.permission? profile.name r.node with
  | none => simp [Profile.finding, Profile.missingReason]
  | some d =>
    by_cases hreason : profile.requiresReason ∧ d.reason = none
    · simp [hreason]
    · simp [hreason]

/-- The lines that matter for a node are its own, that of its statement, and the ones above them.
If they are legible, a request at the node is suppressed exactly if a comment of the tree that
starts on one of them is a directive about the rule. -/
theorem suppressed_iff_comment {source : String} {p : Program}
    (hp : Program.parse? source = some p) (path base : Path) (profile : Profile) (r : Request)
    (hlegible : ∀ k ∈ [r.node.line - 1, r.node.line, p.statementLine r.node - 1,
      p.statementLine r.node], p.Legible k) :
    r.Suppressed profile (.of path base p) ↔
      ∃ n ∈ p.root.nodes, n.line ∈ [r.node.line - 1, r.node.line, p.statementLine r.node - 1,
        p.statementLine r.node] ∧ n.IsDirective profile.name := by
  have hsource : p.source = source := by
    obtain ⟨root, -, rfl⟩ := Option.map_eq_some_iff.1 hp
    rfl
  have hlaid : p.root.LaidOut p.source.toList := hsource ▸ Program.laidOut_of_parse? hp
  rw [suppressed_iff_isSome, Subject.isSome_permission?_iff]
  constructor
  · rintro ⟨k, hk, hdirective⟩
    rw [Subject.mem_lineNumbers] at hk
    obtain ⟨n, hn, rfl, hcomment⟩ := ((hlegible k hk).exists_onLine_iff hlaid _).1 hdirective
    exact ⟨n, hn, hk, hcomment⟩
  · rintro ⟨n, hn, hk, hcomment⟩
    exact ⟨n.line, Subject.mem_lineNumbers.2 hk,
      ((hlegible n.line hk).exists_onLine_iff hlaid _).2 ⟨n, hn, rfl, hcomment⟩⟩

/-- The comment of a tree that has one comment. -/
theorem exists_comment_of_map_eq {root : Node} {line : ℕ} {text : String}
    (h : (root.nodes.filter (·.kind = .comment)).map (fun n => (n.line, n.text)) =
      [(line, text)]) :
    ∃ n ∈ root.nodes, n.kind = .comment ∧ n.line = line ∧ n.text = text := by
  obtain ⟨n, hcomments, heq⟩ := List.map_eq_singleton_iff.1 h
  have hmem : n ∈ root.nodes.filter (·.kind = .comment) := hcomments ▸ List.mem_singleton_self n
  simp only [List.mem_filter, decide_eq_true_eq] at hmem
  rw [Prod.mk.injEq] at heq
  exact ⟨n, hmem.1, hmem.2, heq⟩

/-- A comment behind code suppresses the request on the next line, whatever text follows it. -/
theorem suppressed_iff_comment_inline :
    let source := "var a = 1; /* amd-lint: allow(no-named-define) */ var b = '// amd-lint:';\n" ++
      "define('x', \x7b\x7d);\n"
    ∃ p n, Program.parse? source = some p ∧ n ∈ p.calls ∧
      (∀ k ∈ [n.line - 1, n.line, p.statementLine n - 1, p.statementLine n], p.Legible k) ∧
      Suppressed (Rule.default .namedDefine).profile (.of ⟨"/p/m.js"⟩ ⟨"/p"⟩ p) ⟨n, "", none⟩ := by
  intro source
  have hparts : (Program.parse? source).map (fun p =>
      (p.calls.map fun n => (n.line, p.statementLine n), decide (p.Legible 1 ∧ p.Legible 2),
      (p.root.nodes.filter (·.kind = .comment)).map fun n => (n.line, n.text))) =
      some ([(2, 2)], true, [(1, "/* amd-lint: allow(no-named-define) */")]) := by
    decide +kernel
  obtain ⟨p, hp, hparts⟩ := Option.map_eq_some_iff.1 hparts
  simp only [Prod.mk.injEq, decide_eq_true_eq] at hparts
  obtain ⟨hcalls, ⟨habove, hown⟩, hcomments⟩ := hparts
  obtain ⟨n, hcalls, heq⟩ := List.map_eq_singleton_iff.1 hcalls
  obtain ⟨hn, hstatement⟩ := Prod.mk.inj heq
  obtain ⟨c, hc, hkind, hline, htext⟩ := exists_comment_of_map_eq hcomments
  have hlegible : ∀ k ∈ [n.line - 1, n.line, p.statementLine n - 1, p.statementLine n],
      p.Legible k := by
    simp [hn, hstatement, habove, hown]
  refine ⟨p, n, hp, by simp [hcalls], hlegible, ?_⟩
  refine (suppressed_iff_comment hp ⟨"/p/m.js"⟩ ⟨"/p"⟩ _ ⟨n, "", none⟩ hlegible).2
    ⟨c, hc, by simp [hn, hline], hkind, " allow(no-named-define) */".toList, ["no-named-define"],
      ?_, ?_, .inl (by decide)⟩
  · rw [htext]
    decide
  · exact ⟨[' '], "no-named-define".toList, " */".toList, by decide,
      List.forall_mem_singleton.2 (by decide), by decide, by decide, by decide⟩

/-- On lines that are not legible neither direction holds: a string that looks like a directive
suppresses a request in a program without comments, and a string with the keyword before a comment
hides the directive that the comment is. -/
theorem suppressed_without_comment :
    let string := "var s = '// amd-lint: allow(all) reason=\"x\"'; define('x', \x7b\x7d);\n"
    let hidden := "var s = 'amd-lint:'; define('x', \x7b\x7d); " ++
      "// amd-lint: allow(all) reason=\"x\"\n"
    let profile := (Rule.default .namedDefine).profile
    (∃ p n, Program.parse? string = some p ∧ n ∈ p.calls ∧
      Suppressed profile (.of ⟨"/p/m.js"⟩ ⟨"/p"⟩ p) ⟨n, "", none⟩ ∧
      ∀ c ∈ p.root.nodes, c.kind ≠ .comment) ∧
    ∃ p n c, Program.parse? hidden = some p ∧ n ∈ p.calls ∧
      ¬Suppressed profile (.of ⟨"/p/m.js"⟩ ⟨"/p"⟩ p) ⟨n, "", none⟩ ∧
      c ∈ p.root.nodes ∧ c.line = n.line ∧ c.IsDirective profile.name := by
  intro string hidden profile
  constructor
  · have hparts : (Program.parse? string).map (fun p =>
        (p.calls.map fun n =>
          ((Subject.of ⟨"/p/m.js"⟩ ⟨"/p"⟩ p).permission? profile.name n).isSome,
        decide (∀ c ∈ p.root.nodes, c.kind ≠ .comment))) = some ([true], true) := by
      decide +kernel
    obtain ⟨p, hp, hparts⟩ := Option.map_eq_some_iff.1 hparts
    obtain ⟨hcalls, hcomments⟩ := Prod.mk.inj hparts
    obtain ⟨n, hcalls, hpermission⟩ := List.map_eq_singleton_iff.1 hcalls
    exact ⟨p, n, hp, by simp [hcalls], suppressed_iff_isSome.2 hpermission,
      of_decide_eq_true hcomments⟩
  · have hparts : (Program.parse? hidden).map (fun p =>
        (p.calls.map fun n =>
          (n.line, ((Subject.of ⟨"/p/m.js"⟩ ⟨"/p"⟩ p).permission? profile.name n).isSome),
        (p.root.nodes.filter (·.kind = .comment)).map fun n => (n.line, n.text))) =
        some ([(1, false)], [(1, "// amd-lint: allow(all) reason=\"x\"")]) := by
      decide +kernel
    obtain ⟨p, hp, hparts⟩ := Option.map_eq_some_iff.1 hparts
    obtain ⟨hcalls, hcomments⟩ := Prod.mk.inj hparts
    obtain ⟨n, hcalls, heq⟩ := List.map_eq_singleton_iff.1 hcalls
    obtain ⟨hn, hpermission⟩ := Prod.mk.inj heq
    obtain ⟨c, hc, hkind, hline, htext⟩ := exists_comment_of_map_eq hcomments
    refine ⟨p, n, c, hp, by simp [hcalls], ?_, hc, by rw [hline, hn], hkind,
      " allow(all) reason=\"x\"".toList, ["all"], ?_, ?_, .inr (by decide)⟩
    · rw [suppressed_iff_isSome, hpermission]
      decide
    · rw [htext]
      decide
    · exact ⟨[' '], "all".toList, " reason=\"x\"".toList, by decide,
        List.forall_mem_singleton.2 (by decide), by decide, by decide, by decide⟩

end Request

end LoaderLint
