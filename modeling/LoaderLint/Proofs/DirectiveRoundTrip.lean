import LoaderLint.Proofs.CommentDirectives

/-!
# Directives as they are written and read

A line holds a directive if its first keyword stands behind the opener of a comment and before
`allow(`, a body and `)`. The body gives the rules, by its entries between commas, and what stands
behind `)` gives the reason. This is all there is to a line: `Directive.parse?_eq_some_iff` says
which directive is read, so lines can be compared by their parts.

The module introduces:

* `Directive.Holds` — a line with the body and the tail of its directive;
* `Directive.HasEntry` — the entries of a body;
* `Directive.IsName`, `Directive.Pads`, `Directive.WrittenAs` — the names that can be listed, a
  name with blanks around it, and the lines that list names and give a reason.

The end of a comment behind a directive has neither `)` nor quotes, so `Directive.parse?_append`
applies to it. The main result is `Directive.parse?_iff_holds`.
-/

namespace LoaderLint

namespace Text

/-- Nothing is left of a text exactly if it is all blanks. -/
theorem trim_eq_nil_iff {cs : List Char} : trim cs = [] ↔ ∀ c ∈ cs, isWhite c = true := by
  constructor
  · intro h c hc
    obtain ⟨front, back, hcs, hfront, hback⟩ := exists_eq_trim cs
    rw [hcs, h, List.nil_append, List.mem_append] at hc
    rcases hc with hc | hc
    · exact hfront c hc
    · exact hback c hc
  · intro h
    rw [← List.append_nil cs, trim_append h]
    rfl

/-- Blanks around a text that neither begins nor ends with one are trimmed away. -/
theorem trim_padded {front back cs : List Char} (hfront : ∀ c ∈ front, isWhite c = true)
    (hback : ∀ c ∈ back, isWhite c = true) (hne : cs ≠ [])
    (hhead : ∀ c ∈ cs.head?, isWhite c = false) (hlast : ∀ c ∈ cs.getLast?, isWhite c = false) :
    trim (front ++ (cs ++ back)) = cs := by
  have hstart : trimStart (cs ++ back) = cs ++ back := by
    obtain ⟨c, rest, rfl⟩ := List.exists_cons_of_ne_nil hne
    simp [trimStart, hhead c rfl]
  have hend : trimEnd (cs ++ back) = cs := by
    -- the last character of the text stops the trimming at the end
    obtain ⟨start, c, rfl⟩ := List.eq_nil_or_concat cs |>.resolve_left hne
    have hc : isWhite c = false := hlast c (by simp)
    rw [List.concat_eq_append, List.append_assoc, List.singleton_append, trimEnd_append_cons hc,
      trimEnd_eq_nil hback]
  rw [trim_append hfront, trim, hstart, hend]

end Text

namespace Directive

/-! ## The parts of a line -/

/-- The first keyword of the line stands behind the opener of a comment, and before `allow(`, the
body and `)`, with the tail behind them. Blanks on both sides of the keyword do not count. -/
def Holds (line body tail : List Char) : Prop :=
  ∃ code opener gap blanks, opener ∈ openers ∧ (∀ c ∈ gap, Text.isWhite c = true) ∧
    (∀ c ∈ blanks, Text.isWhite c = true) ∧ ')' ∉ body ∧
    Text.IsFirst keyword line (code ++ (opener ++ gap))
      (blanks ++ ("allow(".toList ++ (body ++ ')' :: tail)))

section

variable {line body tail : List Char}

/-- A line holds at most one body and one tail. -/
theorem Holds.unique {body' tail' : List Char} (h : Holds line body tail)
    (h' : Holds line body' tail') : body = body' ∧ tail = tail' := by
  obtain ⟨code, opener, gap, blanks, -, -, hblanks, hparen, hfirst⟩ := h
  obtain ⟨code', opener', gap', blanks', -, -, hblanks', hparen', hfirst'⟩ := h'
  have hcut := Text.cutAt?_eq_some_iff.2 hfirst
  rw [Text.cutAt?_eq_some_iff.2 hfirst', Option.some.injEq, Prod.mk.injEq] at hcut
  -- without the blanks, both texts begin with the same word
  have hlist := congrArg Text.trimStart hcut.2
  rw [Text.trimStart_append hblanks', Text.trimStart_append hblanks] at hlist
  have hbodies : body' ++ ')' :: tail' = body ++ ')' :: tail := by
    change "allow(".toList ++ (body' ++ ')' :: tail') = "allow(".toList ++ (body ++ ')' :: tail)
      at hlist
    exact List.append_cancel_left hlist
  -- the body ends at the first parenthesis
  have hclose {text : List Char} (htext : ')' ∉ text) (rest : List Char) :
      Text.cutAt? [')'] (text ++ ')' :: rest) = some (text, rest) := by
    refine Text.cutAt?_apart (by simp) (fun c hc hmem => htext ?_) rest
    rwa [← List.mem_singleton.1 hmem]
  have hcuts := hclose hparen tail
  rw [← hbodies, hclose hparen' tail', Option.some.injEq, Prod.mk.injEq] at hcuts
  exact ⟨hcuts.1.symm, hcuts.2.symm⟩

/-- What is added behind a line without `)` is added to the tail. -/
theorem holds_append_iff {extra : List Char} (hextra : ')' ∉ extra) :
    Holds (line ++ extra) body tail ↔ ∃ rest, tail = rest ++ extra ∧ Holds line body rest := by
  constructor
  · rintro ⟨code, opener, gap, blanks, hopener, hgap, hblanks, hparen, hfirst⟩
    have hsplit : line ++ extra =
        (code ++ (opener ++ gap) ++ (keyword ++ (blanks ++ ("allow(".toList ++ body)))) ++
          ')' :: tail := by
      rw [hfirst.1]
      simp
    -- the list ends before the added text, so the keyword does too
    obtain ⟨rest, -, rfl⟩ := Text.exists_of_append_eq hextra hsplit
    refine ⟨rest, rfl, code, opener, gap, blanks, hopener, hgap, hblanks, hparen, ?_⟩
    refine (@Text.isFirst_append_iff _ _ _ _ extra).1 ?_
    simpa using hfirst
  · rintro ⟨rest, rfl, code, opener, gap, blanks, hopener, hgap, hblanks, hparen, hfirst⟩
    refine ⟨code, opener, gap, blanks, hopener, hgap, hblanks, hparen, ?_⟩
    simpa using (@Text.isFirst_append_iff _ _ _ _ extra).2 hfirst

/-! ## The directive of a line -/

/-- The directive of a line is read from the body and the tail that the line holds. -/
theorem parse?_eq_some_iff {d : Directive} :
    parse? line = some d ↔
      ∃ body tail, Holds line body tail ∧ entries body ≠ [] ∧
        d = ⟨entries body, reasonIn? tail⟩ := by
  constructor
  · intro h
    obtain ⟨⟨before, behind⟩, hcut, hopened⟩ := Option.bind_eq_some_iff.1 h
    have hopens : opensComment before = true := by
      by_contra hclosed
      simp [hclosed] at hopened
    obtain ⟨blanks, body, tail, rfl, hblanks, hparen, hrules, hne⟩ :=
      (exists_parse?_iff hcut hopens).1 ⟨d, h, rfl⟩
    rw [← hrules] at hne
    obtain ⟨code, opener, gap, hbefore, hopener, hgap⟩ := opensComment_iff_exists.1 hopens
    refine ⟨body, tail, ⟨code, opener, gap, blanks, hopener, hgap, hblanks, hparen, ?_⟩, hne, ?_⟩
    · rw [← hbefore]
      exact Text.cutAt?_eq_some_iff.1 hcut
    · rw [parse?_of_list hcut hopens hblanks hparen hne, Option.some.injEq] at h
      exact h.symm
  · rintro ⟨body, tail, hholds, hne, rfl⟩
    obtain ⟨code, opener, gap, blanks, hopener, hgap, hblanks, hparen, hfirst⟩ := hholds
    exact parse?_of_list (Text.cutAt?_eq_some_iff.2 hfirst) (opensComment_append hopener hgap code)
      hblanks hparen hne

/-- A line that holds a directive has the one that its body and its tail give. -/
theorem Holds.eq_of_parse? {d : Directive} (h : Holds line body tail) (hd : parse? line = some d) :
    d = ⟨entries body, reasonIn? tail⟩ := by
  obtain ⟨body', tail', h', -, rfl⟩ := parse?_eq_some_iff.1 hd
  obtain ⟨rfl, rfl⟩ := h.unique h'
  rfl

/-- What has neither `)` nor quotes makes no difference behind a line. -/
theorem parse?_append {extra : List Char} (hparen : ')' ∉ extra) (hquote : '"' ∉ extra)
    (line : List Char) : parse? (line ++ extra) = parse? line := by
  apply Option.ext
  intro d
  rw [parse?_eq_some_iff, parse?_eq_some_iff]
  constructor
  · rintro ⟨body, tail, hholds, hne, rfl⟩
    obtain ⟨rest, rfl, hholds'⟩ := (holds_append_iff hparen).1 hholds
    exact ⟨body, rest, hholds', hne, by rw [reasonIn?_append hquote]⟩
  · rintro ⟨body, tail, hholds, hne, rfl⟩
    exact ⟨body, tail ++ extra, (holds_append_iff hparen).2 ⟨tail, rfl, hholds⟩, hne,
      by rw [reasonIn?_append hquote]⟩

/-! ## Entries -/

/-- The rule is an entry of the body, blanks around it aside. -/
def HasEntry (body : List Char) (rule : String) : Prop :=
  rule ≠ "" ∧ ∃ entry ∈ List.splitOn ',' body, Text.trim entry = rule.toList

/-- The rules of a body are its entries. -/
theorem mem_entries_iff {rule : String} : rule ∈ entries body ↔ HasEntry body rule := by
  simp only [entries, List.mem_map, List.mem_filter, HasEntry]
  constructor
  · rintro ⟨text, ⟨⟨entry, hentry, htrim⟩, hne⟩, rfl⟩
    exact ⟨by simpa using hne, entry, hentry, by rw [htrim, String.toList_ofList]⟩
  · rintro ⟨hne, entry, hentry, htrim⟩
    exact ⟨rule.toList, ⟨⟨entry, hentry, htrim⟩, by simpa using hne⟩, String.ofList_toList⟩

/-- There are entries exactly if something between commas is not blank. -/
theorem entries_ne_nil_iff :
    entries body ≠ [] ↔ ∃ entry ∈ List.splitOn ',' body, ∃ c ∈ entry, Text.isWhite c = false := by
  have hblank (entry : List Char) :
      (!(Text.trim entry).isEmpty) = true ↔ ∃ c ∈ entry, Text.isWhite c = false := by
    rw [Bool.not_eq_true', ← Bool.not_eq_true, List.isEmpty_iff, Text.trim_eq_nil_iff]
    simp
  rw [entries, ne_eq, List.map_eq_nil_iff, List.filter_eq_nil_iff]
  simp only [List.forall_mem_map, hblank]
  simp

/-- Lines whose bodies have the same entries have directives about the same rules, or both have
none. -/
theorem Holds.rel_parse? {line' body' tail' : List Char} (h : Holds line body tail)
    (h' : Holds line' body' tail') (hentries : ∀ rule, HasEntry body rule ↔ HasEntry body' rule) :
    Option.Rel (fun d d' : Directive => ∀ rule, rule ∈ d.rules ↔ rule ∈ d'.rules) (parse? line)
      (parse? line') := by
  have hsame (rule : String) : rule ∈ entries body ↔ rule ∈ entries body' := by
    rw [mem_entries_iff, mem_entries_iff, hentries rule]
  have hsome : entries body ≠ [] ↔ entries body' ≠ [] := by
    rw [ne_eq, ne_eq, List.eq_nil_iff_forall_not_mem, List.eq_nil_iff_forall_not_mem]
    exact not_congr (forall_congr' fun rule => not_congr (hsame rule))
  have hnone {line body tail : List Char} (h : Holds line body tail) (hnil : ¬entries body ≠ []) :
      parse? line = none := by
    refine Option.eq_none_iff_forall_ne_some.2 fun d hd => ?_
    obtain ⟨body', tail', hholds, hne, -⟩ := parse?_eq_some_iff.1 hd
    exact hnil ((h.unique hholds).1 ▸ hne)
  by_cases hne : entries body ≠ []
  · rw [parse?_eq_some_iff.2 ⟨body, tail, h, hne, rfl⟩,
      parse?_eq_some_iff.2 ⟨body', tail', h', hsome.1 hne, rfl⟩]
    exact .some hsame
  · rw [hnone h hne, hnone h' (mt hsome.2 hne)]
    exact .none

end

/-! ## Writing directives -/

/-- A text that can be listed: not empty, without `,` and `)`, and without blanks at its ends. -/
structure IsName (name : String) : Prop where
  /-- It is not empty. -/
  ne_empty : name ≠ ""
  /-- It does not go on behind the entry. -/
  comma_not_mem : ',' ∉ name.toList
  /-- It does not go on behind the list. -/
  paren_not_mem : ')' ∉ name.toList
  /-- It does not begin with a blank. -/
  head_black : ∀ c ∈ name.toList.head?, Text.isWhite c = false
  /-- It does not end with a blank. -/
  last_black : ∀ c ∈ name.toList.getLast?, Text.isWhite c = false

/-- The text is the name with blanks around it. -/
def Pads (name : String) (piece : List Char) : Prop :=
  IsName name ∧ ∃ front back, piece = front ++ (name.toList ++ back) ∧
    (∀ c ∈ front, Text.isWhite c = true) ∧ ∀ c ∈ back, Text.isWhite c = true

/-- The line is code without the keyword, the opener of a comment, the keyword, a list of the
names, and the reason. Blanks may stand around the keyword and around names, before `reason=` and
behind it, and anything may stand behind the reason. -/
def WrittenAs (names : List String) (reason : String) (line : List Char) : Prop :=
  ∃ code opener gap blanks pieces tail,
    line = code ++ (opener ++ gap ++ (keyword ++ (blanks ++
      ("allow(".toList ++ (List.intercalate [','] pieces ++ ')' :: tail))))) ∧
    ¬keyword <:+: code ∧ opener ∈ openers ∧ (∀ c ∈ gap, Text.isWhite c = true) ∧
    (∀ c ∈ blanks, Text.isWhite c = true) ∧ List.Forall₂ Pads names pieces ∧ Explains tail reason

section

variable {name : String} {piece : List Char} {names : List String} {pieces : List (List Char)}

/-- Trimming gives a name back. -/
theorem Pads.trim_eq (h : Pads name piece) : Text.trim piece = name.toList := by
  obtain ⟨hname, front, back, rfl, hfront, hback⟩ := h
  exact Text.trim_padded hfront hback (by simpa using hname.ne_empty) hname.head_black
    hname.last_black

/-- Blanks around a name add neither commas nor parentheses to it. -/
theorem Pads.not_mem (h : Pads name piece) {c : Char} (hname : c ∉ name.toList)
    (hc : Text.isWhite c = false) : c ∉ piece := by
  obtain ⟨-, front, back, rfl, hfront, hback⟩ := h
  have hwhite {blanks : List Char} (hblanks : ∀ c ∈ blanks, Text.isWhite c = true) : c ∉ blanks :=
    fun hmem => by simp [hblanks c hmem] at hc
  simp [hwhite hfront, hwhite hback, hname]

/-- Each of the pieces pads a name. -/
theorem exists_pads (h : List.Forall₂ Pads names pieces) :
    ∀ piece ∈ pieces, ∃ name, Pads name piece := by
  induction h with
  | nil => exact List.forall_mem_nil _
  | cons hpads _ ih => exact List.forall_mem_cons.2 ⟨⟨_, hpads⟩, ih⟩

/-- A character that is in no piece and is not the separator is not in their list. -/
theorem not_mem_intercalate {c separator : Char} (hc : c ≠ separator)
    (h : ∀ piece ∈ pieces, c ∉ piece) : c ∉ [separator].intercalate pieces := by
  induction pieces with
  | nil => exact List.not_mem_nil
  | cons piece pieces ih =>
    rw [List.forall_mem_cons] at h
    cases pieces with
    | nil => simpa using h.1
    | cons next pieces => simp [List.intercalate_cons_cons, h.1, hc, ih h.2]

/-- Of a list of names nothing is lost, not even their order and repetition. -/
theorem entries_intercalate (hne : names ≠ []) (h : List.Forall₂ Pads names pieces) :
    entries (List.intercalate [','] pieces) = names := by
  have hpieces : pieces ≠ [] := by
    rintro rfl
    exact hne (List.forall₂_nil_right_iff.1 h)
  have hcomma : ∀ piece ∈ pieces, ',' ∉ piece := fun piece hpiece => by
    obtain ⟨name, hpads⟩ := exists_pads h piece hpiece
    exact hpads.not_mem hpads.1.comma_not_mem (by decide)
  rw [entries, List.splitOn_intercalate ',' hcomma hpieces]
  -- from here on name and piece go side by side, and there need not be any
  clear hne hpieces hcomma
  induction h with
  | nil => rfl
  | @cons name piece names pieces hpads _ ih =>
    have hname : name.toList ≠ [] := by simpa using hpads.1.ne_empty
    rw [List.map_cons, hpads.trim_eq, List.filter_cons_of_pos (by simpa using hname),
      List.map_cons, ih, String.ofList_toList]

/-- What is written is read again. -/
theorem WrittenAs.parse?_eq {reason : String} {line : List Char} (h : WrittenAs names reason line)
    (hne : names ≠ []) : parse? line = some ⟨names, some reason⟩ := by
  obtain ⟨code, opener, gap, blanks, pieces, tail, rfl, hcode, hopener, hgap, hblanks, hpieces,
    hreason⟩ := h
  have hentries := entries_intercalate hne hpieces
  have hparen : ∀ piece ∈ pieces, ')' ∉ piece := fun piece hpiece => by
    obtain ⟨name, hpads⟩ := exists_pads hpieces piece hpiece
    exact hpads.not_mem hpads.1.paren_not_mem (by decide)
  obtain ⟨hgapne, hapart⟩ := apart_keyword hopener hgap
  refine parse?_eq_some_iff.2 ⟨List.intercalate [','] pieces, tail,
    ⟨code, opener, gap, blanks, hopener, hgap, hblanks, not_mem_intercalate (by decide) hparen,
    ?_⟩, by rwa [hentries], ?_⟩
  · exact Text.cutAt?_eq_some_iff.1 (Text.cutAt?_append_apart hcode hgapne hapart _)
  · rw [hentries, reasonIn?_eq_some_iff.2 hreason]

end

example : parse? "f(); /** amd-lint: allow( b , a,b) reason= \"c\" d */".toList =
    some ⟨["b", "a", "b"], some "c"⟩ := by
  decide +kernel

/-- A line has a directive exactly if its first keyword stands behind the opener of a comment and
is followed by a list in which something is not blank. The rules are the entries of the list, so
lists with the same entries are about the same rules. The reason is the text in quotes behind
`reason=`, if it directly follows the list, blanks aside. The end of a comment behind the line
makes no difference. Whatever names and reason are written, they are read again. -/
theorem parse?_iff_holds (line : List Char) :
    ((parse? line).isSome = true ↔ ∃ body tail, Holds line body tail ∧
      ∃ entry ∈ List.splitOn ',' body, ∃ c ∈ entry, Text.isWhite c = false) ∧
    (∀ d body tail, parse? line = some d → Holds line body tail →
      (∀ rule, rule ∈ d.rules ↔ HasEntry body rule) ∧
      ∀ reason, d.reason = some reason ↔ Explains tail reason) ∧
    (∀ line' body body' tail tail', Holds line body tail → Holds line' body' tail' →
      (∀ rule, HasEntry body rule ↔ HasEntry body' rule) →
      Option.Rel (fun d d' : Directive => ∀ rule, rule ∈ d.rules ↔ rule ∈ d'.rules) (parse? line)
        (parse? line')) ∧
    parse? (line ++ " */".toList) = parse? line ∧
    ∀ names reason, names ≠ [] → WrittenAs names reason line →
      parse? line = some ⟨names, some reason⟩ := by
  refine ⟨?_, ?_, fun line' body body' tail tail' h h' => h.rel_parse? h',
    parse?_append (by decide) (by decide) line, fun names reason hne h => h.parse?_eq hne⟩
  · rw [Option.isSome_iff_exists]
    constructor
    · rintro ⟨d, hd⟩
      obtain ⟨body, tail, hholds, hne, -⟩ := parse?_eq_some_iff.1 hd
      exact ⟨body, tail, hholds, entries_ne_nil_iff.1 hne⟩
    · rintro ⟨body, tail, hholds, hentry⟩
      exact ⟨_, parse?_eq_some_iff.2 ⟨body, tail, hholds, entries_ne_nil_iff.2 hentry, rfl⟩⟩
  · intro d body tail hd hholds
    rw [hholds.eq_of_parse? hd]
    exact ⟨fun rule => mem_entries_iff, fun reason => reasonIn?_eq_some_iff⟩

end Directive

end LoaderLint
