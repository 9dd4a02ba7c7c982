import LoaderLint.Directive
import LoaderLint.Proofs.TextLines
import Mathlib.Data.List.TakeWhile

/-!
# What a directive looks like

The grammar of the list that follows the keyword of a directive, said by concatenation: blanks,
`allow(`, a body without `)`, and `)`. What stands behind the list makes no difference to the
rules. It gives the reason, which is in quotes behind `reason=`.

The module introduces:

* `Directive.Opens`, `Directive.Allows` — a list that begins, and a list with its rules;
* `Directive.Explains` — the text behind a list that gives a reason.

`Directive.exists_parse?_iff` says that a line has a directive with these rules exactly if such a
list follows the first keyword of the line, and `Directive.parse?_of_list` which directive it is.
-/

namespace LoaderLint

namespace Text

variable {blanks : List Char}

/-! ## Blanks -/

/-- Blanks in front are trimmed away. -/
theorem trimStart_append (h : ∀ c ∈ blanks, isWhite c = true) (cs : List Char) :
    trimStart (blanks ++ cs) = trimStart cs := List.dropWhile_append_of_pos h

/-- Nothing behind a character that is no blank is trimmed at the start. -/
theorem trimStart_append_cons {c : Char} (hc : isWhite c = false) (a b : List Char) :
    trimStart (a ++ c :: b) = trimStart a ++ c :: b := by
  induction a with
  | nil => simp [trimStart, hc]
  | cons x a ih =>
    simp only [trimStart, List.cons_append, List.dropWhile_cons] at ih ⊢
    split
    · exact ih
    · rfl

/-- Nothing before a character that is no blank is trimmed at the end. -/
theorem trimEnd_append_cons {c : Char} (hc : isWhite c = false) (a b : List Char) :
    trimEnd (a ++ c :: b) = a ++ c :: trimEnd b := by
  -- read backwards, the end is the start
  have hback := trimStart_append_cons hc b.reverse a.reverse
  rw [trimStart, trimStart] at hback
  simp [trimEnd, hback]

/-- Nothing is left of blanks. -/
theorem trimEnd_eq_nil (h : ∀ c ∈ blanks, isWhite c = true) : trimEnd blanks = [] := by
  simpa [trimEnd] using h

/-- Blanks in front make no difference to a trimmed text. -/
theorem trim_append (h : ∀ c ∈ blanks, isWhite c = true) (cs : List Char) :
    trim (blanks ++ cs) = trim cs := by
  rw [trim, trim, trimStart_append h]

/-- The blanks that trimming takes away. -/
theorem exists_eq_trimStart (cs : List Char) :
    ∃ front, cs = front ++ trimStart cs ∧ ∀ c ∈ front, isWhite c = true :=
  ⟨cs.takeWhile isWhite, List.takeWhile_append_dropWhile.symm, fun _ => List.mem_takeWhile_imp⟩

/-- The blanks that trimming at the end takes away. -/
theorem exists_eq_trimEnd (cs : List Char) :
    ∃ back, cs = trimEnd cs ++ back ∧ ∀ c ∈ back, isWhite c = true := by
  refine ⟨(cs.reverse.takeWhile isWhite).reverse, ?_, fun c hc => ?_⟩
  · rw [trimEnd, ← List.reverse_append, List.takeWhile_append_dropWhile, List.reverse_reverse]
  · exact List.mem_takeWhile_imp (List.mem_reverse.1 hc)

/-- The blanks that trimming takes away on both sides. -/
theorem exists_eq_trim (cs : List Char) :
    ∃ front back, cs = front ++ (trim cs ++ back) ∧ (∀ c ∈ front, isWhite c = true) ∧
      ∀ c ∈ back, isWhite c = true := by
  obtain ⟨front, hfront, hwhite⟩ := exists_eq_trimStart cs
  obtain ⟨back, hback, hwhite'⟩ := exists_eq_trimEnd (trimStart cs)
  exact ⟨front, back, by rw [trim, ← hback, ← hfront], hwhite, hwhite'⟩

/-- A text between two characters that are no blanks keeps both ends. -/
theorem trim_append_cons {x c : Char} (hx : isWhite x = false) (hc : isWhite c = false)
    (h : ∀ c ∈ blanks, isWhite c = true) (a b : List Char) :
    trim (blanks ++ x :: (a ++ c :: b)) = x :: (a ++ c :: trimEnd b) := by
  have hstart : trimStart (x :: (a ++ c :: b)) = x :: (a ++ c :: b) := by simp [trimStart, hx]
  rw [trim_append h, trim, hstart, ← List.cons_append, trimEnd_append_cons hc, List.cons_append]

end Text

namespace Directive

/-! ## Lists of rules -/

/-- A list of rules begins, blanks aside. -/
def Opens (text : List Char) : Prop :=
  ∃ blanks list, text = blanks ++ ("allow(".toList ++ list) ∧ ∀ c ∈ blanks, Text.isWhite c = true

/-- A list of rules stands at the start of the text, blanks aside. -/
def Allows (text : List Char) (rules : List String) : Prop :=
  ∃ blanks body tail, text = blanks ++ ("allow(".toList ++ (body ++ ')' :: tail)) ∧
    (∀ c ∈ blanks, Text.isWhite c = true) ∧ ')' ∉ body ∧ entries body = rules ∧ rules ≠ []

/-- A list with rules begins as lists do. -/
theorem Allows.opens {text : List Char} {rules : List String} (h : Allows text rules) :
    Opens text := by
  obtain ⟨blanks, body, tail, htext, hblanks, -⟩ := h
  exact ⟨blanks, body ++ ')' :: tail, htext, hblanks⟩

instance (text : List Char) : Decidable (Opens text) :=
  decidable_of_iff ((Text.dropStart? "allow(".toList (Text.trimStart text)).isSome = true) <| by
    rw [Option.isSome_iff_exists]
    simp only [Text.dropStart?_eq_some_iff]
    constructor
    · rintro ⟨list, hlist⟩
      obtain ⟨blanks, htext, hblanks⟩ := Text.exists_eq_trimStart text
      exact ⟨blanks, list, hlist ▸ htext, hblanks⟩
    · rintro ⟨blanks, list, rfl, hblanks⟩
      exact ⟨list, Text.trimStart_append hblanks _⟩

/-- Blanks before the first entry make no difference. -/
theorem entries_append {blanks : List Char} (h : ∀ c ∈ blanks, Text.isWhite c = true)
    (body : List Char) : entries (blanks ++ body) = entries body := by
  have hcomma : ',' ∉ blanks := fun hmem => absurd (h ',' hmem) (by decide)
  -- the blanks belong to the first piece, which is trimmed
  obtain ⟨piece, pieces, hbody, hsplit⟩ := Text.splitOn_append hcomma body
  simp only [entries, hbody, hsplit, List.map_cons, Text.trim_append h]

/-- What stands behind the first `)` makes no difference to a list. -/
theorem Allows.replace_tail {front tail tail' : List Char} {rules : List String}
    (h : Allows (front ++ ')' :: tail) rules) : Allows (front ++ ')' :: tail') rules := by
  obtain ⟨blanks, body, rest, htext, hblanks, hbody, hrules, hne⟩ := h
  have hparen : ')' ∉ blanks ++ ("allow(".toList ++ body) := by
    have hwhite : ')' ∉ blanks := fun hmem => absurd (hblanks ')' hmem) (by decide)
    simp [hwhite, hbody]
  have hlist : front ++ ')' :: tail = (blanks ++ ("allow(".toList ++ body)) ++ ')' :: rest := by
    simpa using htext
  rcases List.append_eq_append_iff.1 hlist with
    ⟨middle, hfront, hmiddle⟩ | ⟨middle, hfront, hmiddle⟩
  · -- the first `)` cannot stand before the end of the list
    cases middle with
    | nil =>
      rw [List.append_nil] at hfront
      exact ⟨blanks, body, tail', by simp [← hfront], hblanks, hbody, hrules, hne⟩
    | cons m middle =>
      obtain ⟨rfl, -⟩ := List.cons.inj hmiddle
      rw [hfront] at hparen
      exact absurd (by simp) hparen
  · cases middle with
    | nil =>
      rw [List.append_nil] at hfront
      exact ⟨blanks, body, tail', by simp [hfront], hblanks, hbody, hrules, hne⟩
    | cons m middle =>
      obtain ⟨rfl, -⟩ := List.cons.inj hmiddle
      exact ⟨blanks, body, middle ++ ')' :: tail', by simp [hfront], hblanks, hbody, hrules, hne⟩

/-! ## Reasons -/

/-- The text behind a list gives the reason: blanks, `reason=`, blanks, and the reason in quotes,
behind which anything may stand. -/
def Explains (tail : List Char) (reason : String) : Prop :=
  ∃ blanks gap rest,
    tail = blanks ++ ("reason=".toList ++ (gap ++ '"' :: (reason.toList ++ '"' :: rest))) ∧
      (∀ c ∈ blanks, Text.isWhite c = true) ∧ (∀ c ∈ gap, Text.isWhite c = true) ∧
      '"' ∉ reason.toList

/-- The reason is read from the texts that give it. -/
theorem reasonIn?_eq_some_iff {tail : List Char} {reason : String} :
    reasonIn? tail = some reason ↔ Explains tail reason := by
  simp only [reasonIn?, Option.bind_eq_bind, Option.bind_eq_some_iff, Text.dropStart?_eq_some_iff]
  constructor
  · rintro ⟨value, hvalue, quoted, hquoted, ⟨text, rest⟩, hcut, hreason⟩
    cases hreason
    obtain ⟨rfl, hquote⟩ := Text.eq_append_of_cutAt? hcut
    -- what was trimmed away is put back before `reason=` and before the quote
    obtain ⟨blanks, last, htail, hblanks, -⟩ := Text.exists_eq_trim tail
    obtain ⟨gap, last', hgap, hwhite, -⟩ := Text.exists_eq_trim value
    refine ⟨blanks, gap, rest ++ (last' ++ last), ?_, hblanks, hwhite, by simpa using hquote⟩
    rw [htail, hvalue, hgap, hquoted]
    simp
  · rintro ⟨blanks, gap, rest, rfl, hblanks, hgap, hquote⟩
    have hwhite : Text.isWhite '"' = false := by decide
    have htail : Text.trim (blanks ++ ("reason=".toList ++
        (gap ++ '"' :: (reason.toList ++ '"' :: rest)))) =
        "reason=".toList ++ (gap ++ '"' :: (reason.toList ++ '"' :: Text.trimEnd rest)) := by
      have hletter : Text.isWhite 'r' = false := by decide
      simpa using Text.trim_append_cons hletter hwhite hblanks
        ("eason=".toList ++ (gap ++ '"' :: reason.toList)) rest
    refine ⟨_, htail, reason.toList ++ '"' :: Text.trimEnd (Text.trimEnd rest), ?_,
      (reason.toList, Text.trimEnd (Text.trimEnd rest)), ?_, by simp⟩
    · exact Text.trim_append_cons hwhite hwhite hgap reason.toList (Text.trimEnd rest)
    · refine Text.cutAt?_apart (by simp) (fun c hc hmem => hquote ?_) _
      rwa [← List.mem_singleton.1 hmem]

/-- What has no quotes and is added behind a list gives no reason and takes none away. -/
theorem reasonIn?_append {extra : List Char} (h : '"' ∉ extra) (tail : List Char) :
    reasonIn? (tail ++ extra) = reasonIn? tail := by
  apply Option.ext
  intro reason
  rw [reasonIn?_eq_some_iff, reasonIn?_eq_some_iff]
  constructor
  · rintro ⟨blanks, gap, rest, htail, hblanks, hgap, hquote⟩
    -- the closing quote is not in the added text
    have hsplit : tail ++ extra =
        (blanks ++ ("reason=".toList ++ (gap ++ '"' :: reason.toList))) ++ '"' :: rest := by
      rw [htail]
      simp
    obtain ⟨rest', rfl, -⟩ := Text.exists_of_append_eq h hsplit
    exact ⟨blanks, gap, rest', by simp, hblanks, hgap, hquote⟩
  · rintro ⟨blanks, gap, rest, rfl, hblanks, hgap, hquote⟩
    exact ⟨blanks, gap, rest ++ extra, by simp, hblanks, hgap, hquote⟩

/-! ## The directive of a line -/

/-- The trimmed text is a part of what follows the keyword. Before it there are blanks, behind it
blanks and the end of a comment. -/
theorem exists_eq_clause (behind : List Char) :
    ∃ front back, behind = front ++ (clause behind ++ back) ∧
      (∀ c ∈ front, Text.isWhite c = true) ∧
      ∀ c ∈ back, Text.isWhite c = true ∨ c ∈ "*/".toList := by
  obtain ⟨front, back, hbehind, hfront, hback⟩ := Text.exists_eq_trim behind
  have hcut : ∃ cut, Text.trim behind =
      (Text.dropEnd? "*/".toList (Text.trim behind)).getD (Text.trim behind) ++ cut ∧
        ∀ c ∈ cut, c ∈ "*/".toList := by
    cases hend : Text.dropEnd? "*/".toList (Text.trim behind) with
    | none => exact ⟨[], (List.append_nil _).symm, List.forall_mem_nil _⟩
    | some kept => exact ⟨"*/".toList, Text.dropEnd?_eq_some_iff.1 hend, fun _ hc => hc⟩
  obtain ⟨cut, hcut, hmarks⟩ := hcut
  obtain ⟨last, hlast, hwhite⟩ := Text.exists_eq_trimEnd
    ((Text.dropEnd? "*/".toList (Text.trim behind)).getD (Text.trim behind))
  refine ⟨front, last ++ (cut ++ back), ?_, hfront, fun c hc => ?_⟩
  · rw [clause, ← List.append_assoc (Text.trimEnd _), ← hlast, ← List.append_assoc _ cut, ← hcut,
      ← hbehind]
  · rcases List.mem_append.1 hc with hc | hc
    · exact .inl (hwhite c hc)
    · rcases List.mem_append.1 hc with hc | hc
      · exact .inr (hmarks c hc)
      · exact .inl (hback c hc)

/-- Trimming keeps a list up to its end, and takes blanks and the end of a comment from what stands
behind it. -/
theorem exists_clause {blanks : List Char} (h : ∀ c ∈ blanks, Text.isWhite c = true)
    (body tail : List Char) :
    ∃ rest back, clause (blanks ++ ("allow(".toList ++ (body ++ ')' :: tail))) =
      "allow(".toList ++ (body ++ ')' :: rest) ∧ tail = rest ++ back ∧
        ∀ c ∈ back, Text.isWhite c = true ∨ c ∈ "*/".toList := by
  have hstart (text : List Char) : Text.trimStart ("allow(".toList ++ text) =
      "allow(".toList ++ text := rfl
  have hparen : Text.isWhite ')' = false := by decide
  have hend : ')' ∉ "*/".toList := by decide
  obtain ⟨rest, hrest⟩ :=
    Text.dropEnd?_append hend ("allow(".toList ++ body) (Text.trimEnd tail)
  have hclause : clause (blanks ++ ("allow(".toList ++ (body ++ ')' :: tail))) =
      "allow(".toList ++ (body ++ ')' :: Text.trimEnd rest) := by
    rw [clause, Text.trim_append h, Text.trim, hstart, ← List.append_assoc,
      Text.trimEnd_append_cons hparen, hrest, Text.trimEnd_append_cons hparen, List.append_assoc]
  obtain ⟨front, back, hbehind, hfront, hback⟩ :=
    exists_eq_clause (blanks ++ ("allow(".toList ++ (body ++ ')' :: tail)))
  refine ⟨Text.trimEnd rest, back, hclause, ?_, hback⟩
  -- without the blanks before it, the text is the list with what was taken away behind it
  rw [hclause] at hbehind
  have hsame := congrArg Text.trimStart hbehind
  rw [Text.trimStart_append h, Text.trimStart_append hfront, List.append_assoc, hstart, hstart]
    at hsame
  simpa using hsame

/-- The directive of a line whose first keyword stands behind an opener and before a list of
rules. -/
theorem parse?_of_list {line before blanks body tail : List Char}
    (hcut : Text.cutAt? keyword line =
      some (before, blanks ++ ("allow(".toList ++ (body ++ ')' :: tail))))
    (hopens : opensComment before = true) (hblanks : ∀ c ∈ blanks, Text.isWhite c = true)
    (hparen : ')' ∉ body) (hne : entries body ≠ []) :
    parse? line = some ⟨entries body, reasonIn? tail⟩ := by
  -- trimming changes the body at its start only, and the tail
  obtain ⟨rest, back, hclause, htail, hback⟩ := exists_clause hblanks body tail
  obtain ⟨front, hbody, hfront⟩ := Text.exists_eq_trimStart body
  obtain ⟨last, hlast, hwhite⟩ := Text.exists_eq_trimEnd rest
  have hblack : Text.isWhite ')' = false := by decide
  have htrim : Text.trim (body ++ ')' :: rest) =
      Text.trimStart body ++ ')' :: Text.trimEnd rest := by
    rw [Text.trim, Text.trimStart_append_cons hblack, Text.trimEnd_append_cons hblack]
  have hlist : Text.cutAt? [')'] (Text.trim (body ++ ')' :: rest)) =
      some (Text.trimStart body, Text.trimEnd rest) := by
    rw [htrim]
    refine Text.cutAt?_apart (by simp) (fun c hc hmem => hparen ?_) _
    rw [hbody, ← List.mem_singleton.1 hmem]
    exact List.mem_append_right front hc
  have hentries : entries (Text.trimStart body) = entries body := by
    rw [← entries_append hfront, ← hbody]
  have hreason : reasonIn? tail = reasonIn? (Text.trimEnd rest) := by
    have hquote : '"' ∉ last ++ back := by
      rw [List.mem_append, not_or]
      refine ⟨fun hmem => absurd (hwhite '"' hmem) (by decide), fun hmem => ?_⟩
      rcases hback '"' hmem with h | h
      · exact absurd h (by decide)
      · exact absurd h (by decide)
    rw [htail, hlast, List.append_assoc, reasonIn?_append hquote, ← hlast]
  simp only [parse?, hcut, Option.bind_eq_bind, Option.bind_some, hopens, if_true, hclause]
  rw [Text.dropStart?_eq_some_iff.2 rfl, Option.bind_some, hlist, Option.bind_some, hentries,
    hreason]
  simp [hne]

/-- A line whose first keyword stands behind an opener has a directive exactly if a list of rules
follows the keyword, and the directive has the rules of the list. -/
theorem exists_parse?_iff {line before behind : List Char} {rules : List String}
    (hcut : Text.cutAt? keyword line = some (before, behind))
    (hopens : opensComment before = true) :
    (∃ d, parse? line = some d ∧ d.rules = rules) ↔ Allows behind rules := by
  constructor
  · rintro ⟨d, hd, rfl⟩
    simp only [parse?, hcut, Option.bind_eq_bind, Option.bind_some, hopens, if_true,
      Option.bind_eq_some_iff] at hd
    obtain ⟨list, hlist, ⟨body, tail⟩, hbody, hd⟩ := hd
    rw [Text.dropStart?_eq_some_iff] at hlist
    obtain ⟨hlist', hparen⟩ := Text.eq_append_of_cutAt? hbody
    -- what was trimmed away is put back around the list
    obtain ⟨front, back, hbehind, hfront, -⟩ := exists_eq_clause behind
    obtain ⟨blanks, last, htrim, hblanks, -⟩ := Text.exists_eq_trim list
    split at hd
    · cases hd
    · rename_i hne
      cases hd
      refine ⟨front, blanks ++ body, tail ++ (last ++ back), ?_, hfront, ?_,
        entries_append hblanks body, by simpa using hne⟩
      · rw [hbehind, hlist, htrim, hlist']
        simp
      · have hwhite : ')' ∉ blanks := fun hmem => absurd (hblanks ')' hmem) (by decide)
        simp [hwhite, hparen]
  · rintro ⟨blanks, body, tail, rfl, hblanks, hparen, rfl, hne⟩
    exact ⟨_, parse?_of_list hcut hopens hblanks hparen hne, rfl⟩

end Directive

end LoaderLint
