import LoaderLint.Proofs.TreeLayout
import LoaderLint.Text.Blank
import LoaderLint.Text.Split
import Mathlib.Data.List.Infix

/-!
# Words, lines and positions of texts

What the searches for words find, and which line of a text a position is on: the line whose number
the position has starts with the characters between the last line feed before the position and the
position itself, and goes on with what stands at the position.

The lemmas about words (`dropStart?_eq_some_iff`, `cutAt?_eq_some_iff`, `cutAt?_append`) describe
the results of searches by concatenation, where `Text.IsFirst` is the first occurrence of a word.
`Text.Lacks` says that a text is without a character, part by part.
`Position.exists_line_past` is the step from positions to lines.
-/

namespace LoaderLint

namespace Text

variable {word cs : List Char} {separator : Char}

/-! ## Words -/

/-- A word is taken from the start of the texts that start with it. -/
theorem dropStart?_eq_some_iff {rest : List Char} :
    dropStart? word cs = some rest ↔ cs = word ++ rest := by
  fun_induction dropStart? word cs with
  | case1 cs => simp [eq_comm]
  | case2 => simp
  | case3 w word cs ih => simp [ih]
  | case4 w word c cs hne => simp [Ne.symm hne]

/-- A word is taken from the end of the texts that end with it. -/
theorem dropEnd?_eq_some_iff {rest : List Char} :
    dropEnd? word cs = some rest ↔ cs = rest ++ word := by
  rw [dropEnd?, Option.map_eq_some_iff]
  simp only [dropStart?_eq_some_iff]
  constructor
  · rintro ⟨back, hback, rfl⟩
    rw [← List.reverse_reverse cs, hback, List.reverse_append, List.reverse_reverse]
  · rintro rfl
    exact ⟨rest.reverse, List.reverse_append, List.reverse_reverse rest⟩

/-- The word stands between `before` and `behind`, and it does not occur earlier in the text. -/
def IsFirst (word cs before behind : List Char) : Prop :=
  cs = before ++ (word ++ behind) ∧
    ∀ before' behind', cs = before' ++ (word ++ behind') → before.length ≤ before'.length

/-- A text is cut at the first occurrence of a word. -/
theorem cutAt?_eq_some_iff {before behind : List Char} :
    cutAt? word cs = some (before, behind) ↔ IsFirst word cs before behind := by
  induction cs generalizing before with
  | nil =>
    rw [cutAt?]
    constructor
    · intro h
      split at h
      · rename_i hempty
        cases h
        obtain rfl := List.isEmpty_iff.1 hempty
        exact ⟨rfl, fun _ _ _ => Nat.zero_le _⟩
      · cases h
    · rintro ⟨h, -⟩
      obtain ⟨rfl, hword⟩ := List.append_eq_nil_iff.1 h.symm
      obtain ⟨rfl, rfl⟩ := List.append_eq_nil_iff.1 hword
      rfl
  | cons c cs ih =>
    rw [cutAt?]
    -- either the word stands at the start, or what is before it starts with `c`
    cases hstart : dropStart? word (c :: cs) with
    | some rest =>
      rw [dropStart?_eq_some_iff] at hstart
      constructor
      · intro h
        cases h
        exact ⟨hstart, fun _ _ _ => Nat.zero_le _⟩
      · rintro ⟨h, hfirst⟩
        obtain rfl : before = [] := List.eq_nil_of_length_eq_zero
          (Nat.le_zero.1 (hfirst [] rest hstart))
        rw [hstart] at h
        rw [List.append_cancel_left h]
    | none =>
      have hlater {front rest : List Char} (h : c :: cs = front ++ (word ++ rest)) :
          ∃ front', front = c :: front' ∧ cs = front' ++ (word ++ rest) := by
        cases front with
        | nil =>
          have hword : dropStart? word (c :: cs) = some rest := dropStart?_eq_some_iff.2 h
          rw [hword] at hstart
          cases hstart
        | cons x front =>
          obtain ⟨rfl, hrest⟩ := List.cons.inj h
          exact ⟨front, rfl, hrest⟩
      constructor
      · intro h
        obtain ⟨⟨front, rest⟩, hcut, heq⟩ := Option.map_eq_some_iff.1 h
        cases heq
        obtain ⟨rfl, hfirst⟩ := ih.1 hcut
        refine ⟨rfl, fun before' behind' h' => ?_⟩
        obtain ⟨front', rfl, hfront'⟩ := hlater h'
        exact Nat.succ_le_succ (hfirst front' behind' hfront')
      · rintro ⟨h, hfirst⟩
        obtain ⟨front, rfl, hcs⟩ := hlater h
        refine Option.map_eq_some_iff.2 ⟨(front, behind), ih.2 ⟨hcs, ?_⟩, rfl⟩
        intro front' rest' h'
        exact Nat.le_of_succ_le_succ (hfirst (c :: front') rest' (congrArg (c :: ·) h'))

/-- A word that occurs in a text is found. -/
theorem exists_isFirst (h : word <:+: cs) : ∃ before behind, IsFirst word cs before behind := by
  simp only [← cutAt?_eq_some_iff]
  induction cs with
  | nil =>
    obtain rfl := List.infix_nil.1 h
    exact ⟨[], [], rfl⟩
  | cons c cs ih =>
    rw [cutAt?]
    cases hstart : dropStart? word (c :: cs) with
    | some rest => exact ⟨[], rest, rfl⟩
    | none =>
      have hlater : word <:+: cs := by
        refine (List.infix_cons_iff.1 h).resolve_left fun ⟨rest, hrest⟩ => ?_
        rw [dropStart?_eq_some_iff.2 hrest.symm] at hstart
        cases hstart
      obtain ⟨before, behind, hcut⟩ := ih hlater
      exact ⟨c :: before, behind, by rw [hcut]; rfl⟩

/-- Where a word occurs first does not depend on what is added behind the text. -/
theorem isFirst_append_iff {before behind extra : List Char} :
    IsFirst word (cs ++ extra) before (behind ++ extra) ↔ IsFirst word cs before behind := by
  constructor
  · rintro ⟨h, hfirst⟩
    refine ⟨?_, fun before' behind' h' => hfirst before' (behind' ++ extra) (by simp [h'])⟩
    simpa [← List.append_assoc] using h
  · rintro ⟨rfl, hfirst⟩
    refine ⟨by simp, fun before' behind' h' => ?_⟩
    by_contra hlt
    -- an earlier occurrence would end before the added text begins
    have hshort : (before' ++ word).length ≤ (before ++ (word ++ behind)).length := by
      simp only [List.length_append]
      omega
    have hprefix : before' ++ word <+: before ++ (word ++ behind) := by
      refine List.prefix_of_prefix_length_le ⟨behind', ?_⟩ (List.prefix_append _ extra) hshort
      rw [h', List.append_assoc]
    obtain ⟨rest, hrest⟩ := hprefix
    exact hlt (hfirst before' rest (by rw [← hrest, List.append_assoc]))

/-- A word at the start is cut off there. -/
theorem cutAt?_word_append (hne : word ≠ []) (rest : List Char) :
    cutAt? word (word ++ rest) = some ([], rest) := by
  obtain ⟨w, tail, rfl⟩ := List.exists_cons_of_ne_nil hne
  rw [List.cons_append, cutAt?, dropStart?_eq_some_iff.2 (List.cons_append ..).symm]

/-- A character that the word does not have separates the search: where the word is not found
before it, the search goes on behind it. -/
theorem cutAt?_append {x : Char} {before : List Char} (hbefore : ¬word <:+: before) (hx : x ∉ word)
    (rest : List Char) :
    cutAt? word (before ++ x :: rest) =
      (cutAt? word rest).map fun (front, behind) => (before ++ x :: front, behind) := by
  induction before with
  | nil =>
    have hnone : dropStart? word (x :: rest) = none := by
      refine Option.eq_none_iff_forall_ne_some.2 fun behind hbehind => ?_
      rw [dropStart?_eq_some_iff] at hbehind
      cases word with
      | nil => exact hbefore List.nil_infix
      | cons w tail => exact hx (by simp [(List.cons.inj hbehind).1])
    rw [List.nil_append, cutAt?, hnone]
    simp
  | cons c before ih =>
    -- a word that starts here and does not end before `x` would have `x` in it
    have hnone : dropStart? word (c :: (before ++ x :: rest)) = none := by
      refine Option.eq_none_iff_forall_ne_some.2 fun behind hbehind => ?_
      rw [dropStart?_eq_some_iff, ← List.cons_append] at hbehind
      rcases List.append_eq_append_iff.1 hbehind with ⟨middle, rfl, hmiddle⟩ | ⟨middle, hword, -⟩
      · cases middle with
        | nil => exact hbefore (by simp)
        | cons m middle =>
          obtain ⟨rfl, -⟩ := List.cons.inj hmiddle
          exact hx (by simp)
      · exact hbefore (hword ▸ (List.prefix_append word middle).isInfix)
    have hrest : ¬word <:+: before :=
      fun h => hbefore (h.trans (List.suffix_cons c before).isInfix)
    rw [List.cons_append, cutAt?, hnone, ih hrest, Option.map_map]
    rfl

/-- A word behind characters that it does not have. -/
theorem cutAt?_apart {gap : List Char} (hne : word ≠ []) (hapart : ∀ c ∈ gap, c ∉ word)
    (rest : List Char) : cutAt? word (gap ++ (word ++ rest)) = some (gap, rest) := by
  have hnil : ¬word <:+: [] := fun h => hne (List.infix_nil.1 h)
  induction gap with
  | nil => exact cutAt?_word_append hne rest
  | cons x gap ih =>
    have hx := cutAt?_append hnil (hapart x List.mem_cons_self) (gap ++ (word ++ rest))
    rw [ih fun c hc => hapart c (List.mem_cons_of_mem x hc)] at hx
    exact hx

/-- The first occurrence of a word that stands behind such characters, if it does not stand before
them. -/
theorem cutAt?_append_apart {before gap : List Char} (hbefore : ¬word <:+: before)
    (hgap : gap ≠ []) (hapart : ∀ c ∈ gap, c ∉ word) (rest : List Char) :
    cutAt? word (before ++ (gap ++ (word ++ rest))) = some (before ++ gap, rest) := by
  have hne : word ≠ [] := by
    rintro rfl
    exact hbefore List.nil_infix
  obtain ⟨x, gap, rfl⟩ := List.exists_cons_of_ne_nil hgap
  rw [List.cons_append, cutAt?_append hbefore (hapart x List.mem_cons_self),
    cutAt?_apart hne fun c hc => hapart c (List.mem_cons_of_mem x hc)]
  rfl

/-- What is cut at a character is put together again with it, and the first part is without it. -/
theorem eq_append_of_cutAt? {c : Char} {front behind : List Char}
    (h : cutAt? [c] cs = some (front, behind)) : cs = front ++ c :: behind ∧ c ∉ front := by
  obtain ⟨rfl, hfirst⟩ := cutAt?_eq_some_iff.1 h
  refine ⟨rfl, fun hmem => ?_⟩
  obtain ⟨a, b, rfl⟩ := List.append_of_mem hmem
  have hle := hfirst a (b ++ c :: behind) (by simp)
  rw [List.length_append, List.length_cons] at hle
  omega

/-- What is added behind a text does not reach back over a character that it does not have. -/
theorem exists_of_append_eq {c : Char} {a b extra : List Char} (hc : c ∉ extra)
    (h : cs ++ extra = a ++ c :: b) : ∃ rest, cs = a ++ c :: rest ∧ b = rest ++ extra := by
  rcases List.append_eq_append_iff.1 h with ⟨middle, -, rfl⟩ | ⟨middle, rfl, hmiddle⟩
  · exact absurd (by simp) hc
  · cases middle with
    | nil =>
      rw [List.nil_append] at hmiddle
      exact absurd (hmiddle ▸ List.mem_cons_self) hc
    | cons m middle =>
      obtain ⟨rfl, rfl⟩ := List.cons.inj hmiddle
      exact ⟨middle, rfl, rfl⟩

/-- A word at the end does not reach beyond a character that it does not have. -/
theorem dropEnd?_append {c : Char} (hc : c ∉ word) (a b : List Char) :
    ∃ rest, (dropEnd? word (a ++ c :: b)).getD (a ++ c :: b) = a ++ c :: rest := by
  cases hend : dropEnd? word (a ++ c :: b) with
  | none => exact ⟨b, rfl⟩
  | some line =>
    rw [dropEnd?_eq_some_iff] at hend
    obtain ⟨rest, hrest, -⟩ := exists_of_append_eq hc hend.symm
    exact ⟨rest, hrest⟩

/-! ## Characters that a text lacks -/

/-- The text does not have the character. -/
def Lacks (c : Char) (text : String) : Prop := c ∉ text.toList

instance (c : Char) (text : String) : Decidable (Lacks c text) := inferInstanceAs (Decidable (¬_))

theorem lacks_append {c : Char} {a b : String} : Lacks c (a ++ b) ↔ Lacks c a ∧ Lacks c b := by
  simp only [Lacks, String.toList_append, List.mem_append, not_or]

theorem lacks_join {c : Char} {texts : List String} :
    Lacks c (String.join texts) ↔ ∀ text ∈ texts, Lacks c text := by
  simp only [Lacks, String.toList_join, List.mem_flatMap, not_exists, not_and]

/-- Where all characters can be printed, there are no control characters. -/
theorem lacks_of_printable {c : Char} (hc : c.toNat < 32) {text : String}
    (h : text.toList.all (32 ≤ ·.toNat) = true) : Lacks c text := by
  intro hmem
  have hprintable := of_decide_eq_true (List.all_eq_true.1 h c hmem)
  omega

/-- Numbers are written with digits only. -/
theorem lacks_toString {c : Char} (hc : c.isDigit = false) (n : ℕ) : Lacks c (toString n) := by
  intro h
  have hdigit := Nat.isDigit_of_mem_toDigits (by decide) (by decide) (Nat.toList_repr ▸ h)
  rw [hc] at hdigit
  cases hdigit

/-! ## Lines -/

/-- A separator at the start leaves an empty piece before it. -/
theorem splitOn_cons_self (separator : Char) (cs : List Char) :
    (separator :: cs).splitOn separator = [] :: cs.splitOn separator := by
  rw [List.splitOn_cons_eq_if_modifyHead, if_pos (beq_self_eq_true separator)]

/-- Any other character makes the first piece longer. -/
theorem splitOn_cons_of_ne {c : Char} (hc : c ≠ separator) (cs : List Char) :
    (c :: cs).splitOn separator = (cs.splitOn separator).modifyHead (c :: ·) := by
  rw [List.splitOn_cons_eq_if_modifyHead, if_neg (by simpa using hc)]

/-- A text without separators only makes the first piece longer. -/
theorem splitOn_append {a : List Char} (ha : separator ∉ a) (b : List Char) :
    ∃ piece pieces, b.splitOn separator = piece :: pieces ∧
      (a ++ b).splitOn separator = (a ++ piece) :: pieces := by
  obtain ⟨piece, pieces, hb⟩ := List.exists_cons_of_ne_nil (List.splitOn_ne_nil separator b)
  refine ⟨piece, pieces, hb, ?_⟩
  induction a with
  | nil => exact hb
  | cons c a ih =>
    rw [List.mem_cons, not_or] at ha
    rw [List.cons_append, splitOn_cons_of_ne (Ne.symm ha.1), ih ha.2, List.modifyHead_cons,
      List.cons_append]

/-- Pieces have no separators. -/
theorem not_mem_of_mem_splitOn {piece : List Char} (h : piece ∈ cs.splitOn separator) :
    separator ∉ piece := by
  induction cs generalizing piece with
  | nil =>
    rw [List.mem_singleton.1 h]
    exact List.not_mem_nil
  | cons c cs ih =>
    obtain ⟨first, pieces, hcs⟩ := List.exists_cons_of_ne_nil (List.splitOn_ne_nil separator cs)
    have hpieces := fun piece => @ih piece
    rw [hcs] at hpieces
    -- a separator puts an empty piece in front, any other character goes to the first piece
    by_cases hc : c = separator
    · rw [hc, splitOn_cons_self, hcs] at h
      rcases List.mem_cons.1 h with rfl | h
      · exact List.not_mem_nil
      · exact hpieces piece h
    · rw [splitOn_cons_of_ne hc, hcs, List.modifyHead_cons] at h
      rcases List.mem_cons.1 h with rfl | h
      · exact List.not_mem_cons_of_ne_of_not_mem (Ne.symm hc) (hpieces first List.mem_cons_self)
      · exact hpieces piece (List.mem_cons_of_mem first h)

/-- There is one piece more than there are separators. -/
theorem length_splitOn (separator : Char) (cs : List Char) :
    (cs.splitOn separator).length = cs.count separator + 1 := by
  induction cs with
  | nil => rfl
  | cons c cs ih =>
    by_cases hc : c = separator
    · rw [hc, splitOn_cons_self, List.length_cons, ih, List.count_cons_self]
    · rw [splitOn_cons_of_ne hc, List.length_modifyHead, ih, List.count_cons_of_ne hc]

/-- Pieces that end with a separator each are the first pieces of what they begin. -/
theorem splitOn_flatMap_append {pieces : List (List Char)}
    (h : ∀ piece ∈ pieces, separator ∉ piece) (cs : List Char) :
    (pieces.flatMap (· ++ [separator]) ++ cs).splitOn separator =
      pieces ++ cs.splitOn separator := by
  induction pieces with
  | nil => rfl
  | cons piece pieces ih =>
    rw [List.forall_mem_cons] at h
    rw [List.flatMap_cons, List.append_assoc, List.append_assoc, List.singleton_append,
      List.splitOn_append_cons_self, List.splitOn_eq_singleton h.1, ih h.2, List.singleton_append,
      List.cons_append]

/-- A text consists of pieces that end with a separator each, and of a rest without separators. -/
theorem exists_pieces (separator : Char) (cs : List Char) :
    ∃ (pieces : List (List Char)) (front : List Char),
      cs = pieces.flatMap (· ++ [separator]) ++ front ∧ separator ∉ front ∧
      ∀ piece ∈ pieces, separator ∉ piece := by
  induction cs with
  | nil => exact ⟨[], [], rfl, List.not_mem_nil, by simp⟩
  | cons c cs ih =>
    obtain ⟨pieces, front, rfl, hfront, hpieces⟩ := ih
    by_cases hc : c = separator
    · refine ⟨[] :: pieces, front, ?_, hfront, List.forall_mem_cons.2 ⟨List.not_mem_nil, hpieces⟩⟩
      rw [hc]
      rfl
    -- the character belongs to the first piece, or to the rest if there is no piece
    cases pieces with
    | nil =>
      exact ⟨[], c :: front, rfl, List.not_mem_cons_of_ne_of_not_mem (Ne.symm hc) hfront, by simp⟩
    | cons piece pieces =>
      rw [List.forall_mem_cons] at hpieces
      refine ⟨(c :: piece) :: pieces, front, rfl, hfront, List.forall_mem_cons.2 ⟨?_, hpieces.2⟩⟩
      exact List.not_mem_cons_of_ne_of_not_mem (Ne.symm hc) hpieces.1

/-- The lines of a text behind a line feed stand behind those before it. -/
theorem lines_append_newline (a b : List Char) :
    lines (a ++ '\n' :: b) = (a.splitOn '\n').map withoutReturn ++ lines b := by
  have hb := List.splitOn_ne_nil '\n' b
  simp only [lines, List.splitOn_append_cons_self, List.dropLast_append_of_ne_nil hb,
    List.map_append, List.getLast?_append_of_ne_nil _ hb, List.append_assoc]

/-- The first line of a text starts with characters that have no line feed among them. -/
theorem head?_lines_append {a : List Char} (ha : '\n' ∉ a) (hlast : ∃ c ∈ a.getLast?, c ≠ '\r')
    (b : List Char) : ∃ rest, (lines (a ++ b)).head? = some (a ++ rest) := by
  obtain ⟨c, hend, hc⟩ := hlast
  obtain ⟨start, rfl⟩ := List.getLast?_eq_some_iff.1 hend
  obtain ⟨piece, pieces, -, hsplit⟩ := splitOn_append ha b
  rw [List.append_assoc, List.singleton_append] at hsplit ⊢
  -- a carriage return is cut off unless the line is the last one
  cases pieces with
  | nil => exact ⟨piece, by simp [lines, hsplit]⟩
  | cons next pieces =>
    -- a carriage return at the end of the line stands behind the last of the characters
    have hreturn : c ∉ ['\r'] := by simpa using hc
    obtain ⟨rest, hrest⟩ := dropEnd?_append hreturn start piece
    exact ⟨rest, by simp [lines, hsplit, withoutReturn, hrest]⟩

/-- The last line of a text that ends with a line feed. -/
theorem getLast?_lines {before line : List Char}
    (hbefore : before = [] ∨ before.getLast? = some '\n')
    (hline : '\n' ∉ line) (hend : line.getLast? ≠ some '\r') :
    (lines (before ++ (line ++ ['\n']))).getLast? = some line := by
  have hwhole : withoutReturn line = line := by
    rw [withoutReturn]
    cases hdrop : dropEnd? ['\r'] line with
    | none => rfl
    | some rest =>
      rw [dropEnd?_eq_some_iff] at hdrop
      exact absurd (by simp [hdrop]) hend
  have hpiece : ((before ++ line).splitOn '\n').getLast? = some line := by
    rcases hbefore with rfl | hlast
    · rw [List.nil_append, List.splitOn_eq_singleton hline]
      rfl
    · obtain ⟨start, rfl⟩ := List.getLast?_eq_some_iff.1 hlast
      rw [List.append_assoc, List.singleton_append, List.splitOn_append_cons_self,
        List.splitOn_eq_singleton hline]
      simp
  have hlines := lines_append_newline (before ++ line) []
  rw [show lines [] = [] from rfl, List.append_nil] at hlines
  rw [← List.append_assoc, hlines, List.getLast?_map, hpiece, Option.map_some, hwhole]

end Text

namespace Script

/-! ## Positions -/

/-- The line of a position counts the line feeds that were passed. -/
theorem Position.line_past (p : Position) (cs : List Char) :
    (p.past cs).line = p.line + cs.count '\n' := by
  induction cs generalizing p with
  | nil => rfl
  | cons c cs ih =>
    rw [past_cons, ih, List.count_cons, after]
    by_cases hc : c = '\n'
    · simp [hc]
      omega
    · simp [hc]

/-- The column counts the bytes of a character that is no line feed. -/
theorem Position.column_after {c : Char} (hc : c ≠ '\n') (p : Position) :
    (p.after c).column = p.column + c.utf8Size := by
  rw [after, if_neg hc]

/-- Without line feeds the column does not go back. -/
theorem Position.column_le_past (p : Position) {cs : List Char} (hcs : '\n' ∉ cs) :
    p.column ≤ (p.past cs).column := by
  induction cs generalizing p with
  | nil => exact Nat.le_refl _
  | cons c cs ih =>
    rw [List.mem_cons, not_or] at hcs
    have hrest := ih (p.after c) hcs.2
    rw [column_after (Ne.symm hcs.1)] at hrest
    rw [past_cons]
    omega

/-- On one line, the bytes between two columns are those of the text between them. -/
theorem takeBytes_column {a : List Char} (ha : '\n' ∉ a) (p : Position) (b : List Char) :
    takeBytes ((p.past a).column - p.column) (a ++ b) = a := by
  induction a generalizing p with
  | nil =>
    rw [Position.past_nil, Nat.sub_self]
    cases b <;> rfl
  | cons c a ih =>
    rw [List.mem_cons, not_or] at ha
    -- the first character is taken, since it is on the way to the column
    have hafter := Position.column_after (Ne.symm ha.1) p
    have hle := (p.after c).column_le_past ha.2
    have hpos := Char.utf8Size_pos c
    have hrest := ih ha.2 (p.after c)
    rw [hafter, ← Nat.sub_sub] at hrest
    rw [List.cons_append, Position.past_cons, takeBytes, if_neg (by omega), hrest]

/-- The line of a position starts with the characters between the last line feed and the position,
which its column counts, and the text goes on from there. -/
theorem Position.exists_line_past (before : List Char) :
    ∃ front : List Char, '\n' ∉ front ∧
      (start.past before).column = (start.past front).column ∧
      ∀ after, Text.lineAt? (Text.lines (before ++ after)) (start.past before).line =
        (Text.lines (front ++ after)).head? := by
  -- one more character either starts a new line or makes the current one longer
  induction before using List.reverseRecOn with
  | nil => exact ⟨[], List.not_mem_nil, rfl, fun after => List.head?_eq_getElem?.symm⟩
  | append_singleton before c ih =>
    obtain ⟨front, hfront, hcolumn, hline⟩ := ih
    by_cases hc : c = '\n'
    · subst hc
      refine ⟨[], List.not_mem_nil, by simp [past_append, after, start], fun rest => ?_⟩
      have hnumber : (start.past (before ++ ['\n'])).line = before.count '\n' + 1 + 1 := by
        rw [line_past, List.count_append, start]
        simp
        omega
      have hlength : ((before.splitOn '\n').map Text.withoutReturn).length =
          before.count '\n' + 1 := by
        rw [List.length_map, Text.length_splitOn]
      rw [hnumber, List.append_assoc, List.singleton_append, Text.lines_append_newline,
        Text.lineAt?, ← hlength, List.getElem?_append_right (Nat.le_refl _), Nat.sub_self,
        List.nil_append, List.head?_eq_getElem?]
    · refine ⟨front ++ [c], by simp [hfront, Ne.symm hc], ?_, fun rest => ?_⟩
      · rw [past_append, past_append, past_cons, past_nil, past_cons, past_nil, column_after hc,
          column_after hc, hcolumn]
      · have hsame : (start.past (before ++ [c])).line = (start.past before).line := by
          rw [past_append, past_cons, past_nil, after, if_neg hc]
        rw [hsame, List.append_assoc, List.append_assoc, hline]

end Script

end LoaderLint
