import LoaderLint.Proofs.LossyDecoding

/-!
# Byte offsets and lines

There are two ways to the line of a place in a text. The tree counts the line feeds before the
place, and the search for directives cuts the text into lines. They agree for every byte of the
text, whatever ends its lines: the entry of the list of lines whose index is the number of line
feeds before the byte is what stands between the line feeds around the byte. Only behind the last
byte they may differ, where the list of lines has no entry for the empty line at the end.

The module introduces:

* `Text.Utf8.encode` — the bytes of characters;
* `Text.Utf8.Row` — the stretch of bytes between the line feeds around an offset;
* `Text.IsLineAt` — the line of a text at a byte offset;
* `Directive.scan?` — the search for a directive where a line is taken by its index, which fails
  behind the end of the list.

Positions of a text are ordered by their offsets, and so are their lines
(`Position.InText.line_le`). The main result is `Text.lines_at_offset`.
-/

namespace LoaderLint

namespace Text.Utf8

/-! ## Bytes of characters -/

/-- The bytes of characters, one after the other. -/
def encode (cs : List Char) : List UInt8 := cs.flatMap String.utf8EncodeChar

@[simp]
theorem encode_nil : encode [] = [] := rfl

@[simp]
theorem encode_cons (c : Char) (cs : List Char) :
    encode (c :: cs) = String.utf8EncodeChar c ++ encode cs := List.flatMap_cons

@[simp]
theorem encode_append (cs ds : List Char) : encode (cs ++ ds) = encode cs ++ encode ds :=
  List.flatMap_append

/-- The bytes of the characters of a text are the bytes of the text. -/
theorem encode_toList (content : String) : encode content.toList = content.toUTF8.data.toList :=
  (toList_toUTF8 content).symm

/-- A text has as many bytes as its characters take. -/
theorem length_encode_toList (content : String) :
    (encode content.toList).length = content.utf8ByteSize := by
  rw [encode_toList]
  rfl

/-- The bytes of characters are read as these characters. -/
theorem decode_encode (cs : List Char) : decode (encode cs) = cs := by
  have hdecode := decode_toUTF8 (String.ofList cs)
  rwa [← encode_toList, String.toList_ofList] at hdecode

section

variable {a : UInt8} {cs : List Char}

/-- A byte below `0x80` only stands for its own character. -/
theorem mem_encode_iff (ha : a < 0x80) : a ∈ encode cs ↔ Char.ofNat a.toNat ∈ cs := by
  rw [← mem_decode_iff ha, decode_encode]

/-- A byte below `0x80` comes last exactly if its character does. -/
theorem getLast?_encode_iff (ha : a < 0x80) :
    (encode cs).getLast? = some a ↔ cs.getLast? = some (Char.ofNat a.toNat) := by
  rw [← getLast?_decode_iff ha, decode_encode]

/-- The bytes have a line feed exactly if the characters have one. -/
theorem newline_mem_encode_iff : 0x0a ∈ encode cs ↔ '\n' ∈ cs :=
  mem_encode_iff (a := 0x0a) (by decide)

end

/-- The bytes have as many line feeds as the characters. -/
theorem count_encode_newline (cs : List Char) : (encode cs).count 0x0a = cs.count '\n' := by
  induction cs with
  | nil => rfl
  | cons c cs ih =>
    rw [encode_cons, List.count_append, ih]
    by_cases hc : c = '\n'
    · rw [hc, List.count_cons_self]
      exact Nat.add_comm 1 _
    -- no byte of another character is a line feed
    · have hnone : 0x0a ∉ String.utf8EncodeChar c := by
        have hsingle : 0x0a ∉ encode [c] := by
          rw [newline_mem_encode_iff, List.mem_singleton]
          exact Ne.symm hc
        simpa using hsingle
      rw [List.count_eq_zero.2 hnone, List.count_cons_of_ne hc, Nat.zero_add]

/-- The carriage return at the end of a line is a byte of its own. -/
theorem encode_withoutReturn (row : List Char) :
    encode (Text.withoutReturn row) = withoutReturn (encode row) := by
  have hend : (encode row).getLast? = some 0x0d ↔ row.getLast? = some '\r' :=
    getLast?_encode_iff (a := 0x0d) (by decide)
  rw [Text.withoutReturn, withoutReturn]
  split_ifs with hreturn
  · obtain ⟨front, rfl⟩ := List.getLast?_eq_some_iff.1 (hend.1 hreturn)
    rw [dropEnd?_eq_some_iff.2 rfl, Option.getD_some, encode_append]
    exact (List.dropLast_concat ..).symm
  · have hnone : dropEnd? ['\r'] row = none := by
      refine Option.eq_none_iff_forall_ne_some.2 fun front hfront => hreturn (hend.2 ?_)
      rw [dropEnd?_eq_some_iff.1 hfront, List.getLast?_concat]
    rw [hnone, Option.getD_none]

/-- An offset before the end is inside the bytes of a character, and the line feeds before the
offset are those before the character. -/
theorem exists_char_at {cs : List Char} {o : ℕ} (ho : o < (encode cs).length) :
    ∃ front c back, cs = front ++ c :: back ∧ (encode front).length ≤ o ∧
      o < (encode (front ++ [c])).length ∧ ((encode cs).take o).count 0x0a = front.count '\n' := by
  induction cs generalizing o with
  | nil => cases ho
  | cons c cs ih =>
    rw [encode_cons, List.length_append] at ho
    -- the offset is inside the first character, or it is counted from behind it
    by_cases hc : o < (String.utf8EncodeChar c).length
    · refine ⟨[], c, cs, rfl, Nat.zero_le _, by simpa using hc, ?_⟩
      rw [encode_cons, List.take_append_of_le_length (Nat.le_of_lt hc)]
      by_cases hnewline : c = '\n'
      · -- a line feed is a single byte, so the offset is in front of it
        obtain rfl : o = 0 := by
          rw [hnewline] at hc
          exact Nat.lt_one_iff.1 hc
        rfl
      · have hcount := count_encode_newline [c]
        rw [List.count_cons_of_ne hnewline, List.count_nil, List.count_eq_zero, encode_cons,
          encode_nil, List.append_nil] at hcount
        exact List.count_eq_zero.2 fun hmem => hcount (List.mem_of_mem_take hmem)
    · obtain ⟨front, d, back, rfl, hlow, hhigh, hcount⟩ :=
        @ih (o - (String.utf8EncodeChar c).length) (by omega)
      refine ⟨c :: front, d, back, rfl, ?_, ?_, ?_⟩
      · rw [encode_cons, List.length_append]
        omega
      · rw [List.cons_append, encode_cons, List.length_append]
        omega
      · have hfirst := count_encode_newline [c]
        rw [encode_cons, encode_nil, List.append_nil] at hfirst
        rw [encode_cons, List.take_append, List.take_of_length_le (by omega), List.count_append,
          hcount, hfirst, List.count_cons, List.count_cons, List.count_nil]
        omega

/-! ## Rows -/

/-- The stretch of bytes between the line feeds around an offset: it starts behind the last line
feed before the offset, or at the start, and stops before the first line feed from the offset on,
or at the end. -/
structure Row (bytes : List UInt8) (o : ℕ) (before row behind : List UInt8) : Prop where
  /-- The bytes are those before the stretch, the stretch, and those behind it. -/
  split : bytes = before ++ (row ++ behind)
  /-- A line feed stands in front of the stretch, or nothing does. -/
  starts : before = [] ∨ before.getLast? = some 0x0a
  /-- There is no line feed in it. -/
  unbroken : 0x0a ∉ row
  /-- A line feed stands behind it, or nothing does. -/
  stops : behind = [] ∨ behind.head? = some 0x0a
  /-- The offset is in the stretch, or directly behind it at the line feed. -/
  reaches : before.length ≤ o ∧ o ≤ before.length + row.length

end Text.Utf8

namespace Text

open Utf8 (encode)

/-- The line of a text at a byte offset: the stretch between the line feeds around the offset,
without one carriage return before the line feed that ends it. -/
def IsLineAt (content : String) (o : ℕ) (line : List Char) : Prop :=
  ∃ before row behind, Utf8.Row content.toUTF8.data.toList o before row behind ∧
    encode line = if behind = [] then row else Utf8.withoutReturn row

/-- What stands behind the last separator of a text. -/
theorem exists_last_piece (separator : Char) (cs : List Char) :
    ∃ before piece, cs = before ++ piece ∧ separator ∉ piece ∧
      (before = [] ∨ before.getLast? = some separator) := by
  induction cs using List.reverseRecOn with
  | nil => exact ⟨[], [], rfl, List.not_mem_nil, .inl rfl⟩
  | append_singleton cs c ih =>
    obtain ⟨before, piece, rfl, hpiece, hbefore⟩ := ih
    by_cases hc : c = separator
    · refine ⟨before ++ piece ++ [c], [], (List.append_nil _).symm, List.not_mem_nil, .inr ?_⟩
      rw [List.getLast?_concat, hc]
    · refine ⟨before, piece ++ [c], List.append_assoc .., ?_, hbefore⟩
      simp [hpiece, Ne.symm hc]

/-- What stands before the first separator of a text. -/
theorem exists_first_piece (separator : Char) (cs : List Char) :
    ∃ piece behind, cs = piece ++ behind ∧ separator ∉ piece ∧
      (behind = [] ∨ behind.head? = some separator) := by
  by_cases hmem : separator ∈ cs
  · obtain ⟨piece, behind, rfl, hpiece⟩ := List.eq_append_cons_of_mem hmem
    exact ⟨piece, separator :: behind, rfl, hpiece, .inr rfl⟩
  · exact ⟨cs, [], (List.append_nil cs).symm, hmem, .inl rfl⟩

/-- The line whose index is the number of line feeds before it. -/
theorem getElem?_lines {before row behind : List Char}
    (hbefore : before = [] ∨ before.getLast? = some '\n') (hrow : '\n' ∉ row)
    (hbehind : behind = [] ∨ behind.head? = some '\n') (hne : row ++ behind ≠ []) :
    (lines (before ++ (row ++ behind)))[before.count '\n']? =
      some (if behind = [] then row else withoutReturn row) := by
  -- without anything before it, the row is the first line
  have hfirst : (lines (row ++ behind))[0]? =
      some (if behind = [] then row else withoutReturn row) := by
    rcases hbehind with rfl | hhead
    · rw [List.append_nil] at hne ⊢
      rw [lines, List.splitOn_eq_singleton hrow, if_pos rfl]
      simp [hne]
    · obtain ⟨rest, rfl⟩ := List.head?_eq_some_iff.1 hhead
      rw [lines_append_newline, List.splitOn_eq_singleton hrow, if_neg (List.cons_ne_nil _ _)]
      rfl
  rcases hbefore with rfl | hlast
  · exact hfirst
  · obtain ⟨front, rfl⟩ := List.getLast?_eq_some_iff.1 hlast
    have hlength : ((front.splitOn '\n').map withoutReturn).length =
        (front ++ ['\n']).count '\n' := by
      rw [List.length_map, length_splitOn, List.count_append, List.count_singleton_self]
    rw [List.append_assoc, List.singleton_append, lines_append_newline, ← hlength,
      List.getElem?_append_right (Nat.le_refl _), Nat.sub_self, hfirst]

/-- The stretch around an offset in bytes is the one around its character in the text: `head`
stands between the line feed before the character and the character, and `tail` goes on from
there. -/
theorem row_encode {before head tail behind back : List Char} {c : Char} {o : ℕ}
    (hlow : (encode (before ++ head)).length ≤ o)
    (hhigh : o < (encode (before ++ head ++ [c])).length) (htail : c :: back = tail ++ behind)
    (hbefore : before = [] ∨ before.getLast? = some '\n') (hrow : '\n' ∉ head ++ tail)
    (hbehind : behind = [] ∨ behind.head? = some '\n') :
    Utf8.Row (encode (before ++ (head ++ tail ++ behind))) o (encode before)
      (encode (head ++ tail)) (encode behind) := by
  simp only [Utf8.encode_append, List.length_append] at hlow hhigh
  refine ⟨?_, ?_, ?_, ?_, ?_, ?_⟩
  · rw [Utf8.encode_append, Utf8.encode_append]
  · refine hbefore.imp (fun h => by rw [h]; rfl) fun h => ?_
    exact (Utf8.getLast?_encode_iff (a := 0x0a) (by decide)).2 h
  · rwa [Utf8.newline_mem_encode_iff]
  · refine hbehind.imp (fun h => by rw [h]; rfl) fun h => ?_
    obtain ⟨rest, rfl⟩ := List.head?_eq_some_iff.1 h
    rfl
  · omega
  · rw [Utf8.encode_append, List.length_append]
    cases tail with
    | nil =>
      -- the character is the line feed that ends the line
      rw [List.nil_append] at htail
      obtain rfl : c = '\n' := by
        rw [← htail] at hbehind
        exact Option.some.inj (hbehind.resolve_left (List.cons_ne_nil c back))
      have hsize : (encode ['\n']).length = 1 := rfl
      omega
    | cons d tail =>
      obtain ⟨rfl, -⟩ := List.cons.inj htail
      rw [Utf8.encode_cons, Utf8.encode_nil, List.append_nil] at hhigh
      rw [Utf8.encode_cons, List.length_append]
      omega

/-- For each byte of a text, the line whose index is the number of line feeds before the byte is
the line at the byte. -/
theorem exists_line_at (content : String) {o : ℕ} (ho : o < content.utf8ByteSize) :
    ∃ line, (lines content.toList)[(content.toUTF8.data.toList.take o).count 0x0a]? = some line ∧
      IsLineAt content o line := by
  rw [← Utf8.length_encode_toList] at ho
  obtain ⟨front, c, back, hcs, hlow, hhigh, hcount⟩ := Utf8.exists_char_at ho
  -- the line reaches back from the character to the line feed before it, and on to the next one
  obtain ⟨before, head, rfl, hhead, hbefore⟩ := exists_last_piece '\n' front
  obtain ⟨tail, behind, htail, hunbroken, hbehind⟩ := exists_first_piece '\n' (c :: back)
  have hrow : '\n' ∉ head ++ tail := by
    rw [List.mem_append, not_or]
    exact ⟨hhead, hunbroken⟩
  have hsplit : content.toList = before ++ (head ++ tail ++ behind) := by
    rw [hcs, htail]
    simp only [List.append_assoc]
  have hne : head ++ tail ++ behind ≠ [] := by
    rw [List.append_assoc, ← htail]
    simp
  have hindex : (content.toUTF8.data.toList.take o).count 0x0a = before.count '\n' := by
    rw [← Utf8.encode_toList, hcount, List.count_append, List.count_eq_zero.2 hhead, Nat.add_zero]
  refine ⟨if behind = [] then head ++ tail else withoutReturn (head ++ tail), ?_, encode before,
    encode (head ++ tail), encode behind, ?_, ?_⟩
  · rw [hindex, hsplit]
    exact getElem?_lines hbefore hrow hbehind hne
  · rw [← Utf8.encode_toList, hsplit]
    exact row_encode hlow hhigh htail hbefore hrow hbehind
  · have hnil : encode behind = [] ↔ behind = [] := by
      rw [← Utf8.decode_eq_nil_iff, Utf8.decode_encode]
    simp only [hnil]
    split
    · rfl
    · exact Utf8.encode_withoutReturn _

end Text

/-! ## Positions -/

namespace Script

/-- The offset of a position counts the bytes before it. -/
theorem Position.offset_past (p : Position) (cs : List Char) :
    (p.past cs).offset = p.offset + (Text.Utf8.encode cs).length := by
  induction cs generalizing p with
  | nil => rfl
  | cons c cs ih =>
    rw [past_cons, ih, Text.Utf8.encode_cons, List.length_append, String.length_utf8EncodeChar,
      ← Nat.add_assoc]
    -- a line feed is one byte long, as `after` counts it
    congr 1
    unfold after
    split
    · rename_i hc
      rw [hc]
      rfl
    · rfl

namespace Position.InText

variable {cs : List Char} {p q : Position}

/-- The bytes before a position are those of the characters before it. -/
theorem exists_encode {content : String} (h : p.InText content.toList) :
    ∃ before behind, content.toUTF8.data.toList = Text.Utf8.encode before ++ behind ∧
      p.offset = (Text.Utf8.encode before).length ∧ p.line = before.count '\n' + 1 := by
  obtain ⟨before, after, hcs, rfl⟩ := h
  refine ⟨before, Text.Utf8.encode after, ?_, ?_, ?_⟩
  · rw [← Text.Utf8.encode_toList, hcs, Text.Utf8.encode_append]
  · rw [offset_past]
    exact Nat.zero_add _
  · rw [line_past]
    exact Nat.add_comm 1 _

/-- No position of a text is behind its last byte. -/
theorem offset_le {content : String} (h : p.InText content.toList) :
    p.offset ≤ content.utf8ByteSize := by
  obtain ⟨before, behind, hbytes, hoffset, -⟩ := h.exists_encode
  rw [← Text.Utf8.length_encode_toList, Text.Utf8.encode_toList, hbytes, hoffset,
    List.length_append]
  exact Nat.le_add_right _ _

/-- The line of a position counts the line feeds before it. -/
theorem line_eq {content : String} (h : p.InText content.toList) :
    p.line = (content.toUTF8.data.toList.take p.offset).count 0x0a + 1 := by
  obtain ⟨before, behind, hbytes, hoffset, hline⟩ := h.exists_encode
  rw [hbytes, hoffset, List.take_left, Text.Utf8.count_encode_newline, hline]

/-- A position with a smaller offset is not on a later line. -/
theorem line_le (hp : p.InText cs) (hq : q.InText cs) (h : p.offset ≤ q.offset) :
    p.line ≤ q.line := by
  obtain ⟨content, rfl⟩ : ∃ content : String, content.toList = cs :=
    ⟨String.ofList cs, String.toList_ofList⟩
  -- there are not more line feeds before the first offset than before the second one
  rw [hp.line_eq, hq.line_eq]
  exact Nat.succ_le_succ ((List.take_sublist_take_left h).count_le _)

end Position.InText

end Script

/-! ## Lines by their index -/

namespace Directive

/-- The directive on the first of the lines that permits the rule, where the numbers of lines are
machine words and a line is taken by its index. Numbers of lines that do not exist are passed over;
an index behind the end of the list would fail. -/
def scan? (lines : List (List Char)) (rule : String) : List UInt64 → Option (Option Directive)
  | [] => some none
  | number :: rest =>
    if number = 0 ∨ lines.length < number.toNat then scan? lines rule rest
    else do
      let line ← lines[(number - 1).toNat]?
      match (parse? line).filter (·.covers rule) with
      | some d => return some d
      | none => scan? lines rule rest

/-- The index of a line that is not numbered 0 does not wrap around. -/
theorem toNat_sub_one {number : UInt64} (h : number ≠ 0) :
    (number - 1).toNat = number.toNat - 1 := by
  have hpos : 1 ≤ number.toNat := Nat.pos_of_ne_zero fun hzero => h (UInt64.toNat_inj.1 hzero)
  exact UInt64.toNat_sub_of_le _ _ (UInt64.le_iff_toNat_le.2 hpos)

/-- The search takes the directive of the first line if it permits the rule. -/
theorem find?_cons (lines : List (List Char)) (rule : String) (number : ℕ) (rest : List ℕ) :
    find? lines rule (number :: rest) =
      (((Text.lineAt? lines number).bind parse?).filter (·.covers rule)).or
        (find? lines rule rest) := by
  rw [find?, List.findSome?_cons]
  split
  · rename_i hd
    rw [hd]
    rfl
  · rename_i hnone
    rw [hnone]
    rfl

/-- No index is behind the end of the list, and the search finds what it finds by the numbers. -/
theorem scan?_eq_find? (lines : List (List Char)) (rule : String) (numbers : List UInt64) :
    scan? lines rule numbers = some (find? lines rule (numbers.map UInt64.toNat)) := by
  induction numbers with
  | nil => rfl
  | cons number rest ih =>
    rw [scan?, ih, List.map_cons, find?_cons]
    by_cases hskip : number = 0 ∨ lines.length < number.toNat
    · have hline : Text.lineAt? lines number.toNat = none := by
        rcases hskip with rfl | hlong
        · rfl
        · obtain ⟨k, hk⟩ := Nat.exists_eq_succ_of_ne_zero (Nat.ne_zero_of_lt hlong)
          rw [hk] at hlong ⊢
          exact List.getElem?_eq_none (Nat.le_of_lt_succ hlong)
      rw [if_pos hskip, hline]
      rfl
    · rw [if_neg hskip]
      rw [not_or, Nat.not_lt] at hskip
      obtain ⟨hzero, hlong⟩ := hskip
      obtain ⟨k, hk⟩ := Nat.exists_eq_succ_of_ne_zero fun h => hzero (UInt64.toNat_inj.1 h)
      -- the guard keeps the index in the list, so that taking the line does not fail
      have hindex : lines[k]? = some (lines[k]) := List.getElem?_eq_getElem (by omega)
      rw [toNat_sub_one hzero, hk, Nat.succ_sub_one, Text.lineAt?, hindex]
      simp only [Option.bind_eq_bind, Option.bind_some]
      cases (parse? lines[k]).filter (·.covers rule) <;> rfl

end Directive

namespace Text

open Script (Node Program)

/-- The lines that the tree counts and the lines on which directives are looked for are the same.

For each byte of a text, with `r` line feeds before it, there are more than `r` lines, and the one
with the index `r` is what stands between the line feeds around the byte, without one carriage
return before the line feed that ends it. So a node that starts before the end of the text has the
number of the line that it starts on, and a directive on the line with that number is one on that
very line. The search for a directive at any number, also at zero, takes no line that does not
exist. -/
theorem lines_at_offset (content : String) :
    (∀ o < content.utf8ByteSize,
      (content.toUTF8.data.toList.take o).count 0x0a < (lines content.toList).length ∧
      ∃ line, (lines content.toList)[(content.toUTF8.data.toList.take o).count 0x0a]? = some line ∧
        IsLineAt content o line) ∧
    (∀ root : Node, root.LaidOut content.toList → ∀ n ∈ root.nodes,
      n.span.start.offset < content.utf8ByteSize →
      n.line = (content.toUTF8.data.toList.take n.span.start.offset).count 0x0a + 1 ∧
      ∃ line, lineAt? (lines content.toList) n.line = some line ∧
        IsLineAt content n.span.start.offset line ∧
        ∀ d, Directive.OnLine content n.line d ↔ Directive.parse? line = some d) ∧
    ∀ (number : UInt64) (rule : String),
      Directive.scan? (lines content.toList) rule
          [if number = 0 then 0 else number - 1, number] =
        some (Directive.above? content number.toNat rule) := by
  refine ⟨fun o ho => ?_, fun root hlaid n hn hstart => ?_, fun number rule => ?_⟩
  · obtain ⟨line, hline, hat⟩ := exists_line_at content ho
    exact ⟨(List.getElem?_eq_some_iff.1 hline).1, line, hline, hat⟩
  · obtain ⟨above, hancestry⟩ := Node.mem_nodes_iff_exists_ancestry.1 hn
    have hnumber : n.line = _ := (hancestry.laidOut hlaid).fits.placed.line_eq
    obtain ⟨line, hline, hat⟩ := exists_line_at content hstart
    have hread : lineAt? (lines content.toList) n.line = some line := by
      rw [hnumber]
      exact hline
    refine ⟨hnumber, line, hread, hat, fun d => ?_⟩
    rw [Directive.OnLine, hread, Option.bind_some]
  · have hprevious : (if number = 0 then 0 else number - 1).toNat = number.toNat - 1 := by
      split
      · rename_i hzero
        rw [hzero]
        rfl
      · exact Directive.toNat_sub_one ‹_›
    rw [Directive.scan?_eq_find?, List.map_cons, List.map_cons, List.map_nil, hprevious,
      Directive.above?]

/-- A carriage return before the line feed, one that stands alone, a line separator, a character of
two bytes and no line feed at the end. The name on the second line is found there, and so is the
line of a byte inside the separator. -/
theorem lines_at_offset_mixed :
    let source := "a;\r\n\r\u2028b; //\u00e9"
    let second := "\r\u2028b; //\u00e9".toList
    (∃ p n, Program.parse? source = some p ∧ n ∈ p.root.nodes ∧ n.text = "b" ∧
      n.span.start.offset = 8 ∧ n.line = 2 ∧ lineAt? (lines source.toList) n.line = some second ∧
      IsLineAt source 8 second) ∧
    IsLineAt source 6 second ∧
    Directive.scan? (lines source.toList) "r" [18446744073709551614, 18446744073709551615] =
      some none := by
  intro source second
  obtain ⟨hbytes, hnodes, hnumbers⟩ := lines_at_offset source
  have hlines : lines source.toList = ["a;".toList, second] := by decide +kernel
  have hname : (Program.parse? source).any (fun p => p.root.nodes.any fun n =>
      n.text = "b" && n.span.start.offset = 8) = true := by
    decide +kernel
  simp only [Option.any_eq_true, List.any_eq_true, Bool.and_eq_true, decide_eq_true_eq] at hname
  obtain ⟨p, hp, n, hn, htext, hoffset⟩ := hname
  refine ⟨⟨p, n, hp, hn, htext, hoffset, ?_⟩, ?_, ?_⟩
  · obtain ⟨hline, line, hread, hat, -⟩ := hnodes p.root (Program.laidOut_of_parse? hp) n hn
      (by rw [hoffset]; decide)
    have hsecond : n.line = 2 := by
      rw [hline, hoffset]
      decide +kernel
    rw [hsecond, hlines] at hread
    obtain rfl : second = line := Option.some.inj hread
    rw [hoffset] at hat
    exact ⟨hsecond, by rw [hsecond, hlines]; rfl, hat⟩
  · obtain ⟨-, line, hread, hat⟩ := hbytes 6 (by decide)
    have hindex : (source.toUTF8.data.toList.take 6).count 0x0a = 1 := by decide +kernel
    rw [hindex, hlines] at hread
    obtain rfl : second = line := Option.some.inj hread
    exact hat
  · have hnone := hnumbers 18446744073709551615 "r"
    rw [if_neg (by decide)] at hnone
    refine hnone.trans (congrArg some ?_)
    decide +kernel

end Text

end LoaderLint
