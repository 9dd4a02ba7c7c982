import LoaderLint.Json.Layout
import LoaderLint.Json.Record
import LoaderLint.Proofs.Numerals
import Mathlib.Data.List.Forall2

/-!
# Reading what was written

A reader gets back from a JSON text what was written into it. Between values there may be blanks,
and a number ends only where no digit, point or exponent follows, so both are part of what is
stated.

The module introduces:

* `Reader.Stops` — a text that does not go on with a number;
* `Reader.Reads` — a reader reads a value, whatever blanks stand before it and whatever stops
  behind it;
* `Reader.ReadsFields` — the fields of a record are read one after the other.

There is one statement for each kind of value: `reads_text` for strings with all their escapes,
`reads_size` for numbers of 64 bits, `reads_list` and `reads_record`. The loops over items and
fields are read by one step lemma each, `items_succ` and `namedFields_succ`.
-/

namespace LoaderLint.Json

namespace Reader

/-! ## Steps of a reader -/

/-- A step that succeeds hands its result and the text behind it to the next one. -/
theorem bind_of_ok {α β : Type} {x : Reader α} {cs cs' : List Char} {a : α}
    (h : x cs = .ok (a, cs')) (f : α → Reader β) : (x >>= f) cs = f a cs' := by
  change (x cs).bind (fun p => f p.1 p.2) = f a cs'
  rw [h]
  rfl

/-- There are only blanks in the text. -/
def Blank (cs : List Char) : Prop := ∀ c ∈ cs, isBlank c = true

theorem blank_nil : Blank [] := by
  intro c hc
  cases hc

theorem blank_space : Blank [' '] := by
  intro c hc
  rw [List.mem_singleton.1 hc]
  rfl

/-- A line feed with its indentation consists of blanks. -/
theorem blank_newLine (level : ℕ) : Blank (newLine level) := by
  intro c hc
  rcases List.mem_cons.1 hc with rfl | hc
  · rfl
  · rw [List.eq_of_mem_replicate hc]
    rfl

/-- Blanks are passed over up to the first character that is none. -/
theorem peek_append {blanks : List Char} (hblanks : Blank blanks) {c : Char}
    (hc : isBlank c = false) (cs : List Char) :
    peek (blanks ++ c :: cs) = .ok (some c, c :: cs) := by
  simp [peek, List.dropWhile_append_of_pos hblanks, hc]

/-- A character that is no blank is the next one. -/
theorem peek_cons {c : Char} (hc : isBlank c = false) (cs : List Char) :
    peek (c :: cs) = .ok (some c, c :: cs) :=
  peek_append blank_nil hc cs

theorem skip_cons (c : Char) (cs : List Char) : skip (c :: cs) = .ok ((), cs) := rfl

theorem get_apply (cs : List Char) : (get : Reader (List Char)) cs = .ok (cs, cs) := rfl

/-! ## Strings -/

/-- One more character of a string. -/
def consBody (c : Char) (p : List Char × List Char) : List Char × List Char := (c :: p.1, p.2)

/-- A character with an escape of its own is read from its letter. -/
theorem stringRest_shortEscape {c e : Char} (he : e ≠ 'u') (hc : shortEscape? e = some c)
    (cs : List Char) :
    stringRest true ('\\' :: e :: cs) = (stringRest true cs).map (consBody c) := by
  simp only [stringRest, he, imp_false, IsEmpty.forall_iff, implies_true, hc]
  cases stringRest true cs <;> rfl

/-- A control character is read from the two digits of its number. -/
theorem stringRest_control {c : Char} (hc : c.toNat < 32) (cs : List Char) :
    stringRest true ('\\' :: 'u' :: '0' :: '0' :: hexDigit (c.toNat / 16) ::
      hexDigit (c.toNat % 16) :: cs) = (stringRest true cs).map (consBody c) := by
  -- there are 32 control characters, and none of them is half of a pair
  have hnumbers : ∀ n < 32, fourDigits? '0' '0' (hexDigit (n / 16)) (hexDigit (n % 16)) = some n ∧
      isSecondHalf n = false ∧ isFirstHalf n = false := by
    decide
  obtain ⟨hdigits, hsecond, hfirst⟩ := hnumbers c.toNat hc
  simp only [stringRest, hdigits, hsecond, hfirst, Char.ofNat_toNat]
  cases stringRest true cs <;> rfl

/-- A character that needs no escape is read as it is. -/
theorem stringRest_plain {c : Char} (hquote : c ≠ '"') (hslash : c ≠ '\\') (hc : ¬c.toNat < 32)
    (cs : List Char) :
    stringRest true (c :: cs) = (stringRest true cs).map (consBody c) := by
  have hplain : ¬c < ' ' := fun h => hc (UInt32.lt_iff_toNat_lt.1 h)
  simp only [stringRest, hslash, imp_false, IsEmpty.forall_iff, implies_true, hplain, if_false]
  cases stringRest true cs <;> rfl

/-- Each character of a string is read back, however it is escaped. -/
theorem stringRest_quotedChar (c : Char) (cs : List Char) :
    stringRest true (quotedChar c ++ cs) = (stringRest true cs).map (consBody c) := by
  unfold quotedChar
  -- one case for each escape, in the order in which they are tried
  split_ifs with hquote hslash hnewline hreturn htab hback hfeed hcontrol
  · exact stringRest_shortEscape (by decide) (by rw [hquote]; rfl) cs
  · exact stringRest_shortEscape (by decide) (by rw [hslash]; rfl) cs
  · exact stringRest_shortEscape (by decide) (by rw [hnewline]; rfl) cs
  · exact stringRest_shortEscape (by decide) (by rw [hreturn]; rfl) cs
  · exact stringRest_shortEscape (by decide) (by rw [htab]; rfl) cs
  · exact stringRest_shortEscape (by decide) (by rw [hback]; rfl) cs
  · exact stringRest_shortEscape (by decide) (by rw [hfeed]; rfl) cs
  · exact stringRest_control hcontrol cs
  · exact stringRest_plain hquote hslash hcontrol cs

/-- The characters of a string are read back one by one, up to the quote. -/
theorem stringRest_quoted (text rest : List Char) :
    stringRest true (text.flatMap quotedChar ++ '"' :: rest) = .ok (text, rest) := by
  induction text with
  | nil => rfl
  | cons c text ih =>
    rw [List.flatMap_cons, List.append_assoc, stringRest_quotedChar, ih]
    rfl

/-- Behind its opening quote a string is read up to the closing one. -/
theorem stringBody_quoted (text : String) (rest : List Char) :
    stringBody true (text.toList.flatMap quotedChar ++ '"' :: rest) = .ok (text, rest) := by
  simp only [stringBody, stringRest_quoted, Except.map, String.ofList_toList]

/-! ## Numbers -/

/-- The text does not go on with a number. -/
def Stops (rest : List Char) : Prop :=
  ∀ c ∈ rest.head?, c.isDigit = false ∧ c ≠ '.' ∧ c ≠ 'e' ∧ c ≠ 'E'

theorem stops_nil : Stops [] := by
  intro c hc
  cases hc

/-- No digit stands at the start of a text that does not go on with a number. -/
theorem takeWhile_isDigit {rest : List Char} (h : Stops rest) :
    rest.takeWhile Char.isDigit = [] := by
  cases rest with
  | nil => rfl
  | cons c rest => simp [(h c rfl).1]

/-- Nothing is dropped from a text that does not go on with a number. -/
theorem dropWhile_isDigit {rest : List Char} (h : Stops rest) :
    rest.dropWhile Char.isDigit = rest := by
  cases rest with
  | nil => rfl
  | cons c rest => simp [(h c rfl).1]

/-- Only zero is written with a zero in front. -/
theorem exists_toDigits_eq_cons {n : ℕ} (hn : n ≠ 0) :
    ∃ c cs, Nat.toDigits 10 n = c :: cs ∧ c ≠ '0' := by
  -- the first digit of a number is that of the number without its last digit
  induction n using Nat.base_induction 10 (by decide) with
  | single m hm => exact ⟨m.digitChar, [], Nat.toDigits_of_lt_base hm, by simpa using hn⟩
  | digit m k hk hm ih =>
    obtain ⟨c, cs, hcs, hc⟩ := ih (Nat.ne_of_gt hm)
    refine ⟨c, cs ++ Nat.toDigits 10 k, ?_, hc⟩
    rw [← Nat.toDigits_append_toDigits (by decide) hm hk, hcs, List.cons_append]

/-- The digits of a number are read up to where they stop. -/
theorem wholeDigits_toDigits (n : ℕ) {rest : List Char} (h : Stops rest) :
    wholeDigits true (Nat.toDigits 10 n ++ rest) = .ok (Nat.toDigits 10 n, rest) := by
  by_cases hn : n = 0
  · have hrest : rest.head?.any Char.isDigit = false := by
      cases rest with
      | nil => rfl
      | cons c rest => exact (h c rfl).1
    simp [hn, wholeDigits, hrest]
  · -- the first digit is not zero, so all digits belong to the number
    obtain ⟨c, cs, hcs, hc⟩ := exists_toDigits_eq_cons hn
    have hall : ∀ d ∈ c :: cs, d.isDigit = true :=
      fun d hd => Nat.isDigit_of_mem_toDigits (by decide) (by decide) (hcs ▸ hd)
    rw [hcs, List.cons_append, wholeDigits, if_pos (hall c List.mem_cons_self), ← List.cons_append,
      List.takeWhile_append_of_pos hall, List.dropWhile_append_of_pos hall, takeWhile_isDigit h,
      dropWhile_isDigit h, List.append_nil]
    simpa using hc

/-- A number of 64 bits is read back as it is. -/
theorem number_toDigits {n : ℕ} (hn : n < UInt64.size) {rest : List Char} (h : Stops rest) :
    number true false (Nat.toDigits 10 n ++ rest) = .ok (.natural n, rest) := by
  -- neither a fraction nor an exponent follows the digits
  have hfraction : fractionDigits true rest = .ok (none, rest) := by
    cases rest with
    | nil => rfl
    | cons c rest => simp [fractionDigits, (h c rfl).2.1]
  have hexponent : exponent true rest = .ok (none, rest) := by
    cases rest with
    | nil => rfl
    | cons c rest => simp [exponent, (h c rfl).2.2]
  have hwhole : wholeNumber true false n = .ok (.natural n) := by
    rw [wholeNumber, if_neg Bool.false_ne_true]
    exact if_pos hn
  have hvalue : Text.digitsValue? 10 (Nat.toDigits 10 n) = some n :=
    Text.digitsValue?_toDigits (by decide) (by decide) n
  simp only [number, wholeDigits_toDigits n h, hfraction, hexponent, bind, Except.bind,
    Option.getD_none, List.append_nil, hvalue, Option.getD_some, hwhole]
  rfl

/-! ## Values -/

/-- The reader reads `a` from the value, at whatever level it is written. Blanks before the value
are passed over, and what follows it is left, unless it goes on with a number. -/
def Reads {α : Type} (reader : Reader α) (v : Json) (a : α) : Prop :=
  ∀ level blanks rest, Blank blanks → Stops rest →
    reader (blanks ++ (layout level v ++ rest)) = .ok (a, rest)

/-- Whether a value can start with the character. -/
def opensValue (c : Char) : Bool := c.isDigit || c = '"' || c = '[' || c = '\x7b'

/-- Every value starts with a character that can start one. -/
theorem exists_layout_eq_cons (level : ℕ) (v : Json) :
    ∃ c cs, layout level v = c :: cs ∧ opensValue c = true := by
  cases v with
  | number n =>
    obtain ⟨c, cs, hcs⟩ := List.exists_cons_of_ne_nil (Nat.toDigits_ne_nil (n := n) (b := 10))
    have hc : c.isDigit = true :=
      Nat.isDigit_of_mem_toDigits (by decide) (by decide) (hcs ▸ List.mem_cons_self)
    exact ⟨c, cs, by rw [layout, hcs], by simp [opensValue, hc]⟩
  | string text => exact ⟨_, _, rfl, rfl⟩
  | array items => cases items <;> exact ⟨_, _, rfl, rfl⟩
  | object fields => cases fields <;> exact ⟨_, _, rfl, rfl⟩

/-- A value does not start with a blank. -/
theorem isBlank_of_opensValue {c : Char} (h : opensValue c = true) : isBlank c = false := by
  by_contra hblank
  simp only [isBlank, Bool.not_eq_false, Bool.or_eq_true, decide_eq_true_eq] at hblank
  rcases hblank with ((rfl | rfl) | rfl) | rfl <;> simp [opensValue, Char.isDigit] at h

/-- The start of a value is none of the marks that stand between values. -/
theorem ne_of_opensValue {c d : Char} (hc : opensValue c = true) (hd : opensValue d = false) :
    c ≠ d := by
  rintro rfl
  simp [hc] at hd

/-- Behind a value there is no number that goes on. -/
theorem stops_cons {c : Char} (h : isBlank c || c = ',' || c = ']' || c = '\x7d')
    (cs : List Char) : Stops (c :: cs) := by
  intro d hd
  obtain rfl : c = d := by simpa using hd
  simp only [isBlank, Bool.or_eq_true, decide_eq_true_eq] at h
  rcases h with (((((rfl | rfl) | rfl) | rfl) | rfl) | rfl) | rfl <;> decide

/-- A text does not go on with a number behind blanks if it does not without them. -/
theorem stops_append {blanks : List Char} (hblanks : Blank blanks) {cs : List Char}
    (h : Stops cs) : Stops (blanks ++ cs) := by
  cases blanks with
  | nil => exact h
  | cons c blanks => exact stops_cons (by simp [hblanks c List.mem_cons_self]) _

/-- A string is read back, whatever characters it has. -/
theorem reads_text (expected content : String) :
    Reads (text expected) (.string content) content := by
  intro level blanks rest hblanks _
  have hlayout : layout level (.string content) ++ rest =
      '"' :: (content.toList.flatMap quotedChar ++ '"' :: rest) := by
    simp [layout, quoted]
  rw [hlayout, text, bind_of_ok (peek_append hblanks (by decide) _)]
  exact stringBody_quoted content rest

/-- A number of 64 bits is read back. -/
theorem reads_size {n : ℕ} (hn : n < UInt64.size) : Reads size (.number n) n := by
  intro level blanks rest hblanks hrest
  have hlayout : layout level (.number n) = Nat.toDigits 10 n := rfl
  obtain ⟨c, cs, hcs, hopens⟩ := exists_layout_eq_cons level (.number n)
  have hdigit : c.isDigit = true :=
    Nat.isDigit_of_mem_toDigits (by decide) (by decide) (hlayout ▸ hcs ▸ List.mem_cons_self)
  -- the number starts with a digit and so is read as one without a sign
  have hminus : c ≠ '-' := ne_of_opensValue hopens (by decide)
  rw [hcs, List.cons_append, size,
    bind_of_ok (peek_append hblanks (isBlank_of_opensValue hopens) (cs ++ rest)),
    ← List.cons_append, ← hcs, hlayout]
  simp only [hminus, if_false, hdigit, if_true]
  rw [bind_of_ok (number_toDigits hn hrest)]
  rfl

/-- What is made of the result of a reader is read where the result is. -/
theorem Reads.map {α β : Type} {reader : Reader α} {v : Json} {a : α} (h : Reads reader v a)
    (f : α → β) : Reads (f <$> reader) v (f a) := by
  intro level blanks rest hblanks hrest
  rw [map_eq_pure_bind, bind_of_ok (h level blanks rest hblanks hrest)]
  rfl

/-- No value is taken for the word that stands for none. -/
theorem Reads.optional {α : Type} {reader : Reader α} {v : Json} {a : α} (h : Reads reader v a) :
    Reads (optional reader) v (some a) := by
  intro level blanks rest hblanks hrest
  obtain ⟨c, cs, hcs, hopens⟩ := exists_layout_eq_cons level v
  -- the word for no value starts with a letter, which no value does
  have hnull : c ≠ 'n' := ne_of_opensValue hopens (by decide)
  have hread := h level [] rest blank_nil hrest
  rw [List.nil_append] at hread
  rw [hcs, List.cons_append, Reader.optional,
    bind_of_ok (peek_append hblanks (isBlank_of_opensValue hopens) (cs ++ rest)),
    ← List.cons_append, ← hcs]
  simp only [Option.some.injEq, hnull, imp_self]
  rw [bind_of_ok hread]
  rfl

/-! ## Lists -/

/-- At the bracket that ends a list there is no other item. -/
theorem anotherItem_end (first : Bool) {blanks : List Char} (hblanks : Blank blanks)
    (cs : List Char) : anotherItem first (blanks ++ ']' :: cs) = .ok (false, ']' :: cs) := by
  rw [anotherItem, bind_of_ok (peek_append hblanks (by decide) cs)]
  rfl

/-- At the start of a value there is a first item. -/
theorem anotherItem_first {blanks : List Char} (hblanks : Blank blanks) (level : ℕ) (v : Json)
    (cs : List Char) :
    anotherItem true (blanks ++ (layout level v ++ cs)) = .ok (true, layout level v ++ cs) := by
  obtain ⟨c, tail, htail, hopens⟩ := exists_layout_eq_cons level v
  have hend : c ≠ ']' := ne_of_opensValue hopens (by decide)
  rw [htail, List.cons_append, anotherItem,
    bind_of_ok (peek_append hblanks (isBlank_of_opensValue hopens) (tail ++ cs))]
  simp only [hend, if_false, if_true]
  rfl

/-- Behind a comma there is another item. -/
theorem anotherItem_next {blanks : List Char} (hblanks : Blank blanks) (level : ℕ) (v : Json)
    (cs : List Char) :
    anotherItem false (',' :: (blanks ++ (layout level v ++ cs))) =
      .ok (true, layout level v ++ cs) := by
  obtain ⟨c, tail, htail, hopens⟩ := exists_layout_eq_cons level v
  have hend : c ≠ ']' := ne_of_opensValue hopens (by decide)
  rw [anotherItem, bind_of_ok (peek_cons (by decide) _)]
  simp only [Char.reduceEq, Bool.false_eq_true, if_false, if_true]
  rw [bind_of_ok (skip_cons _ _), htail, List.cons_append,
    bind_of_ok (peek_append hblanks (isBlank_of_opensValue hopens) (tail ++ cs))]
  simp only [hend, if_false]
  rfl

/-- A list has at most as many items as characters. -/
theorem length_le_length_layoutItems (level : ℕ) (vs : List Json) :
    vs.length ≤ (layoutItems level vs).length := by
  induction vs with
  | nil => exact Nat.zero_le _
  | cons v vs ih =>
    simp only [layoutItems, List.length_cons, List.length_append]
    omega

/-- No number goes on where further items or the end of a list follow. -/
theorem stops_layoutItems (level : ℕ) (vs : List Json) {cs : List Char} (h : Stops cs) :
    Stops (layoutItems level vs ++ cs) := by
  cases vs with
  | nil => exact h
  | cons v vs => exact stops_cons rfl _

/-- An item that is ahead is read before the others. -/
theorem items_succ {α : Type} {item : Reader α} {first : Bool} {cs rest : List Char} {level : ℕ}
    {v : Json} {a : α} (hahead : anotherItem first cs = .ok (true, layout level v ++ rest))
    (hv : Reads item v a) (hrest : Stops rest) (limit : ℕ) :
    items item (limit + 1) first cs =
      (items item limit false rest).map fun p => (a :: p.1, p.2) := by
  have hread := hv level [] rest blank_nil hrest
  rw [List.nil_append] at hread
  rw [items, bind_of_ok hahead]
  simp only [if_true]
  rw [bind_of_ok hread]
  -- an error among the other items is passed on
  cases hitems : items item limit false rest with
  | ok p =>
    rw [bind_of_ok hitems]
    rfl
  | error e =>
    change (items item limit false rest).bind _ = _
    rw [hitems]
    rfl

/-- Where no item is ahead, there are no others. -/
theorem items_of_end {α : Type} {item : Reader α} {first : Bool} {cs rest : List Char}
    (hend : anotherItem first cs = .ok (false, rest)) (limit : ℕ) :
    items item (limit + 1) first cs = .ok ([], rest) := by
  rw [items, bind_of_ok hend]
  rfl

/-- The items behind the first one are read up to the end of the list. -/
theorem items_layoutItems {α : Type} {item : Reader α} {vs : List Json} {as : List α}
    (h : List.Forall₂ (Reads item) vs as) (level : ℕ) {blanks : List Char} (hblanks : Blank blanks)
    (rest : List Char) {limit : ℕ} (hlimit : vs.length < limit) :
    items item limit false (layoutItems level vs ++ (blanks ++ ']' :: rest)) =
      .ok (as, ']' :: rest) := by
  -- the limit has to last for each item and for one look at the end of the list
  induction h generalizing limit with
  | nil =>
    obtain ⟨limit, rfl⟩ := Nat.exists_eq_succ_of_ne_zero (Nat.ne_of_gt hlimit)
    exact items_of_end (anotherItem_end false hblanks rest) limit
  | @cons v a vs as hv hvs ih =>
    obtain ⟨limit, rfl⟩ := Nat.exists_eq_succ_of_ne_zero (Nat.ne_zero_of_lt hlimit)
    have hstops : Stops (layoutItems level vs ++ (blanks ++ ']' :: rest)) :=
      stops_layoutItems level vs (stops_append hblanks (stops_cons rfl rest))
    have hahead := anotherItem_next (blank_newLine level) level v
      (layoutItems level vs ++ (blanks ++ ']' :: rest))
    have htext : layoutItems level (v :: vs) ++ (blanks ++ ']' :: rest) =
        ',' :: (newLine level ++ (layout level v ++
          (layoutItems level vs ++ (blanks ++ ']' :: rest)))) := by
      simp [layoutItems]
    rw [htext, items_succ hahead hv hstops, ih (by simpa using hlimit)]
    rfl

/-- A list is read by reading its items. -/
theorem list_of_items {α : Type} {item : Reader α} {blanks inner rest : List Char} {as : List α}
    (hblanks : Blank blanks) (h : items item inner.length true inner = .ok (as, ']' :: rest)) :
    list item (blanks ++ '[' :: inner) = .ok (as, rest) := by
  rw [list, bind_of_ok (peek_append hblanks (by decide) inner)]
  simp only [if_true]
  rw [bind_of_ok (skip_cons '[' inner), bind_of_ok (get_apply inner), bind_of_ok h]
  rfl

/-- A list is read back if its items are. -/
theorem reads_list {α : Type} {item : Reader α} {vs : List Json} {as : List α}
    (h : List.Forall₂ (Reads item) vs as) : Reads (list item) (.array vs) as := by
  intro level blanks rest hblanks _
  cases h with
  | nil =>
    exact list_of_items hblanks (items_of_end (anotherItem_end true blank_nil rest) rest.length)
  | @cons v a vs as hv hvs =>
    set behind : List Char := newLine level ++ ']' :: rest
    set inner : List Char := newLine (level + 1) ++ (layout (level + 1) v ++
      (layoutItems (level + 1) vs ++ behind))
    have htext : layout level (.array (v :: vs)) ++ rest = '[' :: inner := by
      simp [layout, inner, behind]
    have hstops : Stops (layoutItems (level + 1) vs ++ behind) :=
      stops_layoutItems _ vs (stops_append (blank_newLine level) (stops_cons rfl rest))
    have hahead : anotherItem true inner = _ :=
      anotherItem_first (blank_newLine (level + 1)) (level + 1) v _
    -- each item but the first has its comma, so the text is longer than the list
    have hlonger : vs.length + 1 < inner.length := by
      have hlength := length_le_length_layoutItems (level + 1) vs
      simp only [inner, behind, newLine, List.length_append, List.length_cons]
      omega
    obtain ⟨limit, hlimit⟩ := Nat.exists_eq_succ_of_ne_zero (Nat.ne_zero_of_lt hlonger)
    rw [htext]
    refine list_of_items hblanks ?_
    rw [hlimit, items_succ hahead hv hstops,
      items_layoutItems hvs (level + 1) (blank_newLine level) rest (by omega)]
    rfl

/-- A list of things that are written and read alike is read back. -/
theorem reads_list_map {α β : Type} {item : Reader β} {write : α → Json} {back : α → β}
    {as : List α} (h : ∀ a ∈ as, Reads item (write a) (back a)) :
    Reads (list item) (.array (as.map write)) (as.map back) := by
  refine reads_list ?_
  rw [List.forall₂_map_left_iff, List.forall₂_map_right_iff, List.forall₂_same]
  exact h

/-! ## Records -/

/-- Reading the fields one after the other changes the record `a` to `a'`. -/
inductive ReadsFields {α : Type} (shape : Shape α) : α → List (String × Json) → α → Prop where
  /-- No field changes nothing. -/
  | nil (a : α) : ReadsFields shape a [] a
  /-- A field of the record is read, then the others are. -/
  | cons {a a' a'' : α} {name : String} {value : Json} {field : Field α}
      {fields : List (String × Json)}
      (hfield : shape.fields.find? (·.name = name) = some field)
      (hread : Reads (field.read a) value a') (hrest : ReadsFields shape a' fields a'') :
      ReadsFields shape a ((name, value) :: fields) a''

/-- Fields are read one after the other if a first part of them and the others are. -/
theorem ReadsFields.append {α : Type} {shape : Shape α} {a a' a'' : α}
    {fields others : List (String × Json)} (h : ReadsFields shape a fields a')
    (hothers : ReadsFields shape a' others a'') : ReadsFields shape a (fields ++ others) a'' := by
  induction h with
  | nil a => exact hothers
  | cons hfield hread _ ih => exact .cons hfield hread (ih hothers)

/-- At the brace that ends a record there is no other field. -/
theorem anotherField_end (first : Bool) {blanks : List Char} (hblanks : Blank blanks)
    (cs : List Char) :
    anotherField first (blanks ++ '\x7d' :: cs) = .ok (false, '\x7d' :: cs) := by
  rw [anotherField, bind_of_ok (peek_append hblanks (by decide) cs)]
  rfl

/-- At a quote there is a first field. -/
theorem anotherField_first {blanks : List Char} (hblanks : Blank blanks) (cs : List Char) :
    anotherField true (blanks ++ '"' :: cs) = .ok (true, '"' :: cs) := by
  rw [anotherField, bind_of_ok (peek_append hblanks (by decide) cs)]
  rfl

/-- Behind a comma there is another field. -/
theorem anotherField_next {blanks : List Char} (hblanks : Blank blanks) (cs : List Char) :
    anotherField false (',' :: (blanks ++ '"' :: cs)) = .ok (true, '"' :: cs) := by
  rw [anotherField, bind_of_ok (peek_cons (by decide) _)]
  simp only [Char.reduceEq, Bool.false_eq_true, if_false, if_true]
  rw [bind_of_ok (skip_cons _ _), bind_of_ok (peek_append hblanks (by decide) cs)]
  rfl

/-- A record has at most as many fields as characters. -/
theorem length_le_length_layoutFields (level : ℕ) (fields : List (String × Json)) :
    fields.length ≤ (layoutFields level fields).length := by
  induction fields with
  | nil => exact Nat.zero_le _
  | cons field fields ih =>
    simp only [layoutFields, List.length_cons, List.length_append]
    omega

/-- No number goes on where further fields or the end of a record follow. -/
theorem stops_layoutFields (level : ℕ) (fields : List (String × Json)) {cs : List Char}
    (h : Stops cs) : Stops (layoutFields level fields ++ cs) := by
  cases fields with
  | nil => exact h
  | cons field fields => exact stops_cons rfl _

/-- A field that is ahead is read before the others. -/
theorem namedFields_succ {α : Type} {shape : Shape α} {first : Bool} {given : List String}
    {a a' : α} {name : String} {value : Json} {field : Field α} {cs rest : List Char} {level : ℕ}
    (hahead : anotherField first cs = .ok (true,
      '"' :: (name.toList.flatMap quotedChar ++ '"' :: ':' :: ' ' ::
        (layout level value ++ rest))))
    (hfield : shape.fields.find? (·.name = name) = some field) (hgiven : name ∉ given)
    (hread : Reads (field.read a) value a') (hrest : Stops rest) (limit : ℕ) :
    namedFields shape (limit + 1) first given a cs =
      namedFields shape limit false (name :: given) a' rest := by
  have hcolon : colon (':' :: ' ' :: (layout level value ++ rest)) =
      .ok ((), ' ' :: (layout level value ++ rest)) := rfl
  -- one blank stands between the colon and the value
  have hvalue := hread level [' '] rest blank_space hrest
  rw [namedFields, bind_of_ok hahead]
  simp only [if_true]
  rw [bind_of_ok (skip_cons _ _), bind_of_ok (stringBody_quoted name _)]
  simp only [hfield, List.contains_eq_mem, hgiven, decide_false, Bool.false_eq_true, if_false]
  rw [bind_of_ok hcolon]
  exact bind_of_ok hvalue _

/-- Where no field is ahead, the record is as it was. -/
theorem namedFields_of_end {α : Type} {shape : Shape α} {first : Bool} {given : List String}
    {a : α} {cs rest : List Char} (hend : anotherField first cs = .ok (false, rest)) (limit : ℕ) :
    namedFields shape (limit + 1) first given a cs = .ok ((given, a), rest) := by
  rw [namedFields, bind_of_ok hend]
  rfl

/-- The fields behind the first one are read up to their end. -/
theorem namedFields_layoutFields {α : Type} {shape : Shape α} {a a' : α}
    {fields : List (String × Json)} (h : ReadsFields shape a fields a')
    (hnodup : (fields.map (·.1)).Nodup) {given : List String}
    (hnew : ∀ name ∈ fields.map (·.1), name ∉ given) (level : ℕ) {blanks : List Char}
    (hblanks : Blank blanks) (rest : List Char) {limit : ℕ} (hlimit : fields.length < limit) :
    namedFields shape limit false given a
        (layoutFields level fields ++ (blanks ++ '\x7d' :: rest)) =
      .ok (((fields.map (·.1)).reverse ++ given, a'), '\x7d' :: rest) := by
  -- the names given so far grow with each field, so they are part of the induction
  induction h generalizing limit given with
  | nil a =>
    obtain ⟨limit, rfl⟩ := Nat.exists_eq_succ_of_ne_zero (Nat.ne_of_gt hlimit)
    exact namedFields_of_end (anotherField_end false hblanks rest) limit
  | @cons a a' a'' name value field fields hfield hread hfields ih =>
    obtain ⟨limit, rfl⟩ := Nat.exists_eq_succ_of_ne_zero (Nat.ne_zero_of_lt hlimit)
    rw [List.map_cons, List.nodup_cons] at hnodup
    have hstops : Stops (layoutFields level fields ++ (blanks ++ '\x7d' :: rest)) :=
      stops_layoutFields level fields (stops_append hblanks (stops_cons rfl rest))
    have hahead := anotherField_next (blank_newLine level) (name.toList.flatMap quotedChar ++
      '"' :: ':' :: ' ' :: (layout level value ++
        (layoutFields level fields ++ (blanks ++ '\x7d' :: rest))))
    have htext : layoutFields level ((name, value) :: fields) ++ (blanks ++ '\x7d' :: rest) =
        ',' :: (newLine level ++ '"' :: (name.toList.flatMap quotedChar ++
          '"' :: ':' :: ' ' :: (layout level value ++
            (layoutFields level fields ++ (blanks ++ '\x7d' :: rest))))) := by
      simp [layoutFields, quoted]
    -- the names differ from each other, so the others are new also behind this one
    have hnew' : ∀ other ∈ fields.map (·.1), other ∉ name :: given := by
      intro other hother
      rw [List.mem_cons, not_or]
      exact ⟨fun heq => hnodup.1 (heq ▸ hother), hnew other (List.mem_cons_of_mem name hother)⟩
    rw [htext, namedFields_succ hahead hfield (hnew name List.mem_cons_self) hread hstops,
      ih hnodup.2 hnew' (by simpa using hlimit)]
    simp

/-- All fields that a record has to have are there. -/
theorem complete_of_subset {α : Type} {shape : Shape α} {given : List String}
    (h : ∀ field ∈ shape.fields, field.required = true → field.name ∈ given) (cs : List Char) :
    complete shape given cs = .ok ((), cs) := by
  have hnone : shape.fields.find? (fun f => f.required && !given.contains f.name) = none := by
    rw [List.find?_eq_none]
    intro field hfield
    simpa using h field hfield
  rw [complete, hnone]
  rfl

/-- A record is read by reading its fields. -/
theorem record_of_namedFields {α : Type} {shape : Shape α} {blank a : α}
    {blanks inner rest : List Char} {given : List String} (hblanks : Blank blanks)
    (h : namedFields shape inner.length true [] blank inner = .ok ((given, a), '\x7d' :: rest))
    (hgiven : ∀ field ∈ shape.fields, field.required = true → field.name ∈ given) :
    record shape blank (blanks ++ '\x7b' :: inner) = .ok (a, rest) := by
  rw [record, bind_of_ok (peek_append hblanks (by decide) inner)]
  simp only [Char.reduceEq, if_false, if_true]
  rw [bind_of_ok (skip_cons _ inner), bind_of_ok (get_apply inner), bind_of_ok h]
  simp only
  rw [bind_of_ok (complete_of_subset hgiven _)]
  rfl

/-- A record is read back if its fields are, provided that none is given twice and that none is
missing. -/
theorem reads_record {α : Type} {shape : Shape α} {blank a : α} {fields : List (String × Json)}
    (h : ReadsFields shape blank fields a) (hnodup : (fields.map (·.1)).Nodup)
    (hgiven : ∀ field ∈ shape.fields, field.required = true → field.name ∈ fields.map (·.1)) :
    Reads (record shape blank) (.object fields) a := by
  intro level blanks rest hblanks _
  cases h with
  | nil =>
    exact record_of_namedFields hblanks
      (namedFields_of_end (anotherField_end true blank_nil rest) rest.length) hgiven
  | @cons _ a' _ name value field fields hfield hread hfields =>
    rw [List.map_cons, List.nodup_cons] at hnodup
    set behind : List Char := newLine level ++ '\x7d' :: rest
    set inner : List Char := newLine (level + 1) ++ '"' :: (name.toList.flatMap quotedChar ++
      '"' :: ':' :: ' ' :: (layout (level + 1) value ++
        (layoutFields (level + 1) fields ++ behind)))
    have htext : layout level (.object ((name, value) :: fields)) ++ rest = '\x7b' :: inner := by
      simp [layout, quoted, inner, behind]
    have hstops : Stops (layoutFields (level + 1) fields ++ behind) :=
      stops_layoutFields _ fields (stops_append (blank_newLine level) (stops_cons rfl rest))
    have hahead : anotherField true inner = _ := anotherField_first (blank_newLine (level + 1)) _
    -- each field has its quotes, so the text is longer than the number of fields
    have hlonger : fields.length + 1 < inner.length := by
      have hlength := length_le_length_layoutFields (level + 1) fields
      simp only [inner, behind, newLine, List.length_append, List.length_cons]
      omega
    obtain ⟨limit, hlimit⟩ := Nat.exists_eq_succ_of_ne_zero (Nat.ne_zero_of_lt hlonger)
    have hnew : ∀ other ∈ fields.map (·.1), other ∉ [name] := by
      intro other hother heq
      exact hnodup.1 (List.mem_singleton.1 heq ▸ hother)
    have hothers := namedFields_layoutFields hfields hnodup.2 hnew (level + 1)
      (blank_newLine level) rest (show fields.length < limit by omega)
    rw [htext]
    refine record_of_namedFields hblanks ?_ fun field hmem hrequired =>
      (?_ : field.name ∈ (fields.map (·.1)).reverse ++ [name])
    · rw [hlimit, namedFields_succ hahead hfield List.not_mem_nil hread hstops, hothers]
    · simpa [or_comm] using hgiven field hmem hrequired

/-- What is written as a whole text is read back. -/
theorem Reads.readAll_pretty {α : Type} {reader : Reader α} {v : Json} {a : α}
    (h : Reads reader v a) : readAll reader v.pretty = .ok a := by
  have hread := h 0 [] [] blank_nil stops_nil
  rw [List.nil_append, List.append_nil] at hread
  rw [readAll, pretty, String.toList_ofList, hread]
  rfl

end Reader

end LoaderLint.Json
