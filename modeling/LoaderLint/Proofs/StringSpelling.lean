import LoaderLint.Proofs.Numerals
import LoaderLint.Proofs.SyntaxTree
import Mathlib.Data.List.TakeWhile

/-!
# Spellings of strings

There are many ways to write a character in a string literal: as it is, by a letter for a control
character, by its number in several forms, or behind a backslash that changes nothing. Between
characters a line of the source may be broken off.

The module introduces:

* `Escapes` — the escape sequences that stand for a character;
* `continuations` — the escape sequences that stand for nothing;
* `Spells` — the parts of a literal that spell a text;
* `textFrom?`, `cutEscapedChar?` — decoding where digits are cut out of the source by bytes.

The forms overlap in how they begin, so each of them has to be shown to reach the branch that is
meant for it (`Escapes.escapeValue_eq`). The main result is `Node.stringValue?_of_spells`.
-/

namespace LoaderLint.Script

open Text (IsNumeral charOfDigits? digitValue)

/-! ## Spellings -/

/-- The letters that stand for control characters behind a backslash. -/
def controlLetters : List (Char × Char) :=
  [('n', '\n'), ('t', '\t'), ('r', '\r'), ('b', '\x08'), ('f', '\x0c'), ('v', '\x0b')]

/-- The characters that end a line inside a string literal. -/
def lineTerminators : List Char := ['\n', '\r', '\u2028', '\u2029']

/-- A character that stands for itself behind a backslash: no letter with a meaning of its own, no
digit and no end of a line. -/
def StandsForItself (c : Char) : Prop :=
  c ∉ ['n', 't', 'r', 'b', 'f', 'v', 'x', 'u'] ∧ c.isDigit = false ∧ c ∉ lineTerminators

/-- The escape sequence stands for the character. -/
inductive Escapes (c : Char) : List Char → Prop
  /-- A control character by its letter. -/
  | control {letter : Char} : (letter, c) ∈ controlLetters → Escapes c ['\\', letter]
  /-- The number in two hexadecimal digits. -/
  | byte {digits : List Char} :
      digits.length = 2 → IsNumeral 16 c.toNat digits → Escapes c ('\\' :: 'x' :: digits)
  /-- The number in four hexadecimal digits. -/
  | unit {digits : List Char} :
      digits.length = 4 → IsNumeral 16 c.toNat digits → Escapes c ('\\' :: 'u' :: digits)
  /-- The number in braces, in any number of hexadecimal digits. -/
  | codePoint {digits : List Char} :
      IsNumeral 16 c.toNat digits → Escapes c ('\\' :: 'u' :: '\x7b' :: (digits ++ ['\x7d']))
  /-- The number in at most three octal digits. -/
  | octal {digits : List Char} :
      digits.length ≤ 3 → c.toNat ≤ 0o377 → IsNumeral 8 c.toNat digits → Escapes c ('\\' :: digits)
  /-- The character itself. -/
  | itself : StandsForItself c → Escapes c ['\\', c]

/-- The escape sequences that break off a line of the source. -/
def continuations : List (List Char) :=
  [['\\', '\n'], ['\\', '\r'], ['\\', '\r', '\n'], ['\\', '\u2028'], ['\\', '\u2029']]

/-- The parts of a string literal spell the text. -/
inductive Spells : List Char → List Node → Prop
  /-- Nothing is left. -/
  | nothing : Spells [] []
  /-- Characters that are written as they are. -/
  | raw {n : Node} {text : List Char} {rest : List Node} :
      n.kind = .fragment → Spells text rest → Spells (n.text.toList ++ text) (n :: rest)
  /-- A character that is written as an escape sequence. -/
  | escape {n : Node} {c : Char} {text : List Char} {rest : List Node} :
      n.kind = .escape → Escapes c n.text.toList → Spells text rest →
      Spells (c :: text) (n :: rest)
  /-- A line of the source that is broken off. -/
  | continuation {n : Node} {text : List Char} {rest : List Node} :
      n.kind = .escape → n.text.toList ∈ continuations → Spells text rest → Spells text (n :: rest)

/-! ## Decoding -/

section

variable {c : Char} {token digits rest : List Char}

/-- An escape stands for what is read behind its backslash. -/
theorem escapeValue_cons (body : List Char) :
    escapeValue ('\\' :: body) = (escapedChar? body).toList := rfl

/-- What a backslash makes of a character that is no letter with a meaning of its own. -/
theorem escapedChar?_of_not_letter (h : c ∉ ['n', 't', 'r', 'b', 'f', 'v', 'x', 'u']) :
    escapedChar? (c :: rest) =
      if c ∈ lineTerminators then none
      else if '0' ≤ c ∧ c ≤ '7' then charOfDigits? 8 (c :: rest)
      else some c := by
  simp only [List.mem_cons, List.not_mem_nil, or_false, not_or] at h
  simp only [lineTerminators, List.mem_cons, List.not_mem_nil, or_false]
  rw [escapedChar?] <;> simp [h]

/-- Braces are taken off on both sides, up to the first character that is none. -/
theorem withoutBraces_append {opening closing : List Char} (hopening : ∀ d ∈ opening, d = '\x7b')
    (hdigits : ∀ d ∈ digits, d ≠ '\x7b' ∧ d ≠ '\x7d') (hclosing : ∀ d ∈ closing, d = '\x7d') :
    withoutBraces (opening ++ (digits ++ closing)) = digits := by
  have hfront : (digits ++ closing).dropWhile (· = '\x7b') = digits ++ closing := by
    refine List.dropWhile_eq_self_iff.2 fun hl => ?_
    have hfirst : (digits ++ closing)[0] ∈ digits ++ closing := List.getElem_mem hl
    rw [decide_eq_true_eq]
    rcases List.mem_append.1 hfirst with hd | hd
    · exact (hdigits _ hd).1
    · rw [hclosing _ hd]
      decide
  have hback : digits.reverse.dropWhile (· = '\x7d') = digits.reverse := by
    refine List.dropWhile_eq_self_iff.2 fun hl => ?_
    rw [decide_eq_true_eq]
    exact (hdigits _ (List.mem_reverse.1 (List.getElem_mem hl))).2
  rw [withoutBraces, List.dropWhile_append_of_pos (by simpa using hopening), hfront,
    List.reverse_append, List.dropWhile_append_of_pos (by simpa using hclosing), hback,
    List.reverse_reverse]

/-- There are no braces among the digits of a numeral. -/
theorem ne_brace_of_isNumeral {n : ℕ} (h : IsNumeral 16 n digits) :
    ∀ d ∈ digits, d ≠ '\x7b' ∧ d ≠ '\x7d' := by
  intro d hd
  have hsmall : digitValue d < 16 :=
    (Text.digitsValue?_eq_some_iff.1 (h.digitsValue?_eq (by decide) (by decide))).2.1 d hd
  constructor
  · rintro rfl
    exact absurd hsmall (by decide)
  · rintro rfl
    exact absurd hsmall (by decide)

/-- A numeral has no braces to be taken off. -/
theorem withoutBraces_of_isNumeral {n : ℕ} (h : IsNumeral 16 n digits) :
    withoutBraces digits = digits := by
  simpa using withoutBraces_append (List.forall_mem_nil _) (ne_brace_of_isNumeral h)
    (List.forall_mem_nil _)

/-- An octal digit begins an octal escape and nothing else. -/
theorem escapedChar?_of_octal {d : Char} (hd : digitValue d < 8) :
    escapedChar? (d :: rest) = charOfDigits? 8 (d :: rest) := by
  have hoctal : '0' ≤ d ∧ d ≤ '7' := by
    unfold digitValue at hd
    split at hd
    · rename_i hdecimal
      have hnumber : 48 ≤ d.toNat ∧ d.toNat ≤ 57 := hdecimal
      change d.toNat - 48 < 8 at hd
      show 48 ≤ d.toNat ∧ d.toNat ≤ 55
      omega
    · -- letters and all else have greater values
      split at hd
      · omega
      · split at hd <;> omega
  have hother {l : List Char} (hl : l.all (8 ≤ digitValue ·) = true) : d ∉ l := by
    intro hmem
    exact absurd (of_decide_eq_true (List.all_eq_true.1 hl d hmem)) (Nat.not_le.2 hd)
  rw [escapedChar?_of_not_letter (hother (by decide)), if_neg (hother (by decide)), if_pos hoctal]

/-- An escape sequence is decoded to the character that it stands for. -/
theorem Escapes.escapeValue_eq (h : Escapes c token) : escapeValue token = [c] := by
  cases h with
  | control hletter =>
    simp only [controlLetters, List.mem_cons, Prod.mk.injEq, List.not_mem_nil, or_false] at hletter
    rcases hletter with ⟨rfl, rfl⟩ | ⟨rfl, rfl⟩ | ⟨rfl, rfl⟩ | ⟨rfl, rfl⟩ | ⟨rfl, rfl⟩ | ⟨rfl, rfl⟩
    all_goals rfl
  | byte _ hdigits =>
    change (charOfDigits? 16 _).toList = [c]
    rw [hdigits.charOfDigits?_eq (by decide) (by decide), Option.toList_some]
  | @unit digits _ hdigits =>
    change (charOfDigits? 16 (withoutBraces digits)).toList = [c]
    rw [withoutBraces_of_isNumeral hdigits, hdigits.charOfDigits?_eq (by decide) (by decide),
      Option.toList_some]
  | @codePoint digits hdigits =>
    have hbraces : withoutBraces (['\x7b'] ++ (digits ++ ['\x7d'])) = digits :=
      withoutBraces_append (by simp) (ne_brace_of_isNumeral hdigits) (by simp)
    change (charOfDigits? 16 (withoutBraces (['\x7b'] ++ (digits ++ ['\x7d'])))).toList = [c]
    rw [hbraces, hdigits.charOfDigits?_eq (by decide) (by decide), Option.toList_some]
  | @octal digits _ _ hdigits =>
    have hvalue := hdigits.charOfDigits?_eq (by decide) (by decide)
    obtain ⟨hne, hsmall, -⟩ :=
      Text.digitsValue?_eq_some_iff.1 (hdigits.digitsValue?_eq (by decide) (by decide))
    obtain ⟨d, rest, rfl⟩ := List.exists_cons_of_ne_nil hne
    rw [escapeValue_cons, escapedChar?_of_octal (hsmall d List.mem_cons_self), hvalue,
      Option.toList_some]
  | itself hself =>
    obtain ⟨hletter, hdigit, hbreak⟩ := hself
    have hoctal : ¬('0' ≤ c ∧ c ≤ '7') := by
      rintro ⟨hlow, hhigh⟩
      have hnine : c ≤ '9' := Char.le_trans hhigh (by decide)
      have htrue : c.isDigit = true :=
        Bool.and_eq_true_iff.2 ⟨decide_eq_true hlow, decide_eq_true hnine⟩
      exact absurd (htrue.symm.trans hdigit) (by decide)
    rw [escapeValue_cons, escapedChar?_of_not_letter hletter, if_neg hbreak, if_neg hoctal,
      Option.toList_some]

/-- A broken line is decoded to nothing. -/
theorem escapeValue_of_mem_continuations (h : token ∈ continuations) : escapeValue token = [] := by
  simp only [continuations, List.mem_cons, List.not_mem_nil, or_false] at h
  rcases h with rfl | rfl | rfl | rfl | rfl
  all_goals rfl

end

/-- What the parts of a literal stand for is the text that they spell. -/
theorem Spells.flatMap_partValue_eq {text : List Char} {parts : List Node}
    (h : Spells text parts) :
    parts.flatMap Node.partValue = text := by
  induction h with
  | nothing => rfl
  | raw hkind _ ih => rw [List.flatMap_cons, ih, Node.partValue, hkind]
  | escape hkind hescapes _ ih =>
    rw [List.flatMap_cons, ih, Node.partValue, hkind, hescapes.escapeValue_eq,
      List.singleton_append]
  | continuation hkind hbreak _ ih =>
    rw [List.flatMap_cons, ih, Node.partValue, hkind, escapeValue_of_mem_continuations hbreak,
      List.nil_append]

/-! ## Cutting the source by bytes -/

/-- The text from a byte on. There is none if the text ends before the byte or if the byte is
inside a character. -/
def textFrom? (s : String) (byte : ℕ) : Option String :=
  (s.pos? ⟨byte⟩).map fun p => (s.sliceFrom p).copy

/-- The character that an escape stands for, given by what follows its backslash, where digits are
what follows the first byte of that. It fails if the source cannot be cut there. -/
def cutEscapedChar? (body : String) : Option (Option Char) :=
  match body.toList with
  | 'x' :: _ => (textFrom? body 1).map fun digits => charOfDigits? 16 digits.toList
  | 'u' :: _ => (textFrom? body 1).map fun digits => charOfDigits? 16 (withoutBraces digits.toList)
  | cs => some (escapedChar? cs)

/-- From the end of a text on, the text behind it is read. -/
theorem textFrom?_append (s t : String) : textFrom? (s ++ t) s.utf8ByteSize = some t := by
  have hvalid : (⟨s.utf8ByteSize⟩ : String.Pos.Raw).IsValid (s ++ t) :=
    String.Pos.Raw.isValid_iff_exists_append.2 ⟨s, t, rfl, rfl⟩
  have hpos : (s ++ t).pos? ⟨s.utf8ByteSize⟩ = some ((s ++ t).pos ⟨s.utf8ByteSize⟩ hvalid) := by
    rw [String.pos?, String.Slice.pos?,
      dif_pos (String.Pos.Raw.isValidForSlice_eq_true_iff.2 hvalid.toSlice)]
    rfl
  rw [textFrom?, hpos, Option.map_some]
  congr 1
  exact String.Pos.Splits.eq_right (String.Pos.splits _) ⟨rfl, rfl⟩

/-- A text can be cut behind its first character if that is a single byte. -/
theorem textFrom?_one {c : Char} (hc : c.utf8Size = 1) (rest : List Char) :
    textFrom? (String.ofList (c :: rest)) 1 = some (String.ofList rest) := by
  have hsplit : String.ofList (c :: rest) = String.ofList [c] ++ String.ofList rest := by
    rw [← String.ofList_append, List.singleton_append]
  have hsize : (String.ofList [c]).utf8ByteSize = 1 := by
    simp [hc]
  rw [hsplit, ← hsize, textFrom?_append]

/-- The source can always be cut where digits begin, and what is behind the cut are the digits. -/
theorem cutEscapedChar?_eq (body : String) :
    cutEscapedChar? body = some (escapedChar? body.toList) := by
  obtain ⟨cs, rfl⟩ : ∃ cs, body = String.ofList cs := ⟨body.toList, String.ofList_toList.symm⟩
  rw [cutEscapedChar?, String.toList_ofList]
  split
  · rw [textFrom?_one rfl, Option.map_some, String.toList_ofList]
    rfl
  · rw [textFrom?_one rfl, Option.map_some, String.toList_ofList]
    rfl
  · rfl

namespace Node

/-- However a text is spelled by the parts of a string literal, the value of the literal is this
text, and no escape sequence makes a cut fail: not at the end of the source and not inside a
character. -/
theorem stringValue?_of_spells {n : Node} {s : String} (hkind : n.kind = .string)
    (hspells : Spells s.toList n.children) :
    n.stringValue? = some s ∧
      ∀ body, cutEscapedChar? body = some (escapedChar? body.toList) := by
  refine ⟨?_, cutEscapedChar?_eq⟩
  rw [stringValue?, if_pos hkind, hspells.flatMap_partValue_eq, String.ofList_toList]

open Script.Node (unplaced)

/-- All forms in one literal, with two broken lines among them. -/
theorem stringValue?_of_spells_mixed :
    let fragment (text : String) := unplaced .fragment .plain text []
    let escape (text : String) := unplaced .escape .plain text []
    let literal := unplaced .string .plain "" [fragment "é/", escape "\\t", escape "\\x4A",
      escape "\\\n", escape "\\u00e9", escape "\\u\x7b0001F600\x7d", escape "\\101", escape "\\'",
      escape "\\\r\n", fragment "z"]
    Spells "é/\tJé😀A'z".toList literal.children ∧ literal.stringValue? = some "é/\tJé😀A'z" := by
  intro fragment escape literal
  have htab : Escapes '\t' "\\t".toList := by
    simpa using @Escapes.control '\t' 't' (by decide)
  have hbyte : Escapes 'J' "\\x4A".toList := by
    simpa using @Escapes.byte 'J' ['4', 'A'] rfl ⟨0, rfl⟩
  have hunit : Escapes 'é' "\\u00e9".toList := by
    simpa using @Escapes.unit 'é' ['0', '0', 'e', '9'] rfl ⟨2, rfl⟩
  have hpoint : Escapes '😀' "\\u\x7b0001F600\x7d".toList := by
    simpa using @Escapes.codePoint '😀' ['0', '0', '0', '1', 'F', '6', '0', '0'] ⟨3, rfl⟩
  have hoctal : Escapes 'A' "\\101".toList := by
    simpa using @Escapes.octal 'A' ['1', '0', '1'] (by decide) (by decide) ⟨0, rfl⟩
  have hquote : Escapes '\'' "\\'".toList := by
    simpa using @Escapes.itself '\'' ⟨by decide, by decide, by decide⟩
  have hbreak : "\\\n".toList ∈ continuations := by decide
  have hbreak' : "\\\r\n".toList ∈ continuations := by decide
  have hspells : Spells "é/\tJé😀A'z".toList literal.children := by
    have htext : "é/\tJé😀A'z".toList =
        "é/".toList ++ '\t' :: 'J' :: 'é' :: '😀' :: 'A' :: '\'' :: ("z".toList ++ []) := by decide
    rw [htext]
    refine .raw (n := fragment "é/") rfl (.escape (n := escape "\\t") rfl htab ?_)
    refine .escape (n := escape "\\x4A") rfl hbyte
      (.continuation (n := escape "\\\n") rfl hbreak ?_)
    refine .escape (n := escape "\\u00e9") rfl hunit ?_
    refine .escape (n := escape "\\u\x7b0001F600\x7d") rfl hpoint ?_
    refine .escape (n := escape "\\101") rfl hoctal (.escape (n := escape "\\'") rfl hquote ?_)
    refine .continuation (n := escape "\\\r\n") rfl hbreak' ?_
    exact .raw (n := fragment "z") rfl .nothing
  exact ⟨hspells, (stringValue?_of_spells rfl hspells).1⟩

end Node

end LoaderLint.Script
