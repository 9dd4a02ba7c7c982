import LoaderLint.Proofs.ListedNames
import LoaderLint.Proofs.StringSpelling

/-!
# Characters spelled as surrogates

A character with a number above `0xffff` can be spelled by two escapes of four digits, one for each
half of its pair of surrogates. Escapes are decoded one at a time, and half of a pair is no
character, so both escapes are decoded to nothing and the character is missing from the value.

The module introduces:

* `EscapesAsPair` — two escapes that spell a character together;
* `Written`, `SpellsWithPairs` — the parts of a literal that spell characters, some of them as
  pairs;
* `Written.text`, `Written.unpaired` — the text that is spelled, and the same without the
  characters that are spelled as pairs.

The main result is `Node.stringValue?_of_pairs`: the value of a literal is the text without these
characters, so it is the text exactly if there are none, and the same is true of the names that a
list has to have for a dependency to be tolerated.
-/

namespace LoaderLint.Script

open Text (IsNumeral charOfDigits?)

/-- The number of the character that two surrogates stand for. -/
def pairValue (lead trail : ℕ) : ℕ := (lead - 0xd800) * 0x400 + (trail - 0xdc00) + 0x10000

/-- The two escape sequences stand for the character together: they give the halves of its pair of
surrogates in four digits each. -/
inductive EscapesAsPair (c : Char) : List Char → List Char → Prop
  | mk {lead trail : ℕ} {digits digits' : List Char} :
      0xd800 ≤ lead ∧ lead ≤ 0xdbff → 0xdc00 ≤ trail ∧ trail ≤ 0xdfff →
      c.toNat = pairValue lead trail →
      digits.length = 4 → IsNumeral 16 lead digits →
      digits'.length = 4 → IsNumeral 16 trail digits' →
      EscapesAsPair c ('\\' :: 'u' :: digits) ('\\' :: 'u' :: digits')

/-- A character of a literal. -/
structure Written where
  /-- The character. -/
  char : Char
  /-- Whether it is spelled as a pair of surrogates. -/
  paired : Bool
deriving DecidableEq

namespace Written

/-- Characters none of which is spelled as a pair. -/
def plain (text : List Char) : List Written := text.map (⟨·, false⟩)

/-- The text that the characters make. -/
def text (written : List Written) : String := String.ofList (written.map char)

/-- The text without the characters that are spelled as pairs. -/
def unpaired (written : List Written) : String :=
  String.ofList ((written.filter (!·.paired)).map char)

end Written

/-- The parts of a string literal spell the characters, between pairs of surrogates in any other
way. -/
inductive SpellsWithPairs : List Written → List Node → Prop
  /-- There are no pairs left. -/
  | plain {text : List Char} {parts : List Node} :
      Spells text parts → SpellsWithPairs (Written.plain text) parts
  /-- A character that is spelled as a pair, with what stands before it. -/
  | pair {text : List Char} {parts rest : List Node} {c : Char} {lead trail : Node}
      {written : List Written} :
      Spells text parts → lead.kind = .escape → trail.kind = .escape →
      EscapesAsPair c lead.text.toList trail.text.toList → SpellsWithPairs written rest →
      SpellsWithPairs (Written.plain text ++ ⟨c, true⟩ :: written) (parts ++ lead :: trail :: rest)

/-! ## Decoding halves -/

/-- A surrogate is no character. -/
theorem charOf?_of_surrogate {n : ℕ} (h : 0xd800 ≤ n ∧ n ≤ 0xdfff) : Text.charOf? n = none := by
  have hinvalid : ¬n.isValidChar := by
    rintro (hlow | hhigh) <;> omega
  rw [Text.charOf?, if_neg hinvalid]

/-- Half of a pair is decoded to nothing. -/
theorem escapeValue_of_surrogate {n : ℕ} {digits : List Char} (h : 0xd800 ≤ n ∧ n ≤ 0xdfff)
    (hdigits : IsNumeral 16 n digits) : escapeValue ('\\' :: 'u' :: digits) = [] := by
  change (charOfDigits? 16 (withoutBraces digits)).toList = []
  rw [withoutBraces_of_isNumeral hdigits, charOfDigits?,
    hdigits.digitsValue?_eq (by decide) (by decide), Option.bind_some, charOf?_of_surrogate h,
    Option.toList_none]

/-- The two escapes of a pair stand for nothing, each on its own. -/
theorem EscapesAsPair.escapeValue_eq {c : Char} {lead trail : List Char}
    (h : EscapesAsPair c lead trail) : escapeValue lead = [] ∧ escapeValue trail = [] := by
  obtain ⟨hlead, htrail, -, -, hdigits, -, hdigits'⟩ := h
  exact ⟨escapeValue_of_surrogate (by omega) hdigits, escapeValue_of_surrogate (by omega) hdigits'⟩

/-! ## Values of literals -/

namespace Written

theorem filter_plain (text : List Char) : (plain text).filter (!·.paired) = plain text := by
  simp [plain]

theorem map_char_plain (text : List Char) : (plain text).map char = text := by
  simp [plain, Function.comp_def]

/-- Leaving characters out changes the text if there are any. -/
theorem unpaired_eq_text_iff {written : List Written} :
    unpaired written = text written ↔ ∀ w ∈ written, w.paired = false := by
  rw [unpaired, text, String.ofList_inj]
  constructor
  · intro h
    have hlength := congrArg List.length h
    rw [List.length_map, List.length_map, List.length_filter_eq_length_iff] at hlength
    exact fun w hw => by simpa using hlength w hw
  · intro h
    rw [List.filter_eq_self.2 fun w hw => by simp [h w hw]]

end Written

/-- What the parts of a literal stand for are the characters that are not spelled as pairs. -/
theorem SpellsWithPairs.flatMap_partValue_eq {written : List Written} {parts : List Node}
    (h : SpellsWithPairs written parts) :
    parts.flatMap Node.partValue = (written.filter (!·.paired)).map Written.char := by
  induction h with
  | plain hspells =>
    rw [hspells.flatMap_partValue_eq, Written.filter_plain, Written.map_char_plain]
  | @pair text parts rest c lead trail written hspells hlead htrail hpair _ ih =>
    obtain ⟨hleadValue, htrailValue⟩ := hpair.escapeValue_eq
    have hhalf : lead.partValue = [] ∧ trail.partValue = [] := by
      rw [Node.partValue, Node.partValue, hlead, htrail]
      exact ⟨hleadValue, htrailValue⟩
    rw [List.flatMap_append, List.flatMap_cons, List.flatMap_cons, hspells.flatMap_partValue_eq,
      hhalf.1, hhalf.2, ih, List.filter_append, List.map_append, Written.filter_plain,
      Written.map_char_plain]
    rfl

/-- A string with pairs is read without them. -/
theorem SpellsWithPairs.stringValue?_eq {n : Node} {written : List Written}
    (h : SpellsWithPairs written n.children) (hkind : n.kind = .string) :
    n.stringValue? = some (Written.unpaired written) := by
  rw [Node.stringValue?, if_pos hkind, h.flatMap_partValue_eq, Written.unpaired]

namespace Node

/-- The value of a literal is the text that it spells without the characters that are spelled as
pairs of surrogates. So it is the whole text exactly if there are no such characters. The literal
names this value where it is a dependency or a slot of an array of dependencies, and a list of
names tolerates it if this value is among them; that the list has to have the whole text is true
again exactly if there are no such characters. -/
theorem stringValue?_of_pairs {n : Node} {written : List Written} (hkind : n.kind = .string)
    (hspells : SpellsWithPairs written n.children) :
    n.stringValue? = some (Written.unpaired written) ∧
      (n.stringValue? = some (Written.text written) ↔ ∀ w ∈ written, w.paired = false) ∧
      Dependencies.of n = .known [some (Written.unpaired written)] ∧
      (∀ (array : Node) (names : List (Option String)) (i : ℕ), array.kind = .array →
        Dependencies.of array = .known names → array.elements[i]? = some (some n) →
        names[i]? = some (some (Written.unpaired written))) ∧
      (∀ listed, (SurplusPolicy.ofNames listed).tolerates [n.stringValue?] = true ↔
        Written.unpaired written ∈ listed) ∧
      ((∀ listed, (SurplusPolicy.ofNames listed).tolerates [n.stringValue?] = true ↔
        Written.text written ∈ listed) ↔ ∀ w ∈ written, w.paired = false) := by
  have hvalue := hspells.stringValue?_eq hkind
  have hlisted (listed : List String) :
      (SurplusPolicy.ofNames listed).tolerates [n.stringValue?] = true ↔
        Written.unpaired written ∈ listed := by
    rw [hvalue, SurplusPolicy.tolerates_ofNames_singleton]
  rw [← Written.unpaired_eq_text_iff]
  refine ⟨hvalue, by rw [hvalue, Option.some.injEq], ?_, ?_, hlisted, ?_⟩
  · rw [Dependencies.of, hkind, hvalue]
  · intro array names i harray hnames hslot
    simp only [Dependencies.of, harray] at hnames
    split at hnames
    · cases hnames
    · obtain rfl := Dependencies.known.inj hnames
      rw [List.getElem?_map, hslot, Option.map_some, Option.bind_some, hvalue]
  · simp only [hlisted]
    -- a list with nothing but the whole text tells the two apart
    refine ⟨fun h => ?_, fun h listed => by rw [h]⟩
    exact List.mem_singleton.1 ((h [Written.text written]).2 (List.mem_singleton_self _))

open Script.Node (unplaced)

/-- A character as it is, a pair with digits of either case, and a control character. -/
theorem stringValue?_of_pairs_mixed :
    let fragment (text : String) := unplaced .fragment .plain text []
    let escape (text : String) := unplaced .escape .plain text []
    let literal := unplaced .string .plain ""
      [fragment "a", escape "\\uD83D", escape "\\ude00", escape "\\n"]
    let written : List Written := [⟨'a', false⟩, ⟨'😀', true⟩, ⟨'\n', false⟩]
    SpellsWithPairs written literal.children ∧ Written.text written = "a😀\n" ∧
      literal.stringValue? = some "a\n" ∧
      (SurplusPolicy.ofNames ["a\n"]).tolerates [literal.stringValue?] = true := by
  intro fragment escape literal written
  have hbefore : Spells ("a".toList ++ []) [fragment "a"] :=
    .raw (n := fragment "a") rfl .nothing
  have hescape : Escapes '\n' "\\n".toList := by
    simpa using @Escapes.control '\n' 'n' (by decide)
  have hbehind : Spells ['\n'] [escape "\\n"] :=
    .escape (n := escape "\\n") rfl hescape .nothing
  have hpair : EscapesAsPair '😀' "\\uD83D".toList "\\ude00".toList := by
    simpa using @EscapesAsPair.mk '😀' 0xd83d 0xde00 ['D', '8', '3', 'D'] ['d', 'e', '0', '0']
      (by decide) (by decide) rfl rfl ⟨0, rfl⟩ rfl ⟨0, rfl⟩
  have hspells : SpellsWithPairs written literal.children :=
    @SpellsWithPairs.pair ("a".toList ++ []) [fragment "a"] [escape "\\n"] '😀' (escape "\\uD83D")
      (escape "\\ude00") (Written.plain ['\n']) hbefore rfl rfl hpair (.plain hbehind)
  obtain ⟨hvalue, -, -, -, hlisted, -⟩ := stringValue?_of_pairs rfl hspells
  exact ⟨hspells, rfl, hvalue, (hlisted ["a\n"]).2 (by decide)⟩

/-- A literal that spells one character, has the value of the empty one, and is not tolerated by
the list of the character. -/
theorem pair_not_decoded :
    let source := "f('\\ud83d\\ude00');\n"
    ∃ p n, Program.parse? source = some p ∧ n ∈ p.root.nodes ∧ n.kind = .string ∧
      SpellsWithPairs [⟨'😀', true⟩] n.children ∧ n.stringValue? = some "" ∧
      (SurplusPolicy.ofNames ["😀"]).tolerates [n.stringValue?] = false := by
  intro source
  -- nodes cannot be compared, so the literal is looked for by the kinds and spellings of its parts
  let isLiteral (n : Node) : Bool :=
    n.kind = .string &&
      n.children.map (fun m => (m.kind, m.text)) = [(.escape, "\\ud83d"), (.escape, "\\ude00")]
  have hfound : (Program.parse? source).any (fun p => p.root.nodes.any isLiteral) = true := by
    decide +kernel
  simp only [isLiteral, Option.any_eq_true, List.any_eq_true, Bool.and_eq_true, decide_eq_true_eq,
    List.map_eq_cons_iff, List.map_eq_nil_iff, Prod.mk.injEq] at hfound
  obtain ⟨p, hp, n, hn, hkind, lead, _, hparts, ⟨hlead, hleadText⟩, trail, _, rfl,
    ⟨htrail, htrailText⟩, rfl⟩ := hfound
  have hpair : EscapesAsPair '😀' lead.text.toList trail.text.toList := by
    rw [hleadText, htrailText]
    simpa using @EscapesAsPair.mk '😀' 0xd83d 0xde00 ['d', '8', '3', 'd'] ['d', 'e', '0', '0']
      (by decide) (by decide) rfl rfl ⟨0, rfl⟩ rfl ⟨0, rfl⟩
  have hspells : SpellsWithPairs [⟨'😀', true⟩] n.children := by
    rw [hparts]
    exact @SpellsWithPairs.pair [] [] [] '😀' lead trail [] .nothing hlead htrail hpair
      (.plain .nothing)
  have hvalue : n.stringValue? = some "" := hspells.stringValue?_eq hkind
  refine ⟨p, n, hp, hn, hkind, hspells, hvalue, ?_⟩
  rw [hvalue]
  decide

end Node

end LoaderLint.Script
