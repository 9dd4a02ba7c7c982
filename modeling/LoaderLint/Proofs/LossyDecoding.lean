import LoaderLint.Analyzer.Run
import LoaderLint.Proofs.NodeFindings
import LoaderLint.Proofs.TextLines
import LoaderLint.Text.Utf8

/-!
# Bytes read as characters

How files that are no UTF-8 are read, and why their lines keep their numbers. Bytes are read in
stretches. A stretch is the bytes of a character, or a gap: a byte that starts no character, or the
start of a character with which the bytes behind it do not go on. No stretch of several bytes has a
byte below `0x80`, so that a line feed always is a stretch of its own, and what stands behind it
does not change how the bytes before it are read.

The module introduces:

* `Text.Utf8.Gap`, `Text.Utf8.Item` — the stretches, and what each is read as;
* `Text.Utf8.Reads` — what bytes are read as, stretch by stretch;
* `Text.Utf8.lines` — the lines of a file;
* `SourceFile.IsPlace` — the positions on the lines of a file.

`Text.Utf8.scan` is the only reading of bytes (`Text.Utf8.reads_iff`), and it has no gaps exactly
if the bytes are those of a text (`Text.Utf8.isUtf8_iff`). All that is said of reading is shown by
induction on `Text.Utf8.Reads`: it commutes with cutting at a byte below `0x80`
(`Text.Utf8.decode_append_cons`), and the characters below `0x80` are read from their own bytes
only (`Text.Utf8.mem_decode_iff`, `Text.Utf8.getLast?_decode_iff`). The main result is
`SourceFile.lines_text`.
-/

namespace LoaderLint

namespace Text.Utf8

variable {a b c d : UInt8} {bytes rest stretch : List UInt8}

/-! ## Bytes of characters -/

/-- The bytes that are no characters of their own. -/
def isHigh (b : UInt8) : Bool := 0x80 ≤ b

/-- A byte is below `0x80` exactly if its number is. -/
theorem lt_iff_toNat : a < 0x80 ↔ a.toNat < 0x80 := UInt8.lt_iff_toNat_lt

/-- The bytes that are no characters of their own are those from `0x80` on. -/
theorem isHigh_iff : isHigh a = true ↔ 0x80 ≤ a.toNat := by
  simp [isHigh, UInt8.le_iff_toNat_le]

/-- The other bytes are the characters of one byte. -/
theorem isHigh_eq_false_iff : isHigh a = false ↔ a < 0x80 := by
  simp [isHigh]

theorem leadsTwo_iff : leadsTwo a = true ↔ 0xc2 ≤ a.toNat ∧ a.toNat ≤ 0xdf := by
  simp [leadsTwo, UInt8.le_iff_toNat_le]

theorem leadsThree_iff : leadsThree a = true ↔ 0xe0 ≤ a.toNat ∧ a.toNat ≤ 0xef := by
  simp [leadsThree, UInt8.le_iff_toNat_le]

theorem leadsFour_iff : leadsFour a = true ↔ 0xf0 ≤ a.toNat ∧ a.toNat ≤ 0xf4 := by
  simp [leadsFour, UInt8.le_iff_toNat_le]

theorem continues_iff : continues a = true ↔ 0x80 ≤ a.toNat ∧ a.toNat ≤ 0xbf := by
  simp [continues, UInt8.le_iff_toNat_le]

/-- The bytes that may be second ones, by the number of the first byte: those for which no shorter
form and no surrogate comes out. -/
theorem follows_iff :
    follows a b = true ↔ (0x80 ≤ b.toNat ∧ b.toNat ≤ 0xbf) ∧
      (a.toNat = 0xe0 → 0xa0 ≤ b.toNat) ∧ (a.toNat = 0xed → b.toNat ≤ 0x9f) ∧
      (a.toNat = 0xf0 → 0x90 ≤ b.toNat) ∧ (a.toNat = 0xf4 → b.toNat ≤ 0x8f) := by
  unfold follows
  simp only [← UInt8.toNat_inj]
  -- one case for each first byte that narrows the second one, and one for all others
  split_ifs with h₁ h₂ h₃ h₄ <;>
    simp only [Bool.and_eq_true, decide_eq_true_eq, UInt8.le_iff_toNat_le, continues_iff,
      UInt8.reduceToNat] at * <;> omega

/-- The first byte of two is no character of its own. -/
theorem isHigh_of_leadsTwo (h : leadsTwo a = true) : isHigh a = true := by
  rw [leadsTwo_iff] at h
  exact isHigh_iff.2 (by omega)

/-- The first byte of three or four is no character of its own. -/
theorem isHigh_of_leadsMore (h : leadsThree a = true ∨ leadsFour a = true) : isHigh a = true := by
  rw [leadsThree_iff, leadsFour_iff] at h
  exact isHigh_iff.2 (by omega)

/-- A byte that goes on with a character is none of its own. -/
theorem isHigh_of_continues (h : continues a = true) : isHigh a = true :=
  isHigh_iff.2 (continues_iff.1 h).1

/-- A second byte is no character of its own. -/
theorem isHigh_of_follows (h : follows a b = true) : isHigh b = true :=
  isHigh_of_continues (continues_iff.2 (follows_iff.1 h).1)

/-- The number of a character that is not one of the surrogates. -/
theorem toNat_ofNat_of_valid {n : ℕ} (h : n < 0xd800 ∨ 0xdfff < n ∧ n < 0x110000) :
    (Char.ofNat n).toNat = n := by
  rw [Char.ofNat, dif_pos h]
  rfl

/-- The bytes of a character by its number. -/
theorem utf8EncodeChar_eq (ch : Char) :
    String.utf8EncodeChar ch =
      if ch.toNat ≤ 127 then [UInt8.ofNat ch.toNat]
      else if ch.toNat ≤ 2047 then
        [UInt8.ofNat (ch.toNat / 64 % 32 + 192), UInt8.ofNat (ch.toNat % 64 + 128)]
      else if ch.toNat ≤ 65535 then
        [UInt8.ofNat (ch.toNat / 4096 % 16 + 224), UInt8.ofNat (ch.toNat / 64 % 64 + 128),
          UInt8.ofNat (ch.toNat % 64 + 128)]
      else
        [UInt8.ofNat (ch.toNat / 262144 % 8 + 240), UInt8.ofNat (ch.toNat / 4096 % 64 + 128),
          UInt8.ofNat (ch.toNat / 64 % 64 + 128), UInt8.ofNat (ch.toNat % 64 + 128)] := rfl

theorem ofNat_eq_of_toNat {n : ℕ} (h : n = a.toNat) : UInt8.ofNat n = a := by
  rw [h, UInt8.ofNat_toNat]

/-- A byte below `0x80` is the encoding of the character that is read from it. -/
theorem utf8EncodeChar_one (ha : a < 0x80) : String.utf8EncodeChar (Char.ofNat a.toNat) = [a] := by
  have hlow := lt_iff_toNat.1 ha
  rw [utf8EncodeChar_eq, toNat_ofNat_of_valid (by omega), if_pos (by omega), UInt8.ofNat_toNat]

/-- Two bytes that fit together are the encoding of the character that is read from them. -/
theorem utf8EncodeChar_two (ha : leadsTwo a = true) (hb : continues b = true) :
    String.utf8EncodeChar (Char.ofNat (a.toNat % 32 * 64 + tail b)) = [a, b] := by
  rw [leadsTwo_iff] at ha
  rw [continues_iff] at hb
  unfold tail
  rw [utf8EncodeChar_eq, toNat_ofNat_of_valid (by omega), if_neg (by omega), if_pos (by omega),
    ofNat_eq_of_toNat (a := a) (by omega), ofNat_eq_of_toNat (a := b) (by omega)]

/-- Three bytes that fit together are the encoding of the character that is read from them. -/
theorem utf8EncodeChar_three (ha : leadsThree a = true) (hb : follows a b = true)
    (hc : continues c = true) :
    String.utf8EncodeChar (Char.ofNat ((a.toNat % 16 * 64 + tail b) * 64 + tail c)) =
      [a, b, c] := by
  rw [leadsThree_iff] at ha
  rw [follows_iff] at hb
  rw [continues_iff] at hc
  unfold tail
  -- the second byte rules out the surrogates and the characters that take two bytes
  rw [utf8EncodeChar_eq, toNat_ofNat_of_valid (by omega), if_neg (by omega), if_neg (by omega),
    if_pos (by omega), ofNat_eq_of_toNat (a := a) (by omega),
    ofNat_eq_of_toNat (a := b) (by omega),
    ofNat_eq_of_toNat (a := c) (by omega)]

/-- Four bytes that fit together are the encoding of the character that is read from them. -/
theorem utf8EncodeChar_four (ha : leadsFour a = true) (hb : follows a b = true)
    (hc : continues c = true) (hd : continues d = true) :
    String.utf8EncodeChar
      (Char.ofNat (((a.toNat % 8 * 64 + tail b) * 64 + tail c) * 64 + tail d)) = [a, b, c, d] := by
  rw [leadsFour_iff] at ha
  rw [follows_iff] at hb
  rw [continues_iff] at hc hd
  unfold tail
  rw [utf8EncodeChar_eq, toNat_ofNat_of_valid (by omega), if_neg (by omega), if_neg (by omega),
    if_neg (by omega), ofNat_eq_of_toNat (a := a) (by omega),
    ofNat_eq_of_toNat (a := b) (by omega),
    ofNat_eq_of_toNat (a := c) (by omega), ofNat_eq_of_toNat (a := d) (by omega)]

/-- Every character is made of one to four bytes. -/
theorem exists_bytes (ch : Char) :
    (∃ a : UInt8, a < 0x80 ∧ ch = Char.ofNat a.toNat) ∨
    (∃ a b, leadsTwo a = true ∧ continues b = true ∧
      ch = Char.ofNat (a.toNat % 32 * 64 + tail b)) ∨
    (∃ a b c, leadsThree a = true ∧ follows a b = true ∧ continues c = true ∧
      ch = Char.ofNat ((a.toNat % 16 * 64 + tail b) * 64 + tail c)) ∨
    ∃ a b c d, leadsFour a = true ∧ follows a b = true ∧ continues c = true ∧ continues d = true ∧
      ch = Char.ofNat (((a.toNat % 8 * 64 + tail b) * 64 + tail c) * 64 + tail d) := by
  have hvalid : ch.toNat < 0xd800 ∨ 0xdfff < ch.toNat ∧ ch.toNat < 0x110000 := ch.valid
  -- what the bytes are is found on numbers, so that only arithmetic is left
  have hbyte : ∀ n : ℕ, n < 256 → ∃ b : UInt8, b.toNat = n := fun n h =>
    ⟨UInt8.ofNat n, UInt8.toNat_ofNat_of_lt' h⟩
  have hchar : ∀ n : ℕ, n = ch.toNat → ch = Char.ofNat n := fun n h => by rw [h, Char.ofNat_toNat]
  generalize ch.toNat = v at hvalid hchar
  simp only [lt_iff_toNat, leadsTwo_iff, leadsThree_iff, leadsFour_iff, follows_iff, continues_iff,
    tail]
  by_cases hone : v < 0x80
  · obtain ⟨a, ha⟩ := hbyte v (by omega)
    exact .inl ⟨a, ha ▸ hone, hchar _ ha⟩
  -- the last six bits are the last byte, the six bits before them the byte before it, and so on
  obtain ⟨z, hz⟩ := hbyte (v % 64 + 128) (by omega)
  by_cases htwo : v < 0x800
  · obtain ⟨a, ha⟩ := hbyte (v / 64 + 192) (by omega)
    exact .inr (.inl ⟨a, z, by omega, by omega, hchar _ (by omega)⟩)
  obtain ⟨y, hy⟩ := hbyte (v / 64 % 64 + 128) (by omega)
  by_cases hthree : v < 0x10000
  · obtain ⟨a, ha⟩ := hbyte (v / 4096 + 224) (by omega)
    exact .inr (.inr (.inl ⟨a, y, z, by omega, by omega, by omega, hchar _ (by omega)⟩))
  · obtain ⟨x, hx⟩ := hbyte (v / 4096 % 64 + 128) (by omega)
    obtain ⟨a, ha⟩ := hbyte (v / 262144 + 240) (by omega)
    exact .inr (.inr (.inr ⟨a, x, y, z, by omega, by omega, by omega, by omega,
      hchar _ (by omega)⟩))

/-! ## Stretches -/

/-- Whether bytes start with none that fits. -/
def Stops (fits : UInt8 → Bool) (bytes : List UInt8) : Prop := ∀ b ∈ bytes.head?, fits b = false

/-- Bytes start with one that fits, or they do not. -/
theorem stops_or_exists (fits : UInt8 → Bool) (bytes : List UInt8) :
    Stops fits bytes ∨ ∃ b rest, bytes = b :: rest ∧ fits b = true := by
  cases bytes with
  | nil => exact .inl fun b hb => by cases hb
  | cons b rest =>
    cases hb : fits b with
    | true => exact .inr ⟨b, rest, rfl, hb⟩
    | false => exact .inl fun x hx => by cases hx; exact hb

/-- A stretch that is no character, before the bytes `rest`: a byte that starts none, or the start
of a character with which the bytes behind it do not go on. -/
inductive Gap (rest : List UInt8) : List UInt8 → Prop
  | stray {a : UInt8} (ha : isHigh a = true) (htwo : leadsTwo a = false)
      (hthree : leadsThree a = false) (hfour : leadsFour a = false) : Gap rest [a]
  | ofTwo {a : UInt8} (ha : leadsTwo a = true) (hrest : Stops continues rest) : Gap rest [a]
  | ofMore {a : UInt8} (ha : leadsThree a = true ∨ leadsFour a = true)
      (hrest : Stops (follows a) rest) : Gap rest [a]
  | ofMorePair {a b : UInt8} (ha : leadsThree a = true ∨ leadsFour a = true)
      (hb : follows a b = true) (hrest : Stops continues rest) : Gap rest [a, b]
  | ofFour {a b c : UInt8} (ha : leadsFour a = true) (hb : follows a b = true)
      (hc : continues c = true) (hrest : Stops continues rest) : Gap rest [a, b, c]

/-- What a stretch before the bytes `rest` is read as: the bytes of a character as the character,
and others as a gap. -/
inductive Item (rest : List UInt8) : List UInt8 → Option Char → Prop
  | char (ch : Char) : Item rest (String.utf8EncodeChar ch) (some ch)
  | gap {stretch : List UInt8} : Gap rest stretch → Item rest stretch none

theorem Item.of_eq {ch : Char} (h : String.utf8EncodeChar ch = stretch) :
    Item rest stretch (some ch) :=
  h ▸ .char ch

/-- What bytes are read as, stretch by stretch. -/
inductive Reads : List UInt8 → List (Option Char) → Prop
  | nil : Reads [] []
  | cons {stretch rest : List UInt8} {item : Option Char} {items : List (Option Char)} :
      Item rest stretch item → Reads rest items → Reads (stretch ++ rest) (item :: items)

/-- Bytes start with a stretch. -/
theorem exists_item (hne : bytes ≠ []) :
    ∃ stretch rest item, bytes = stretch ++ rest ∧ Item rest stretch item := by
  obtain ⟨a, rest, rfl⟩ := List.exists_cons_of_ne_nil hne
  -- the first byte says how many bytes the character would have
  by_cases ha : a < 0x80
  · exact ⟨[a], rest, _, rfl, .of_eq (utf8EncodeChar_one ha)⟩
  by_cases htwo : leadsTwo a = true
  · rcases stops_or_exists continues rest with hrest | ⟨b, rest, rfl, hb⟩
    · exact ⟨[a], rest, none, rfl, .gap (.ofTwo htwo hrest)⟩
    · exact ⟨[a, b], rest, _, rfl, .of_eq (utf8EncodeChar_two htwo hb)⟩
  by_cases hmore : leadsThree a = true ∨ leadsFour a = true
  · rcases stops_or_exists (follows a) rest with hrest | ⟨b, rest, rfl, hb⟩
    · exact ⟨[a], rest, none, rfl, .gap (.ofMore hmore hrest)⟩
    rcases stops_or_exists continues rest with hrest | ⟨c, rest, rfl, hc⟩
    · exact ⟨[a, b], rest, none, rfl, .gap (.ofMorePair hmore hb hrest)⟩
    -- three bytes are a character or the start of one of four bytes
    rcases hmore with hthree | hfour
    · exact ⟨[a, b, c], rest, _, rfl, .of_eq (utf8EncodeChar_three hthree hb hc)⟩
    rcases stops_or_exists continues rest with hrest | ⟨d, rest, rfl, hd⟩
    · exact ⟨[a, b, c], rest, none, rfl, .gap (.ofFour hfour hb hc hrest)⟩
    · exact ⟨[a, b, c, d], rest, _, rfl, .of_eq (utf8EncodeChar_four hfour hb hc hd)⟩
  · rw [not_or, Bool.not_eq_true, Bool.not_eq_true] at hmore
    rw [Bool.not_eq_true] at htwo
    exact ⟨[a], rest, none, rfl,
      .gap (.stray (decide_eq_true (UInt8.not_lt.1 ha)) htwo hmore.1 hmore.2)⟩

/-! ## Reading stretch by stretch -/

/-- A byte that is no character of its own is not below `0x80`. -/
theorem not_lt_of_isHigh (h : isHigh a = true) : ¬a < 0x80 :=
  UInt8.not_lt.2 (of_decide_eq_true h)

/-- The first byte of three or four is not the first one of two. -/
theorem leadsTwo_of_leadsMore (h : leadsThree a = true ∨ leadsFour a = true) :
    leadsTwo a = false := by
  rw [leadsThree_iff, leadsFour_iff] at h
  rw [← Bool.not_eq_true, leadsTwo_iff]
  omega

/-- The first byte of four is not the first one of three. -/
theorem leadsThree_of_leadsFour (h : leadsFour a = true) : leadsThree a = false := by
  rw [leadsFour_iff] at h
  rw [← Bool.not_eq_true, leadsThree_iff]
  omega

/-- The bytes of a character are read as the character, whatever stands behind them. -/
theorem scan_utf8EncodeChar_append (ch : Char) (rest : List UInt8) :
    scan (String.utf8EncodeChar ch ++ rest) = some ch :: scan rest := by
  -- the tests of the scan are made in the order of the lengths
  rcases exists_bytes ch with ⟨a, ha, rfl⟩ | ⟨a, b, ha, hb, rfl⟩ | ⟨a, b, c, ha, hb, hc, rfl⟩ |
    ⟨a, b, c, d, ha, hb, hc, hd, rfl⟩
  · rw [utf8EncodeChar_one ha, scan.eq_def]
    simp [ha]
  · rw [utf8EncodeChar_two ha hb, scan.eq_def]
    simp [not_lt_of_isHigh (isHigh_of_leadsTwo ha), ha, hb]
  · rw [utf8EncodeChar_three ha hb hc, scan.eq_def]
    simp [not_lt_of_isHigh (isHigh_of_leadsMore (.inl ha)), leadsTwo_of_leadsMore (.inl ha), ha,
      hb, hc]
  · rw [utf8EncodeChar_four ha hb hc hd, scan.eq_def]
    simp [not_lt_of_isHigh (isHigh_of_leadsMore (.inr ha)), leadsTwo_of_leadsMore (.inr ha),
      leadsThree_of_leadsFour ha, ha, hb, hc, hd]

/-- A stretch that is no character leaves one gap. -/
theorem scan_gap_append (h : Gap rest stretch) : scan (stretch ++ rest) = none :: scan rest := by
  rw [scan.eq_def]
  -- where a byte is missing depends on how many bytes there are, so the rest is split that far
  cases h with
  | stray ha htwo hthree hfour => simp [not_lt_of_isHigh ha, htwo, hthree, hfour]
  | ofTwo ha hrest =>
    cases rest with
    | nil => simp [not_lt_of_isHigh (isHigh_of_leadsTwo ha), ha, scan]
    | cons b rest => simp [not_lt_of_isHigh (isHigh_of_leadsTwo ha), ha, hrest b rfl]
  | ofMore ha hrest =>
    have hhigh := not_lt_of_isHigh (isHigh_of_leadsMore ha)
    have htwo := leadsTwo_of_leadsMore ha
    rcases ha with ha | ha
    · rcases rest with - | ⟨b, - | ⟨c, rest⟩⟩
      · simp [hhigh, htwo, ha, scan]
      · simp [hhigh, htwo, ha, hrest b rfl]
      · simp [hhigh, htwo, ha, hrest b rfl]
    · have hthree := leadsThree_of_leadsFour ha
      rcases rest with - | ⟨b, - | ⟨c, - | ⟨d, rest⟩⟩⟩
      · simp [hhigh, htwo, hthree, ha, scan]
      · simp [hhigh, htwo, hthree, ha, hrest b rfl]
      · simp [hhigh, htwo, hthree, ha, hrest b rfl]
      · simp [hhigh, htwo, hthree, ha, hrest b rfl]
  | ofMorePair ha hb hrest =>
    have hhigh := not_lt_of_isHigh (isHigh_of_leadsMore ha)
    have htwo := leadsTwo_of_leadsMore ha
    rcases ha with ha | ha
    · rcases rest with - | ⟨c, rest⟩
      · simp [hhigh, htwo, ha, hb, scan]
      · simp [hhigh, htwo, ha, hb, hrest c rfl]
    · have hthree := leadsThree_of_leadsFour ha
      rcases rest with - | ⟨c, - | ⟨d, rest⟩⟩
      · simp [hhigh, htwo, hthree, ha, hb, scan]
      · simp [hhigh, htwo, hthree, ha, hb, hrest c rfl]
      · simp [hhigh, htwo, hthree, ha, hb, hrest c rfl]
  | ofFour ha hb hc hrest =>
    have hhigh := not_lt_of_isHigh (isHigh_of_leadsMore (.inr ha))
    have htwo := leadsTwo_of_leadsMore (.inr ha)
    have hthree := leadsThree_of_leadsFour ha
    rcases rest with - | ⟨d, rest⟩
    · simp [hhigh, htwo, hthree, ha, hb, hc, scan]
    · simp [hhigh, htwo, hthree, ha, hb, hc, hrest d rfl]

/-- A stretch is read as what it is, and reading goes on behind it. -/
theorem Item.scan_append {item : Option Char} (h : Item rest stretch item) :
    scan (stretch ++ rest) = item :: scan rest := by
  cases h with
  | char ch => exact scan_utf8EncodeChar_append ch rest
  | gap hgap => exact scan_gap_append hgap

/-- Every character has a byte. -/
theorem utf8EncodeChar_ne_nil (ch : Char) : String.utf8EncodeChar ch ≠ [] := by
  rw [utf8EncodeChar_eq]
  split_ifs <;> exact List.cons_ne_nil _ _

/-- A byte below `0x80` is a character of its own; all other stretches consist of higher bytes, and
what they are read as is no such character. -/
theorem Item.ascii_or {item : Option Char} (h : Item rest stretch item) :
    (∃ a : UInt8, a < 0x80 ∧ stretch = [a] ∧ item = some (Char.ofNat a.toNat)) ∨
      stretch ≠ [] ∧ (∀ b ∈ stretch, isHigh b = true) ∧
        0x80 ≤ (item.getD replacement).toNat := by
  cases h with
  | char ch =>
    by_cases hch : ch.toNat < 0x80
    · have ha : (UInt8.ofNat ch.toNat).toNat = ch.toNat :=
        UInt8.toNat_ofNat_of_lt' (Nat.lt_trans hch (by decide))
      refine .inl ⟨UInt8.ofNat ch.toNat, lt_iff_toNat.2 (by rwa [ha]), ?_, ?_⟩
      · rw [utf8EncodeChar_eq, if_pos (by omega)]
      · rw [ha, Char.ofNat_toNat]
    · refine .inr ⟨utf8EncodeChar_ne_nil ch, ?_, Nat.not_lt.1 hch⟩
      -- more than one byte, each with its highest bit set
      rw [utf8EncodeChar_eq, if_neg (by omega)]
      split_ifs <;> simp only [List.forall_mem_cons, isHigh_iff, UInt8.toNat_ofNat'] <;>
        simp only [List.not_mem_nil, false_implies, implies_true, and_true] <;> omega
  | gap hgap =>
    refine .inr ⟨?_, ?_, by decide⟩
    · cases hgap <;> exact List.cons_ne_nil _ _
    · cases hgap with
      | stray ha _ _ _ => simp [ha]
      | ofTwo ha _ => simp [isHigh_of_leadsTwo ha]
      | ofMore ha _ => simp [isHigh_of_leadsMore ha]
      | ofMorePair ha hb _ => simp [isHigh_of_leadsMore ha, isHigh_of_follows hb]
      | ofFour ha hb hc _ =>
        simp [isHigh_of_leadsMore (.inr ha), isHigh_of_follows hb, isHigh_of_continues hc]

/-- No stretch is empty. -/
theorem Item.stretch_ne_nil {item : Option Char} (h : Item rest stretch item) : stretch ≠ [] := by
  rcases h.ascii_or with ⟨a, -, rfl, -⟩ | ⟨hne, -, -⟩
  · exact List.cons_ne_nil a []
  · exact hne

/-- Bytes are read in one way only. -/
theorem reads_iff {items : List (Option Char)} : Reads bytes items ↔ items = scan bytes := by
  constructor
  · intro h
    induction h with
    | nil => rfl
    | cons hitem hrest ih => rw [hitem.scan_append, ih]
  · rintro rfl
    -- by induction on the number of bytes, since a stretch may have several
    generalize hlength : bytes.length = n
    induction n using Nat.strong_induction_on generalizing bytes with
    | _ n ih =>
      by_cases hne : bytes = []
      · subst hne
        exact .nil
      · obtain ⟨stretch, rest, item, rfl, hitem⟩ := exists_item hne
        have hstretch := List.length_pos_iff.2 hitem.stretch_ne_nil
        rw [List.length_append] at hlength
        rw [hitem.scan_append]
        exact .cons hitem (ih rest.length (by omega) rfl)

/-- The scan of bytes is a reading of them. -/
theorem reads_scan (bytes : List UInt8) : Reads bytes (scan bytes) := reads_iff.2 rfl

/-! ## Bytes behind each other -/

/-- Bytes that start with none that fits still do so when bytes are added that start with a
character of one byte. -/
theorem Stops.append {fits : UInt8 → Bool} (h : Stops fits rest) {more : List UInt8}
    (hmore : Stops isHigh more) (hfits : ∀ b, fits b = true → isHigh b = true) :
    Stops fits (rest ++ more) := by
  cases rest with
  | nil =>
    intro b hb
    by_contra hfit
    have hlow := hmore b hb
    rw [hfits b (by simpa using hfit)] at hlow
    cases hlow
  | cons b rest => exact h

/-- A stretch is read as before when bytes are added that start with one below `0x80`. -/
theorem Item.append {item : Option Char} (h : Item rest stretch item) {more : List UInt8}
    (hmore : Stops isHigh more) : Item (rest ++ more) stretch item := by
  cases h with
  | char ch => exact .char ch
  | gap hgap =>
    apply Item.gap
    -- of the bytes behind a gap only the first one matters, and a low one goes on with no
    -- character
    cases hgap with
    | stray ha htwo hthree hfour => exact .stray ha htwo hthree hfour
    | ofTwo ha hrest => exact .ofTwo ha (hrest.append hmore fun _ => isHigh_of_continues)
    | ofMore ha hrest => exact .ofMore ha (hrest.append hmore fun _ => isHigh_of_follows)
    | ofMorePair ha hb hrest =>
      exact .ofMorePair ha hb (hrest.append hmore fun _ => isHigh_of_continues)
    | ofFour ha hb hc hrest =>
      exact .ofFour ha hb hc (hrest.append hmore fun _ => isHigh_of_continues)

/-- Two readings make one if the second part starts with a character of one byte. -/
theorem Reads.append {items others : List (Option Char)} {more : List UInt8}
    (h : Reads bytes items) (hmore : Stops isHigh more) (hothers : Reads more others) :
    Reads (bytes ++ more) (items ++ others) := by
  -- the bytes that are added matter to the last stretch only
  induction h with
  | nil => exact hothers
  | cons hitem _ ih =>
    rw [List.append_assoc]
    exact .cons (hitem.append hmore) ih

/-- No stretch reaches over the start of bytes that start with one below `0x80`. -/
theorem decode_append (bytes : List UInt8) {more : List UInt8} (hmore : Stops isHigh more) :
    decode (bytes ++ more) = decode bytes ++ decode more := by
  have hreads := (reads_scan bytes).append hmore (reads_scan more)
  rw [decode, ← reads_iff.1 hreads, List.map_append]
  rfl

/-- A byte below `0x80` is read as its character, whatever stands behind it. -/
theorem decode_cons (ha : a < 0x80) (bytes : List UInt8) :
    decode (a :: bytes) = Char.ofNat a.toNat :: decode bytes := by
  have hitem : Item bytes [a] (some (Char.ofNat a.toNat)) := .of_eq (utf8EncodeChar_one ha)
  rw [decode, ← List.singleton_append, hitem.scan_append]
  rfl

/-- Reading commutes with cutting at a byte below `0x80`. -/
theorem decode_append_cons (ha : a < 0x80) (before behind : List UInt8) :
    decode (before ++ a :: behind) = decode before ++ Char.ofNat a.toNat :: decode behind := by
  have hlow : Stops isHigh (a :: behind) := fun b hb => by
    cases hb
    exact isHigh_eq_false_iff.2 ha
  rw [decode_append before hlow, decode_cons ha]

/-! ## Characters of one byte -/

/-- Different bytes below `0x80` are different characters. -/
theorem ofNat_inj (ha : a < 0x80) (hb : b < 0x80) :
    Char.ofNat a.toNat = Char.ofNat b.toNat ↔ a = b := by
  rw [lt_iff_toNat] at ha hb
  rw [← Char.toNat_inj, toNat_ofNat_of_valid (by omega), toNat_ofNat_of_valid (by omega),
    UInt8.toNat_inj]

/-- A stretch is read as a character below `0x80` only if it is the byte of the character. -/
theorem Item.getD_eq_iff {item : Option Char} (h : Item rest stretch item) (ha : a < 0x80) :
    item.getD replacement = Char.ofNat a.toNat ↔ stretch = [a] := by
  rcases h.ascii_or with ⟨b, hb, rfl, rfl⟩ | ⟨-, hhigh, hitem⟩
  · rw [Option.getD_some, ofNat_inj hb ha, List.singleton_inj]
  · rw [lt_iff_toNat] at ha
    constructor
    · intro heq
      rw [heq, toNat_ofNat_of_valid (by omega)] at hitem
      omega
    · rintro rfl
      have hbyte := isHigh_iff.1 (hhigh a List.mem_cons_self)
      omega

/-- A stretch has a byte below `0x80` only if it is that byte. -/
theorem Item.mem_iff {item : Option Char} (h : Item rest stretch item) (ha : a < 0x80) :
    a ∈ stretch ↔ stretch = [a] := by
  rcases h.ascii_or with ⟨b, -, rfl, -⟩ | ⟨-, hhigh, -⟩
  · rw [List.mem_singleton, List.singleton_inj, eq_comm]
  · have hlow : a ∉ stretch := fun hmem => not_lt_of_isHigh (hhigh a hmem) ha
    exact ⟨fun hmem => absurd hmem hlow, by rintro rfl; exact List.mem_cons_self⟩

/-- The characters below `0x80` are read from their own bytes only. -/
theorem mem_decode_iff (ha : a < 0x80) : Char.ofNat a.toNat ∈ decode bytes ↔ a ∈ bytes := by
  have hreads := reads_scan bytes
  rw [decode]
  -- by induction on the reading of the bytes, stretch by stretch
  generalize scan bytes = items at hreads ⊢
  induction hreads with
  | nil => simp
  | cons hitem _ ih =>
    rw [List.map_cons, List.mem_cons, List.mem_append, eq_comm, hitem.getD_eq_iff ha,
      hitem.mem_iff ha]
    exact or_congr_right ih

/-- Nothing is read from no bytes only. -/
theorem Reads.eq_nil_iff {items : List (Option Char)} (h : Reads bytes items) :
    items = [] ↔ bytes = [] := by
  cases h with
  | nil => simp
  | cons hitem _ =>
    simp [hitem.stretch_ne_nil]

/-- The text of a file is empty exactly if the file is. -/
theorem decode_eq_nil_iff : decode bytes = [] ↔ bytes = [] := by
  rw [decode, List.map_eq_nil_iff, (reads_scan bytes).eq_nil_iff]

/-- A character below `0x80` is the last one only if its byte is. -/
theorem getLast?_decode_iff (ha : a < 0x80) :
    (decode bytes).getLast? = some (Char.ofNat a.toNat) ↔ bytes.getLast? = some a := by
  have hreads := reads_scan bytes
  rw [decode]
  generalize scan bytes = items at hreads ⊢
  induction hreads with
  | nil => simp
  | @cons stretch rest item items hitem hrest ih =>
    by_cases hnil : rest = []
    · -- the stretch is the last one
      obtain rfl := hrest.eq_nil_iff.2 hnil
      rw [hnil, List.append_nil, List.map_cons, List.map_nil, List.getLast?_singleton,
        Option.some_inj, hitem.getD_eq_iff ha]
      constructor
      · rintro rfl
        rfl
      · exact fun hlast => (hitem.mem_iff ha).1 (List.mem_of_getLast? hlast)
    · -- something is read from the rest, so the last character is read there
      have hitems : items.map (·.getD replacement) ≠ [] := by
        rw [ne_eq, List.map_eq_nil_iff, hrest.eq_nil_iff]
        exact hnil
      rw [List.getLast?_append_of_ne_nil stretch hnil, List.map_cons, ← List.singleton_append,
        List.getLast?_append_of_ne_nil _ hitems]
      exact ih

/-! ## Bytes of texts -/

/-- The bytes of a text are the bytes of its characters, one behind the other. -/
theorem toList_toUTF8 (content : String) :
    content.toUTF8.data.toList = content.toList.flatMap String.utf8EncodeChar := by
  conv_lhs => rw [← @String.ofList_toList content]
  rw [String.toUTF8_eq_toByteArray, String.toByteArray_ofList, List.utf8Encode,
    List.toList_data_toByteArray]

/-- The bytes of characters are read as the characters. -/
theorem scan_flatMap_utf8EncodeChar (cs : List Char) :
    scan (cs.flatMap String.utf8EncodeChar) = cs.map some := by
  induction cs with
  | nil => rfl
  | cons ch cs ih => rw [List.flatMap_cons, scan_utf8EncodeChar_append, ih, List.map_cons]

/-- Bytes that are read without gaps are the bytes of what is read. -/
theorem Reads.eq_flatMap {items : List (Option Char)} (h : Reads bytes items)
    (hsome : items.all Option.isSome = true) :
    bytes = (items.map (·.getD replacement)).flatMap String.utf8EncodeChar := by
  induction h with
  | nil => rfl
  | cons hitem _ ih =>
    rw [List.all_cons, Bool.and_eq_true] at hsome
    -- a gap is excluded, so each stretch is the encoding of its character
    cases hitem with
    | char ch => rw [List.map_cons, List.flatMap_cons, ← ih hsome.2, Option.getD_some]
    | gap _ => cases hsome.1

/-- The bytes of a text are read as the text. -/
theorem decode_toUTF8 (content : String) : decode content.toUTF8.data.toList = content.toList := by
  rw [decode, toList_toUTF8, scan_flatMap_utf8EncodeChar, List.map_map]
  exact List.map_id content.toList

/-- Bytes without gaps are those that are the bytes of a text. -/
theorem isUtf8_iff :
    isUtf8 bytes = true ↔ ∃ content : String, bytes = content.toUTF8.data.toList := by
  constructor
  · intro hsome
    refine ⟨String.ofList (decode bytes), ?_⟩
    rw [toList_toUTF8, String.toList_ofList]
    exact (reads_scan bytes).eq_flatMap hsome
  · rintro ⟨content, rfl⟩
    rw [isUtf8, toList_toUTF8, scan_flatMap_utf8EncodeChar, List.all_map]
    exact List.all_eq_true.2 fun _ _ => rfl

/-! ## Lines of bytes -/

/-- A line without the carriage return at its end. -/
def withoutReturn (row : List UInt8) : List UInt8 :=
  if row.getLast? = some 0x0d then row.dropLast else row

/-- The lines of a file: what stands between the line feeds, without a carriage return before a
line feed. Bytes behind the last line feed are a line of their own. -/
def lines (bytes : List UInt8) : List (List UInt8) :=
  let rows := bytes.splitOn 0x0a
  rows.dropLast.map withoutReturn ++ rows.getLast?.toList.filter (!·.isEmpty)

/-- Reading commutes with cutting at a line feed. -/
theorem decode_append_newline (before behind : List UInt8) :
    decode (before ++ 0x0a :: behind) = decode before ++ '\n' :: decode behind :=
  decode_append_cons (by decide) before behind

/-- No line feed is read from bytes without one. -/
theorem newline_not_mem_decode {row : List UInt8} (h : 0x0a ∉ row) : '\n' ∉ decode row :=
  fun hmem => h ((mem_decode_iff (a := 0x0a) (by decide)).1 hmem)

/-- The lines of the text are read from the lines of the file. -/
theorem splitOn_decode (bytes : List UInt8) :
    List.splitOn '\n' (decode bytes) = (bytes.splitOn 0x0a).map decode := by
  -- by induction on the number of bytes: the first line feed leaves fewer behind it
  generalize hlength : bytes.length = n
  induction n using Nat.strong_induction_on generalizing bytes with
  | _ n ih =>
    by_cases hmem : 0x0a ∈ bytes
    · obtain ⟨row, behind, rfl, hrow⟩ := List.eq_append_cons_of_mem hmem
      rw [List.length_append, List.length_cons] at hlength
      rw [decode_append_newline, List.splitOn_append_cons_self, List.splitOn_append_cons_self,
        List.splitOn_eq_singleton (newline_not_mem_decode hrow), List.splitOn_eq_singleton hrow,
        ih behind.length (by omega) behind rfl, List.map_append]
      rfl
    · rw [List.splitOn_eq_singleton (newline_not_mem_decode hmem), List.splitOn_eq_singleton hmem]
      rfl

/-- The carriage return at the end of a line is dropped before reading or behind it. -/
theorem withoutReturn_decode (row : List UInt8) :
    Text.withoutReturn (decode row) = decode (withoutReturn row) := by
  rw [Text.withoutReturn, withoutReturn]
  split_ifs with hreturn
  · obtain ⟨front, rfl⟩ := List.getLast?_eq_some_iff.1 hreturn
    have hdecode : decode (front ++ [0x0d]) = decode front ++ ['\r'] :=
      decode_append_cons (by decide) front []
    rw [List.dropLast_concat, hdecode, Text.dropEnd?_eq_some_iff.2 rfl, Option.getD_some]
  · -- a carriage return is read from its own byte only
    have hnone : Text.dropEnd? ['\r'] (decode row) = none := by
      refine Option.eq_none_iff_forall_ne_some.2 fun front hfront => hreturn ?_
      rw [Text.dropEnd?_eq_some_iff] at hfront
      apply (getLast?_decode_iff (a := 0x0d) (by decide)).1
      rw [hfront, List.getLast?_concat]
      rfl
    rw [hnone, Option.getD_none]

/-- The lines that directives are looked for in are read from the lines of the file. -/
theorem lines_decode (bytes : List UInt8) :
    Text.lines (decode bytes) = (lines bytes).map decode := by
  -- a line of the file is empty exactly if what is read from it is
  have hempty : ∀ row : List UInt8, (decode row).isEmpty = row.isEmpty := fun row => by
    rw [Bool.eq_iff_iff, List.isEmpty_iff, List.isEmpty_iff, decode_eq_nil_iff]
  have hreturn : Text.withoutReturn ∘ decode = decode ∘ withoutReturn :=
    funext withoutReturn_decode
  simp only [Text.lines, lines, splitOn_decode, List.map_append, ← List.map_dropLast, List.map_map,
    hreturn, List.getLast?_map]
  congr 1
  -- what is left is the text behind the last line feed, which is a line if it is not empty
  cases (bytes.splitOn 0x0a).getLast? with
  | none => rfl
  | some row => cases hrow : row.isEmpty <;> simp [hempty, hrow]

end Text.Utf8

/-! ## Places in a file -/

/-- The number of a line counts the lines before it. -/
theorem Script.Position.line_past_flatMap {pieces : List (List Char)} {front : List Char}
    (hpieces : ∀ piece ∈ pieces, '\n' ∉ piece) (hfront : '\n' ∉ front) :
    (start.past (pieces.flatMap (· ++ ['\n']) ++ front)).line = pieces.length + 1 := by
  have hcount : (pieces.flatMap (· ++ ['\n'])).count '\n' = pieces.length := by
    induction pieces with
    | nil => rfl
    | cons piece pieces ih =>
      rw [List.forall_mem_cons] at hpieces
      rw [List.flatMap_cons, List.count_append, List.count_append, List.count_eq_zero.2 hpieces.1,
        ih hpieces.2, List.length_cons, List.count_singleton_self]
      omega
  rw [line_past, List.count_append, hcount, List.count_eq_zero.2 hfront]
  exact Nat.add_comm 1 pieces.length

namespace SourceFile

open Text

variable {f : SourceFile}

/-- The position is on the line of the file whose number it has: it stands behind the lines before
that line and behind a first part of what is read from the line. -/
def IsPlace (f : SourceFile) (p : Script.Position) : Prop :=
  ∃ before row behind front rest, f.bytes.splitOn 0x0a = before ++ row :: behind ∧
    Utf8.decode row = front ++ rest ∧ p.line = before.length + 1 ∧
    p = Script.Position.start.past (before.flatMap (Utf8.decode · ++ ['\n']) ++ front)

/-- The positions of the text are on lines of the file. -/
theorem isPlace_of_inText {p : Script.Position} (h : p.InText f.text.toList) : f.IsPlace p := by
  obtain ⟨cs, after, htext, rfl⟩ := h
  obtain ⟨pieces, front, rfl, hfront, hpieces⟩ := exists_pieces '\n' cs
  obtain ⟨rest, others, -, hsplit⟩ := splitOn_append hfront after
  -- the lines of the text are those before the position, the one with it, and the others
  have hrows : (f.bytes.splitOn 0x0a).map Utf8.decode = pieces ++ (front ++ rest) :: others := by
    rw [← Utf8.splitOn_decode, ← hsplit, ← splitOn_flatMap_append hpieces, ← List.append_assoc,
      ← htext, text, String.toList_ofList]
  obtain ⟨before, ahead, hbytes, rfl, hahead⟩ := List.map_eq_append_iff.1 hrows
  obtain ⟨row, behind, rfl, hrow, -⟩ := List.map_eq_cons_iff.1 hahead
  refine ⟨before, row, behind, front, rest, hbytes, hrow, ?_, ?_⟩
  · rw [Script.Position.line_past_flatMap hpieces hfront, List.length_map]
  · rw [List.flatMap_map]

/-- The places of what is found in a file are on its lines. -/
theorem isPlace_of_lint? {a : Analyzer} {found : List Finding}
    (h : a.lint? f.path f.text = some found) {finding : Finding} (hfinding : finding ∈ found)
    {l : Location} (hl : l ∈ finding.locations) : f.IsPlace ⟨l.offset, l.line, l.column⟩ := by
  obtain ⟨p, hparse, n, hn, rfl⟩ := Analyzer.exists_node_of_lint? h hfinding hl
  obtain ⟨above, hancestry⟩ := Script.Node.mem_nodes_iff_exists_ancestry.1 hn
  have hlaid := hancestry.laidOut (Script.Program.laidOut_of_parse? hparse)
  exact isPlace_of_inText hlaid.fits.placed

/-- Reading a file keeps its lines. The text of a file whose bytes are those of a text is that
text, and such files are the ones without gaps. Whatever the bytes are, they are read stretch by
stretch, and no stretch reaches over a line feed. So the text has one line for each line of the
file, which is read from that line alone. Directives are looked for on these lines, and every place
of a finding is on the line of the file whose number it has. -/
theorem lines_text (f : SourceFile) :
    (∀ content : String, f.bytes = content.toUTF8.data.toList → f.text = content) ∧
    (Utf8.isUtf8 f.bytes = true ↔ ∃ content : String, f.bytes = content.toUTF8.data.toList) ∧
    (∃ items, Utf8.Reads f.bytes items ∧ f.text.toList = items.map (·.getD Utf8.replacement)) ∧
    (∀ before behind, Utf8.decode (before ++ 0x0a :: behind) =
      Utf8.decode before ++ '\n' :: Utf8.decode behind) ∧
    f.text.toList.splitOn '\n' = (f.bytes.splitOn 0x0a).map Utf8.decode ∧
    lines f.text.toList = (Utf8.lines f.bytes).map Utf8.decode ∧
    (∀ (line : ℕ) (rule : String), Directive.above? f.text line rule =
      Directive.find? ((Utf8.lines f.bytes).map Utf8.decode) rule [line - 1, line]) ∧
    ∀ (a : Analyzer) (found : List Finding), a.lint? f.path f.text = some found →
      ∀ finding ∈ found, ∀ l ∈ finding.locations, f.IsPlace ⟨l.offset, l.line, l.column⟩ := by
  have htext : f.text.toList = Utf8.decode f.bytes := String.toList_ofList
  have hlines : lines f.text.toList = (Utf8.lines f.bytes).map Utf8.decode := by
    rw [htext, Utf8.lines_decode]
  refine ⟨?_, Utf8.isUtf8_iff, ?_, Utf8.decode_append_newline, ?_, hlines, ?_, ?_⟩
  · intro content hbytes
    apply String.toList_inj.1
    rw [htext, hbytes, Utf8.decode_toUTF8]
  · exact ⟨Utf8.scan f.bytes, Utf8.reads_scan f.bytes, htext⟩
  · rw [htext, Utf8.splitOn_decode]
  · intro line rule
    rw [Directive.above?, hlines]
  · intro a found hfound finding hfinding l hl
    exact isPlace_of_lint? hfound hfinding hl

/-- A file in which the start of a character stands before the carriage return at the end of a
line, and the start of another one before the line feed of the next line. The module on the third
line is found there. -/
theorem lines_text_truncated :
    let bytes (text : String) : List UInt8 := text.toList.map (·.toNat.toUInt8)
    let f : SourceFile := ⟨⟨"p/a.js"⟩, bytes "// caf" ++ [0xe9, 0x0d, 0x0a] ++ bytes "//" ++
      [0xf0, 0x9f, 0x0a] ++ bytes "define('x', \x7b\x7d);"⟩
    let a : Analyzer := ⟨⟨"p"⟩, [⟨.namedDefine, .error, .forbidden⟩], [], [], [], {}, false⟩
    Utf8.isUtf8 f.bytes = false ∧
      lines f.text.toList = ["// caf\ufffd".toList, "//\ufffd".toList,
        "define('x', \x7b\x7d);".toList] ∧
      ∃ finding, a.lint? f.path f.text = some [finding] ∧ finding.location.line = 3 ∧
        ∃ before, f.bytes.splitOn 0x0a = before ++ [bytes "define('x', \x7b\x7d);"] ∧
          before.length = 2 := by
  intro bytes f a
  obtain ⟨-, -, -, -, -, hlines, -, hplaces⟩ := f.lines_text
  have hlint : ∃ found,
      a.lint? f.path f.text = some found ∧ found.map (·.location.line) = [3] := by
    -- the whole run is evaluated once, and only the line is asked for
    have hthird : (a.lint? f.path f.text).map (·.map (·.location.line)) = some [3] := by
      decide +kernel
    exact Option.map_eq_some_iff.1 hthird
  obtain ⟨found, hfound, hline⟩ := hlint
  obtain ⟨finding, rfl, hthird⟩ := List.map_eq_singleton_iff.1 hline
  obtain ⟨before, row, behind, -, -, hrows, -, hnumber, -⟩ :=
    hplaces a [finding] hfound finding List.mem_cons_self finding.location List.mem_cons_self
  -- the finding is on the third line, so two lines stand before it
  have hlength : before.length = 2 := by
    dsimp only at hnumber
    omega
  have hlast : (f.bytes.splitOn 0x0a).drop 2 =
      [bytes "define('x', \x7b\x7d);"] := by decide +kernel
  refine ⟨by decide +kernel, ?_, finding, hfound, hthird, before, ?_, hlength⟩
  · rw [hlines]
    decide +kernel
  · rw [← hlast, hrows, ← hlength, List.drop_left]

end SourceFile

end LoaderLint
