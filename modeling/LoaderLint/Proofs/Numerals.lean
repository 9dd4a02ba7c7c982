import LoaderLint.Text.Digits
import Mathlib.Data.List.Basic

/-!
# Numerals

Digits are read back as the number that they spell, in every base up to sixteen, and the numbers
that are written in a text can be read off it.

The module introduces:

* `Text.IsNumeral` — the numerals of a number, with zeros in front and letters of either case;
* `Text.numbers` — the numbers that are written in a text.
-/

namespace LoaderLint.Text

variable {base n : ℕ} {digits : List Char}

/-- The digits are the numeral of `n` in the base. Zeros may stand in front of it, and letters
among the digits may be of either case. -/
def IsNumeral (base n : ℕ) (digits : List Char) : Prop :=
  ∃ zeros, digits.map Char.toLower = List.replicate zeros '0' ++ Nat.toDigits base n

/-- The value of a numeral, digit by digit. -/
theorem digitsValue?_eq_some_iff :
    digitsValue? base digits = some n ↔
      digits ≠ [] ∧ (∀ c ∈ digits, digitValue c < base) ∧
        digits.foldl (fun m c => m * base + digitValue c) 0 = n := by
  unfold digitsValue?
  split
  · rename_i hbad
    rcases hbad with hnil | hlarge
    · simp [List.isEmpty_iff.1 hnil]
    · obtain ⟨c, hc, hle⟩ := List.any_eq_true.1 hlarge
      refine iff_of_false (by simp) fun h => ?_
      exact absurd (h.2.1 c hc) (Nat.not_lt.2 (of_decide_eq_true hle))
  · rename_i hgood
    simp only [List.isEmpty_iff, List.any_eq_true, decide_eq_true_eq, not_or, not_exists, not_and,
      Nat.not_le] at hgood
    simp only [Option.some.injEq, ne_eq, hgood.1, not_false_eq_true, true_and]
    exact ⟨fun h => ⟨hgood.2, h⟩, And.right⟩

/-- A digit has the value that it is written for. -/
theorem digitValue_digitChar (hn : n < 16) : digitValue n.digitChar = n := by
  revert n
  decide

/-- The digits of a number spell it. -/
theorem digitsValue?_toDigits (hbase : 1 < base) (hlimit : base ≤ 16) (n : ℕ) :
    digitsValue? base (Nat.toDigits base n) = some n := by
  -- the last digit is read last, so the induction takes it off
  induction n using Nat.base_induction base hbase with
  | single m hm =>
    have hvalue : digitValue m.digitChar = m := digitValue_digitChar (by omega)
    rw [Nat.toDigits_of_lt_base hm, digitsValue?_eq_some_iff]
    simp [hvalue, hm]
  | digit m k hk hm ih =>
    have hvalue : digitValue k.digitChar = k := digitValue_digitChar (by omega)
    obtain ⟨-, hsmall, hfold⟩ := digitsValue?_eq_some_iff.1 ih
    rw [← Nat.toDigits_append_toDigits hbase hm hk, Nat.toDigits_of_lt_base hk,
      digitsValue?_eq_some_iff]
    refine ⟨by simp, ?_, ?_⟩
    · intro c hc
      rcases List.mem_append.1 hc with hc | hc
      · exact hsmall c hc
      · rw [List.mem_singleton.1 hc, hvalue]
        exact hk
    · rw [List.foldl_append, hfold, List.foldl_cons, List.foldl_nil, hvalue, Nat.mul_comm]

/-- A digit has the same value in either case. -/
theorem digitValue_toLower (c : Char) : digitValue c.toLower = digitValue c := by
  by_cases hupper : c.val ≥ 'A'.val ∧ c.val ≤ 'Z'.val
  · have hrange : 65 ≤ c.toNat ∧ c.toNat ≤ 90 := hupper
    have hletter : c.toLower.toNat = c.toNat + 32 := by
      refine (congrArg Char.toNat (dif_pos hupper)).trans ?_
      change (c.toNat + 32) % 4294967296 = c.toNat + 32
      omega
    have hle (d e : Char) : d ≤ e ↔ d.toNat ≤ e.toNat := Iff.rfl
    simp only [digitValue, hle, hletter]
    -- both sides are now about numbers, with the codes of the digits as bounds
    change (if 48 ≤ c.toNat + 32 ∧ c.toNat + 32 ≤ 57 then c.toNat + 32 - 48
      else if 97 ≤ c.toNat + 32 ∧ c.toNat + 32 ≤ 102 then c.toNat + 32 - 97 + 10
      else if 65 ≤ c.toNat + 32 ∧ c.toNat + 32 ≤ 70 then c.toNat + 32 - 65 + 10 else 16) =
      (if 48 ≤ c.toNat ∧ c.toNat ≤ 57 then c.toNat - 48
      else if 97 ≤ c.toNat ∧ c.toNat ≤ 102 then c.toNat - 97 + 10
      else if 65 ≤ c.toNat ∧ c.toNat ≤ 70 then c.toNat - 65 + 10 else 16)
    split_ifs <;> omega
  · exact congrArg digitValue (dif_neg hupper)

/-- Digits may be written in either case. -/
theorem digitsValue?_map_toLower (base : ℕ) (digits : List Char) :
    digitsValue? base (digits.map Char.toLower) = digitsValue? base digits := by
  ext n
  simp only [digitsValue?_eq_some_iff, List.map_eq_nil_iff, ne_eq, List.forall_mem_map,
    digitValue_toLower, List.foldl_map]

/-- Zeros in front of digits do not change the number. -/
theorem digitsValue?_replicate_append (hbase : 0 < base) (zeros : ℕ)
    (h : digitsValue? base digits = some n) :
    digitsValue? base (List.replicate zeros '0' ++ digits) = some n := by
  have hzero : digitValue '0' = 0 := rfl
  induction zeros with
  | zero => exact h
  | succ zeros ih =>
    obtain ⟨-, hsmall, hfold⟩ := digitsValue?_eq_some_iff.1 ih
    rw [List.replicate_succ, List.cons_append, digitsValue?_eq_some_iff]
    refine ⟨List.cons_ne_nil _ _, List.forall_mem_cons.2 ⟨?_, hsmall⟩, ?_⟩
    · rw [hzero]
      exact hbase
    · rw [List.foldl_cons, hzero, Nat.zero_mul, Nat.add_zero]
      exact hfold

/-- A numeral spells its number. -/
theorem IsNumeral.digitsValue?_eq (h : IsNumeral base n digits) (hbase : 1 < base)
    (hlimit : base ≤ 16) : digitsValue? base digits = some n := by
  obtain ⟨zeros, hdigits⟩ := h
  rw [← digitsValue?_map_toLower, hdigits]
  exact digitsValue?_replicate_append (by omega) zeros (digitsValue?_toDigits hbase hlimit n)

/-- Each character has its number. -/
theorem charOf?_toNat (c : Char) : charOf? c.toNat = some c := by
  have hvalid : c.toNat.isValidChar := c.valid
  rw [charOf?, if_pos hvalid, Char.ofNat_toNat]

/-- The numeral of the number of a character spells the character. -/
theorem IsNumeral.charOfDigits?_eq {c : Char} (h : IsNumeral base c.toNat digits)
    (hbase : 1 < base) (hlimit : base ≤ 16) : charOfDigits? base digits = some c := by
  rw [charOfDigits?, h.digitsValue?_eq hbase hlimit, Option.bind_some, charOf?_toNat]

/-! ## Numbers in texts -/

/-- The numbers in a text, behind digits that have begun a number. -/
def numbersFrom : Option ℕ → List Char → List ℕ
  | begun, [] => begun.toList
  | begun, c :: rest =>
    if c.isDigit then numbersFrom (some (begun.getD 0 * 10 + digitValue c)) rest
    else begun.toList ++ numbersFrom none rest

/-- The numbers in a text: what its stretches of digits spell. -/
def numbers (cs : List Char) : List ℕ := numbersFrom none cs

/-- Digits go on with the number that was begun. -/
theorem numbersFrom_digits {digits : List Char} (h : ∀ c ∈ digits, c.isDigit = true) (begun : ℕ)
    (rest : List Char) :
    numbersFrom (some begun) (digits ++ rest) =
      numbersFrom (some (digits.foldl (fun m c => m * 10 + digitValue c) begun)) rest := by
  induction digits generalizing begun with
  | nil => rfl
  | cons c digits ih =>
    rw [List.forall_mem_cons] at h
    rw [List.cons_append, numbersFrom, if_pos h.1, ih h.2]
    rfl

/-- A number that is written out is begun. -/
theorem numbersFrom_toString (n : ℕ) (rest : List Char) :
    numbersFrom none ((toString n).toList ++ rest) = numbersFrom (some n) rest := by
  change numbersFrom none (n.repr.toList ++ rest) = _
  rw [Nat.toList_repr]
  have hdigits : ∀ c ∈ Nat.toDigits 10 n, c.isDigit = true :=
    fun c hc => Nat.isDigit_of_mem_toDigits (by decide) (by decide) hc
  obtain ⟨hne, -, hvalue⟩ := digitsValue?_eq_some_iff.1
    (@digitsValue?_toDigits 10 (by decide) (by decide) n)
  -- the first digit begins the number, and the others go on with it
  obtain ⟨c, digits, hcons⟩ := List.exists_cons_of_ne_nil hne
  rw [hcons] at hdigits hvalue ⊢
  rw [List.forall_mem_cons] at hdigits
  rw [List.cons_append, numbersFrom, if_pos hdigits.1, numbersFrom_digits hdigits.2]
  rw [List.foldl_cons] at hvalue
  rw [Option.getD_none, hvalue]

/-- Other characters end the number that was begun. -/
theorem numbersFrom_gap {gap : List Char} (hne : gap ≠ []) (h : ∀ c ∈ gap, c.isDigit = false)
    (begun : Option ℕ) (rest : List Char) :
    numbersFrom begun (gap ++ rest) = begun.toList ++ numbersFrom none rest := by
  induction gap generalizing begun with
  | nil => exact absurd rfl hne
  | cons c gap ih =>
    rw [List.forall_mem_cons] at h
    rw [List.cons_append, numbersFrom, if_neg (by simp [h.1])]
    cases gap with
    | nil => rfl
    | cons d gap => rw [ih (List.cons_ne_nil d gap) h.2, Option.toList_none, List.nil_append]

/-- A text without digits ends the number that was begun. -/
theorem numbersFrom_text (text : String) (h : text ≠ "" ∧ text.toList.all (!·.isDigit) = true)
    (begun : Option ℕ) (rest : List Char) :
    numbersFrom begun (text.toList ++ rest) = begun.toList ++ numbersFrom none rest := by
  refine numbersFrom_gap (fun hnil => h.1 (String.toList_inj.1 hnil)) ?_ begun rest
  simpa using h.2

end LoaderLint.Text
