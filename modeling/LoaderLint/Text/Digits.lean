/-!
# Digits

Numbers and characters spelled by digits.

The module introduces:

* `digitsValue?` — the number that digits spell in a base;
* `charOf?`, `charOfDigits?` — the character with a number, and the one whose number digits spell.
-/

namespace LoaderLint.Text

/-- The value of a digit, up to base sixteen. -/
def digitValue (c : Char) : Nat :=
  if '0' ≤ c ∧ c ≤ '9' then c.toNat - '0'.toNat
  else if 'a' ≤ c ∧ c ≤ 'f' then c.toNat - 'a'.toNat + 10
  else if 'A' ≤ c ∧ c ≤ 'F' then c.toNat - 'A'.toNat + 10
  else 16

/-- The number that the digits spell in the base; nothing if there are none or if some character is
no digit of the base. -/
def digitsValue? (base : Nat) (digits : List Char) : Option Nat :=
  if digits.isEmpty ∨ digits.any (base ≤ digitValue ·) then none
  else some (digits.foldl (fun n c => n * base + digitValue c) 0)

/-- The character with the number, if there is one. -/
def charOf? (n : Nat) : Option Char :=
  if n.isValidChar then some (Char.ofNat n) else none

/-- The character that the digits spell in the base, if they spell one. -/
def charOfDigits? (base : Nat) (digits : List Char) : Option Char :=
  (digitsValue? base digits).bind charOf?

end LoaderLint.Text
