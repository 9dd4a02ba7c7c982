/-!
# Shortest decimals

A binary number of 64 bits is written with the fewest decimal digits that are nearer to it than to
any other such number, and of the texts with that many digits the one nearest to it.

The module introduces:

* `Binary64` — the parts of a binary number: not a number, an infinity, or a whole number times a
  power of two;
* `Decimal`, `Binary64.shortest` — the digits and the place of the decimal point;
* `plainText`, `generalText` — the two layouts that the library writes numbers in.
-/

namespace LoaderLint

/-- A binary number of 64 bits. -/
inductive Binary64 where
  /-- Not a number. -/
  | nan
  /-- An infinity. -/
  | infinity (negative : Bool)
  /-- A whole number times a power of two, of which `tight` tells that the next smaller number is
  only half as far away as the next larger one. -/
  | finite (negative : Bool) (mantissa : Nat) (exponent : Int) (tight : Bool)
deriving DecidableEq, Repr, Inhabited

/-- The number that 64 bits stand for. -/
def Binary64.ofBits (bits : UInt64) : Binary64 :=
  let n := bits.toNat
  let negative := 0x8000000000000000 ≤ n
  let exponent : Nat := n / 0x10000000000000 % 0x800
  let fraction := n % 0x10000000000000
  if exponent = 2047 then
    if fraction = 0 then .infinity negative else .nan
  else if exponent = 0 then .finite negative fraction (-1074) false
  else .finite negative (fraction + 0x10000000000000) (Int.ofNat exponent - 1075)
    (fraction = 0 && 1 < exponent)

/-- Decimal digits without zeros at either end, and the number of digits before the decimal point,
which may be less than none. -/
structure Decimal where
  /-- The digits as a number. -/
  digits : Nat
  /-- How many digits there are. -/
  count : Nat
  /-- How many of them stand before the decimal point. -/
  point : Int
deriving DecidableEq, Repr, Inhabited

/-- A power of ten as a fraction. -/
def powerOfTen (e : Int) : Nat × Nat :=
  if e < 0 then (1, Nat.pow 10 e.natAbs) else (Nat.pow 10 e.natAbs, 1)

/-- The number of decimal digits of a number. -/
def digitCount (n : Nat) : Nat := (Nat.toDigits 10 n).length

/-- Whether `a / b` is below `c / d`. -/
def fractionBelow (a b c d : Nat) : Bool := a * d < c * b

/-- The place of the decimal point of the number `num / den`: the least power of ten above it. -/
def decimalPoint (num den : Nat) : Int :=
  let guess : Int := (digitCount num : Int) - digitCount den
  let (p, q) := powerOfTen guess
  if fractionBelow num den p q then guess else guess + 1

/-- The decimal with `count` digits that is nearest to `num / den` among those between `low / den`
and `high / den`, ends included if `closed` says so. -/
def candidate? (num den low high : Nat) (closed : Bool) (point : Int) (count : Nat) :
    Option Decimal :=
  let (p, q) := powerOfTen (point - count)
  let below := num * q / (den * p)
  let fits (d : Nat) : Bool :=
    if closed then low * q ≤ d * p * den && d * p * den ≤ high * q
    else low * q < d * p * den && d * p * den < high * q
  let under := num * q - below * p * den
  let excess := (below + 1) * p * den - num * q
  let lowerFirst := under < excess || (under = excess && below % 2 = 0)
  let order := if lowerFirst then [below, below + 1] else [below + 1, below]
  (order.find? fits).map fun d =>
    if d = Nat.pow 10 count then ⟨1, 1, point + 1⟩ else ⟨d, count, point⟩

/-- The fewest digits for `mantissa` times the power of two, and the nearest such digits. -/
def shortest (mantissa : Nat) (exponent : Int) (tight : Bool) : Decimal :=
  let scale := exponent - 2
  let up := if scale < 0 then 1 else Nat.pow 2 scale.natAbs
  let den := if scale < 0 then Nat.pow 2 scale.natAbs else 1
  let num := 4 * mantissa * up
  let low := (4 * mantissa - if tight then 1 else 2) * up
  let high := (4 * mantissa + 2) * up
  let point := decimalPoint num den
  let closed := mantissa % 2 = 0
  ((List.range 17).findSome? fun n => candidate? num den low high closed point (n + 1)).getD
    ⟨0, 1, 1⟩

/-- A run of zeros. -/
def zeros (n : Nat) : String := String.ofList (List.replicate n '0')

namespace Decimal

/-- The digits as text. -/
def digitText (d : Decimal) : List Char :=
  let text := Nat.toDigits 10 d.digits
  List.replicate (d.count - text.length) '0' ++ text

/-- The digits with the decimal point at its place, without a point if it would come last. -/
def positional (d : Decimal) : String :=
  let text := d.digitText
  if d.point ≤ 0 then "0." ++ zeros d.point.natAbs ++ String.ofList text
  else
    let whole := d.point.natAbs
    if text.length ≤ whole then String.ofList text ++ zeros (whole - text.length)
    else String.ofList (text.take whole) ++ "." ++ String.ofList (text.drop whole)

/-- One digit before the decimal point, and the power of ten behind the letter `e`. -/
def scientific (d : Decimal) : String :=
  let text := d.digitText
  let fraction := if text.length = 1 then "" else "." ++ String.ofList (text.drop 1)
  String.ofList (text.take 1) ++ fraction ++ "e" ++ toString (d.point - 1)

/-- Whether the digits are written with the decimal point at its place: if they stand not too far
behind it, and the number is below ten to the sixteenth. -/
def isModerate (least : Int) (d : Decimal) : Bool := least < d.point && d.point ≤ 16

end Decimal

namespace Binary64

/-- The sign of a number as it is written. -/
def sign (negative : Bool) : String := if negative then "-" else ""

/-- The text of a number without a power of ten, and without a point in a whole number. -/
def plainText : Binary64 → String
  | nan => "NaN"
  | infinity negative => sign negative ++ "inf"
  | finite negative mantissa exponent tight =>
    sign negative ++
      if mantissa = 0 then "0" else (shortest mantissa exponent tight).positional

/-- The text with a point and a zero behind a whole number. -/
def withPoint (text : String) : String :=
  if text.toList.contains '.' then text else text ++ ".0"

/-- The text of a number, which shows that it is no integer: with a point, or with a power of ten
if it is very large or so small that more than `-least` zeros stand behind the point. -/
def generalText (least : Int) : Binary64 → String
  | finite negative mantissa exponent tight =>
    if mantissa = 0 then sign negative ++ "0.0"
    else
      let d := shortest mantissa exponent tight
      sign negative ++ if d.isModerate least then withPoint d.positional else d.scientific
  | other => other.plainText

/-- The plain text of a number with a point in it, if it is finite. -/
def pointedText : Binary64 → String
  | finite negative mantissa exponent tight =>
    withPoint (finite negative mantissa exponent tight).plainText
  | other => other.plainText

end Binary64

end LoaderLint
