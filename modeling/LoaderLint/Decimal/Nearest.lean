/-!
# Nearest binary numbers

The binary number of 64 bits that is nearest to a decimal.
-/

namespace LoaderLint

/-- The bits of the number nearest to the digits times the power of ten. One beyond the range of
finite numbers is an infinity. -/
def nearestBits (negative : Bool) (digits : Nat) (exponent : Int) : UInt64 :=
  let magnitude : Nat := min exponent.natAbs 100000
  let x := Float.ofScientific digits (exponent < 0) magnitude
  (if negative then -x else x).toBits

/-- The bits of the two infinities. -/
def infiniteBits (negative : Bool) : UInt64 :=
  if negative then 0xfff0000000000000 else 0x7ff0000000000000

end LoaderLint
