/-!
# UTF-8

Bytes read as characters. Bytes that are no UTF-8 are read in stretches: each is the longest start
of a character that the bytes allow, or a single byte.

The module introduces:

* `scan` — the characters of a byte sequence, with a gap for each stretch that is none;
* `isUtf8` — whether all bytes are characters;
* `decode` — the characters, with a replacement character for each gap.

## References

* The specification of amd-lint, §10.4: files that are not valid UTF-8 are decoded lossily, which
  is `decode` here.
-/

namespace LoaderLint.Text.Utf8

/-- The first bytes of characters that take two bytes. -/
def leadsTwo (b : UInt8) : Bool := 0xc2 ≤ b && b ≤ 0xdf

/-- The first bytes of characters that take three bytes. -/
def leadsThree (b : UInt8) : Bool := 0xe0 ≤ b && b ≤ 0xef

/-- The first bytes of characters that take four bytes. -/
def leadsFour (b : UInt8) : Bool := 0xf0 ≤ b && b ≤ 0xf4

/-- The bytes behind the first one. -/
def continues (b : UInt8) : Bool := 0x80 ≤ b && b ≤ 0xbf

/-- Whether the second byte of a character of three or four bytes fits the first one: shorter
spellings of a character, surrogates and numbers beyond the last character are ruled out. -/
def follows (first second : UInt8) : Bool :=
  if first = 0xe0 then 0xa0 ≤ second && second ≤ 0xbf
  else if first = 0xed then 0x80 ≤ second && second ≤ 0x9f
  else if first = 0xf0 then 0x90 ≤ second && second ≤ 0xbf
  else if first = 0xf4 then 0x80 ≤ second && second ≤ 0x8f
  else continues second

/-- The six bits that a byte behind the first one adds. -/
def tail (b : UInt8) : Nat := b.toNat % 64

/-- The characters of a byte sequence, with a gap for each stretch that is none. -/
def scan : List UInt8 → List (Option Char)
  | [] => []
  | a :: rest =>
    if a < 0x80 then some (Char.ofNat a.toNat) :: scan rest
    else if leadsTwo a then
      match rest with
      | b :: rest' =>
        if continues b then
          some (Char.ofNat (a.toNat % 32 * 64 + tail b)) :: scan rest'
        else none :: scan (b :: rest')
      | [] => [none]
    else if leadsThree a then
      match rest with
      | b :: c :: rest' =>
        if follows a b then
          if continues c then
            some (Char.ofNat ((a.toNat % 16 * 64 + tail b) * 64 + tail c)) :: scan rest'
          else none :: scan (c :: rest')
        else none :: scan (b :: c :: rest')
      | [b] => if follows a b then [none] else none :: scan [b]
      | [] => [none]
    else if leadsFour a then
      match rest with
      | b :: c :: d :: rest' =>
        if follows a b then
          if continues c then
            if continues d then
              some (Char.ofNat (((a.toNat % 8 * 64 + tail b) * 64 + tail c) * 64 + tail d)) ::
                scan rest'
            else none :: scan (d :: rest')
          else none :: scan (c :: d :: rest')
        else none :: scan (b :: c :: d :: rest')
      | [b, c] =>
        if follows a b then
          if continues c then [none] else none :: scan [c]
        else none :: scan [b, c]
      | [b] => if follows a b then [none] else none :: scan [b]
      | [] => [none]
    else none :: scan rest

/-- The character that stands for bytes that are none. -/
def replacement : Char := '\ufffd'

/-- Whether all bytes are characters. -/
def isUtf8 (bytes : List UInt8) : Bool := (scan bytes).all Option.isSome

/-- The characters of a byte sequence, with a replacement character for each stretch that is
none. -/
def decode (bytes : List UInt8) : List Char := (scan bytes).map (·.getD replacement)

end LoaderLint.Text.Utf8
