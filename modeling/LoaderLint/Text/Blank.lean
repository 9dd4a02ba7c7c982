/-!
# White space

The characters with the Unicode property White_Space, and texts without them at their ends.

The module introduces:

* `isWhite` — the property;
* `trimStart`, `trimEnd`, `trim` — a text without white space at one end or both.
-/

namespace LoaderLint.Text

/-- The characters with the Unicode property White_Space. -/
def isWhite (c : Char) : Bool :=
  ('\t' ≤ c && c ≤ '\r') || c = ' ' || c = '\u0085' || c = '\u00a0' || c = '\u1680' ||
    ('\u2000' ≤ c && c ≤ '\u200a') || c = '\u2028' || c = '\u2029' || c = '\u202f' ||
    c = '\u205f' || c = '\u3000'

/-- The text without white space at its start. -/
def trimStart (cs : List Char) : List Char := cs.dropWhile isWhite

/-- The text without white space at its end. -/
def trimEnd (cs : List Char) : List Char := (cs.reverse.dropWhile isWhite).reverse

/-- The text without white space at either end. -/
def trim (cs : List Char) : List Char := trimEnd (trimStart cs)

end LoaderLint.Text
