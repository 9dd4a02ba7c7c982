/-!
# Splitting texts

Texts cut at the first occurrence of a word, and into lines.

The module introduces:

* `cutAt?` — the parts before and behind the first occurrence of a word;
* `dropStart?`, `dropEnd?` — a text without a word that it starts or ends with;
* `lines` — the lines of a text, each without its line feed and a carriage return before it.
-/

namespace LoaderLint.Text

/-- The text behind `word`, if it starts with it. -/
def dropStart? (word : List Char) (cs : List Char) : Option (List Char) :=
  match word, cs with
  | [], cs => some cs
  | _ :: _, [] => none
  | w :: word, c :: cs => if w = c then dropStart? word cs else none

/-- The text before `word`, if it ends with it. -/
def dropEnd? (word : List Char) (cs : List Char) : Option (List Char) :=
  (dropStart? word.reverse cs.reverse).map List.reverse

/-- The texts before and behind the first occurrence of `word`. -/
def cutAt? (word : List Char) : List Char → Option (List Char × List Char)
  | [] => if word.isEmpty then some ([], []) else none
  | c :: rest =>
    match dropStart? word (c :: rest) with
    | some behind => some ([], behind)
    | none => (cutAt? word rest).map fun (before, behind) => (c :: before, behind)

/-- A line without the carriage return at its end. -/
def withoutReturn (line : List Char) : List Char :=
  (dropEnd? ['\r'] line).getD line

/-- The lines of a text. A line feed ends a line, and a carriage return directly before it does not
count; text behind the last line feed is a line of its own. -/
def lines (cs : List Char) : List (List Char) :=
  let pieces := cs.splitOn '\n'
  pieces.dropLast.map withoutReturn ++ (pieces.getLast?.toList.filter (!·.isEmpty))

/-- The line with the number, counted from one. -/
def lineAt? (ls : List (List Char)) (number : Nat) : Option (List Char) :=
  match number with
  | 0 => none
  | n + 1 => ls[n]?

end LoaderLint.Text
