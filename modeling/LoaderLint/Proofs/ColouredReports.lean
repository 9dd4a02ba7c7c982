import LoaderLint.Proofs.TextLines
import LoaderLint.Report

/-!
# Coloured reports

A coloured report says the same as a plain one. Of each finding the first mention of its severity
is coloured, wherever it stands, and nothing else is; the summary is coloured as a whole.

What is coloured is said by reading the report as a terminal does, which is another matter than
writing it. The module introduces:

* `Terminal.Token`, `Terminal.tokens` — the characters of a text and its changes of colour;
* `Terminal.plain` — a text without its changes of colour;
* `Terminal.stretches` — the coloured stretches of a text;
* `Finding.strings`, `Report.IsPlain` — reports whose own texts leave the colours alone.

The main result is `Report.text_coloured`.
-/

namespace LoaderLint

namespace Terminal

/-- The character that control sequences start with. -/
def escape : Char := '\x1b'

/-- Whether a character may stand among the parameters of a change of colour. -/
def isParameter (c : Char) : Bool := c.isDigit || c = ';'

/-- The parameters of the change of colour that a text starts with, and the text behind it. -/
def change? (cs : List Char) : Option (List Char × List Char) := do
  let rest ← Text.dropStart? [escape, '['] cs
  let behind ← Text.dropStart? ['m'] (rest.dropWhile isParameter)
  return (rest.takeWhile isParameter, behind)

/-- A change of colour is an escape and a bracket, parameters, and the letter that ends it. -/
theorem change?_eq_some_iff {cs parameters behind : List Char} :
    change? cs = some (parameters, behind) ↔
      cs = [escape, '['] ++ (parameters ++ 'm' :: behind) ∧
        ∀ c ∈ parameters, isParameter c = true := by
  simp only [change?, Option.bind_eq_bind, Option.bind_eq_some_iff, Text.dropStart?_eq_some_iff,
    Option.pure_def, Option.some.injEq, Prod.mk.injEq]
  constructor
  · rintro ⟨rest, rfl, behind, hrest, rfl, rfl⟩
    refine ⟨?_, List.all_eq_true.1 List.all_takeWhile⟩
    rw [List.singleton_append] at hrest
    rw [← hrest, List.takeWhile_append_dropWhile]
  · rintro ⟨rfl, hall⟩
    -- the letter that ends the change is no parameter, so the parameters end before it
    have hmark : isParameter 'm' = false := rfl
    refine ⟨_, rfl, behind, ?_, ?_, rfl⟩
    · rw [List.dropWhile_append_of_pos hall, List.dropWhile_cons_of_neg (by simp [hmark])]
      rfl
    · rw [List.takeWhile_append_of_pos hall, List.takeWhile_cons_of_neg (by simp [hmark]),
        List.append_nil]

/-- A part of a text as a terminal reads it. -/
inductive Token where
  /-- A character that is shown. -/
  | shown (c : Char)
  /-- A change of colour with its parameters. -/
  | change (parameters : List Char)
deriving DecidableEq, Repr

/-- The character that a token shows. -/
def Token.char? : Token → Option Char
  | shown c => some c
  | change _ => none

/-- The text as a terminal reads it. -/
def tokens (cs : List Char) : List Token :=
  match cs with
  | [] => []
  | c :: rest =>
    -- the text behind a change is shorter by the whole change
    match _h : change? (c :: rest) with
    | some (parameters, behind) => .change parameters :: tokens behind
    | none => .shown c :: tokens rest
termination_by cs.length
decreasing_by
  · rw [(change?_eq_some_iff.1 _h).1]
    simp
    omega
  · simp

/-- The text without its changes of colour. -/
def plain (cs : List Char) : List Char := (tokens cs).filterMap Token.char?

/-- The characters that are shown up to the next change of colour. -/
def shownAhead : List Token → List Char
  | .shown c :: rest => c :: shownAhead rest
  | _ => []

/-- Whether a change takes all colours back. -/
def isReset (parameters : List Char) : Bool := parameters = [] || parameters = ['0']

/-- The stretches behind changes that set a colour, each with the parameters of its change. -/
def stretchesOf : List Token → List (List Char × List Char)
  | [] => []
  | .shown _ :: rest => stretchesOf rest
  | .change parameters :: rest =>
    if isReset parameters then stretchesOf rest
    else (parameters, shownAhead rest) :: stretchesOf rest

/-- The coloured stretches of a text, each with the parameters of its colour. -/
def stretches (cs : List Char) : List (List Char × List Char) := stretchesOf (tokens cs)

/-! ## Reading what was written -/

variable {cs : List Char}

/-- A character that starts no control sequence is shown. -/
theorem tokens_cons {c : Char} (hc : c ≠ escape) (rest : List Char) :
    tokens (c :: rest) = .shown c :: tokens rest := by
  -- every change starts with the escape
  have hnone : change? (c :: rest) = none := by
    refine Option.eq_none_iff_forall_ne_some.2 fun found hfound => hc ?_
    exact (List.cons.inj (change?_eq_some_iff.1 hfound).1).1
  rw [tokens]
  split
  · rename_i h
    rw [hnone] at h
    cases h
  · rfl

/-- Without control sequences all characters are shown. -/
theorem tokens_append (hcs : escape ∉ cs) (rest : List Char) :
    tokens (cs ++ rest) = cs.map .shown ++ tokens rest := by
  induction cs with
  | nil => rfl
  | cons c cs ih =>
    rw [List.mem_cons, not_or] at hcs
    rw [List.cons_append, tokens_cons (Ne.symm hcs.1), ih hcs.2, List.map_cons, List.cons_append]

/-- A change of colour is read as one, with its parameters. -/
theorem tokens_change {parameters : List Char} (h : ∀ c ∈ parameters, isParameter c = true)
    (rest : List Char) :
    tokens ([escape, '['] ++ (parameters ++ 'm' :: rest)) = .change parameters :: tokens rest := by
  have hsome : change? ([escape, '['] ++ (parameters ++ 'm' :: rest)) = some (parameters, rest) :=
    change?_eq_some_iff.2 ⟨rfl, h⟩
  rw [List.cons_append] at hsome ⊢
  rw [tokens]
  split
  · rename_i found behind hfound
    rw [hsome] at hfound
    cases hfound
    rfl
  · rename_i hfound
    rw [hsome] at hfound
    cases hfound

end Terminal

/-- The letters of a colour are parameters. -/
theorem Colour.isParameter_code (c : Colour) :
    ∀ d ∈ c.code.toList, Terminal.isParameter d = true := by
  rw [← List.all_eq_true]
  cases c <;> decide

/-- No colour of a severity takes colours back. -/
theorem Colour.isReset_code (c : Colour) : Terminal.isReset c.code.toList = false := by
  cases c <;> decide

/-- A painted text stands between the change to its colour and the one that takes it back. -/
theorem Colour.toList_paint (c : Colour) (text : String) :
    (c.paint text).toList =
      [Terminal.escape, '['] ++ (c.code.toList ++ 'm' ::
        (text.toList ++ ([Terminal.escape, '['] ++ (['0'] ++ ['m'])))) := by
  simp only [paint, String.toList_append, List.append_assoc]
  rfl

namespace Terminal

variable {cs : List Char}

/-- A painted text is read as its characters between two changes. -/
theorem tokens_paint (c : Colour) {text : String} (h : Text.Lacks escape text) (rest : List Char) :
    tokens ((c.paint text).toList ++ rest) =
      .change c.code.toList :: (text.toList.map .shown ++ .change ['0'] :: tokens rest) := by
  have hzero : ∀ d ∈ ['0'], isParameter d = true := by
    rw [← List.all_eq_true]
    decide
  -- the two changes are read from the outside in: the text between them has none
  have hend := tokens_change hzero rest
  have hstart := tokens_change c.isParameter_code
    (text.toList ++ ([escape, '['] ++ (['0'] ++ 'm' :: rest)))
  rw [tokens_append h, hend] at hstart
  rw [← hstart, Colour.toList_paint]
  simp only [List.append_assoc, List.cons_append, List.nil_append]

/-- A text without control sequences is left as it is. -/
theorem plain_append (hcs : escape ∉ cs) (rest : List Char) :
    plain (cs ++ rest) = cs ++ plain rest := by
  have hshown : Token.char? ∘ Token.shown = some := rfl
  rw [plain, tokens_append hcs, List.filterMap_append, List.filterMap_map, hshown,
    List.filterMap_some, plain]

/-- Without its colour a painted text is the text. -/
theorem plain_paint (c : Colour) {text : String} (h : Text.Lacks escape text) (rest : List Char) :
    plain ((c.paint text).toList ++ rest) = text.toList ++ plain rest := by
  have hshown : Token.char? ∘ Token.shown = some := rfl
  rw [plain, tokens_paint c h, List.filterMap_cons_none rfl, List.filterMap_append,
    List.filterMap_map, hshown, List.filterMap_some, List.filterMap_cons_none rfl, plain]

/-- Characters that are shown start no stretch. -/
theorem stretchesOf_append (tokens : List Token) :
    stretchesOf (cs.map .shown ++ tokens) = stretchesOf tokens := by
  induction cs with
  | nil => rfl
  | cons c cs ih => exact ih

/-- A stretch ends at the next change. -/
theorem shownAhead_append (parameters : List Char) (tokens : List Token) :
    shownAhead (cs.map .shown ++ .change parameters :: tokens) = cs := by
  induction cs with
  | nil => rfl
  | cons c cs ih => exact congrArg (c :: ·) ih

/-- A text without control sequences has no coloured stretch. -/
theorem stretches_append (hcs : escape ∉ cs) (rest : List Char) :
    stretches (cs ++ rest) = stretches rest := by
  rw [stretches, tokens_append hcs, stretchesOf_append, stretches]

/-- A painted text is one coloured stretch. -/
theorem stretches_paint (c : Colour) {text : String} (h : Text.Lacks escape text)
    (rest : List Char) :
    stretches ((c.paint text).toList ++ rest) =
      (c.code.toList, text.toList) :: stretches rest := by
  have hreset : isReset ['0'] = true := rfl
  rw [stretches, tokens_paint c h, stretchesOf, c.isReset_code, if_neg Bool.false_ne_true,
    shownAhead_append, stretchesOf_append, stretchesOf, if_pos hreset, stretches]

end Terminal

/-! ## Findings -/

/-- The mention of a severity in a block. -/
def Severity.tag (s : Severity) : String := "  " ++ s.name ++ ": "

/-- The mention of a severity in its colour. -/
def Severity.colouredTag (s : Severity) : String := "  " ++ s.colour.paint s.name ++ ": "

/-- The name of a severity has no control character. -/
theorem Severity.lacks_name (s : Severity) {c : Char} (hc : c.toNat < 32) :
    Text.Lacks c s.name := by
  cases s <;> exact Text.lacks_of_printable hc (by decide)

/-- The first occurrence of a text is replaced, and all else stays. -/
theorem toList_replaceFirst {old text : String} {before behind : List Char} (new : String)
    (h : Text.IsFirst old.toList text.toList before behind) :
    (replaceFirst old new text).toList = before ++ (new.toList ++ behind) := by
  rw [replaceFirst, Text.cutAt?_eq_some_iff.2 h]
  simp

namespace Finding

/-- The texts of a finding. -/
def strings (f : Finding) : List String :=
  [f.code, f.rule, f.location.file.spelling, f.message] ++ f.suggestion.toList ++
    f.labels.flatMap fun l => [l.location.file.spelling, l.message]

/-- A block mentions the severity of its finding. -/
theorem tag_infix_block (f : Finding) : f.severity.tag.toList <:+: f.block.toList := by
  refine ⟨(f.code ++ " " ++ f.rule ++ " at " ++ f.location.place ++ "\n").toList,
    (f.message ++ "\n" ++ String.join (f.labels.map Label.note) ++
      (f.suggestion.elim "" fun text => "  = help: " ++ text ++ "\n")).toList, ?_⟩
  rw [← String.toList_append, ← String.toList_append, String.toList_inj, Severity.tag]
  unfold block
  cases f.suggestion <;> simp only [Option.elim, String.append_assoc]

/-- In a coloured block the first mention of the severity is in its colour. -/
theorem exists_toList_colouredBlock (f : Finding) :
    ∃ before behind, Text.IsFirst f.severity.tag.toList f.block.toList before behind ∧
      f.colouredBlock.toList = before ++ (f.severity.colouredTag.toList ++ behind) := by
  obtain ⟨before, behind, hfirst⟩ := Text.exists_isFirst f.tag_infix_block
  exact ⟨before, behind, hfirst, toList_replaceFirst _ hfirst⟩

/-- A block has no control sequences if the texts of the finding have none. -/
theorem lacks_block {f : Finding} (h : ∀ text ∈ f.strings, Text.Lacks Terminal.escape text) :
    Text.Lacks Terminal.escape f.block := by
  have hnumber := Text.lacks_toString (c := Terminal.escape) rfl
  -- the texts between those of the finding are fixed, and numbers consist of digits
  have hplace : Text.Lacks Terminal.escape f.location.place := by
    have hfile := h f.location.file.spelling (by simp [strings])
    simp only [Location.place, Text.lacks_append, hfile, hnumber, true_and, and_true]
    decide
  have hnotes : Text.Lacks Terminal.escape (String.join (f.labels.map Label.note)) := by
    rw [Text.lacks_join, List.forall_mem_map]
    intro label hlabel
    have hmessage := h label.message
      (List.mem_append_right _ (List.mem_flatMap.2 ⟨label, hlabel, by simp⟩))
    unfold Label.note
    simp only [Text.lacks_append, hmessage, hnumber, and_true]
    decide
  have hcode := h f.code (by simp [strings])
  have hrule := h f.rule (by simp [strings])
  have hmessage := h f.message (by simp [strings])
  have hname : Text.Lacks Terminal.escape f.severity.name := f.severity.lacks_name (by decide)
  unfold block
  split
  · rename_i text htext
    have hhelp := h text (by simp [strings, htext])
    simp only [Text.lacks_append, hcode, hrule, hplace, hname, hmessage, hnotes, hhelp, true_and,
      and_true]
    decide
  · simp only [Text.lacks_append, hcode, hrule, hplace, hname, hmessage, hnotes, true_and,
      and_true]
    decide

/-- What a terminal makes of a coloured block: the characters of the block, with one coloured
stretch among them. -/
theorem read_colouredBlock {f : Finding} (h : ∀ text ∈ f.strings, Text.Lacks Terminal.escape text)
    (rest : List Char) :
    Terminal.plain (f.colouredBlock.toList ++ rest) = f.block.toList ++ Terminal.plain rest ∧
      Terminal.stretches (f.colouredBlock.toList ++ rest) =
        (f.severity.colour.code.toList, f.severity.name.toList) :: Terminal.stretches rest := by
  obtain ⟨before, behind, hfirst, hcoloured⟩ := f.exists_toList_colouredBlock
  -- neither side of the mention has a control sequence, so each is shown as it is
  have hblock := lacks_block h
  rw [Text.Lacks, hfirst.1] at hblock
  simp only [List.mem_append, not_or] at hblock
  obtain ⟨hbefore, -, hbehind⟩ := hblock
  have hname : Text.Lacks Terminal.escape f.severity.name := f.severity.lacks_name (by decide)
  have hblanks : Terminal.escape ∉ "  ".toList := by decide
  have hcolon : Terminal.escape ∉ ": ".toList := by decide
  rw [hcoloured, hfirst.1, Severity.colouredTag, Severity.tag]
  simp only [String.toList_append, List.append_assoc]
  constructor
  · rw [Terminal.plain_append hbefore, Terminal.plain_append hblanks, Terminal.plain_paint _ hname,
      Terminal.plain_append hcolon, Terminal.plain_append hbehind]
  · rw [Terminal.stretches_append hbefore, Terminal.stretches_append hblanks,
      Terminal.stretches_paint _ hname, Terminal.stretches_append hcolon,
      Terminal.stretches_append hbehind]

end Finding

/-! ## Reports -/

namespace Report

/-- The texts of the findings have no control sequences. -/
def IsPlain (r : Report) : Prop :=
  ∀ f ∈ r.findings, ∀ text ∈ f.strings, Text.Lacks Terminal.escape text

instance (r : Report) : Decidable r.IsPlain :=
  inferInstanceAs
    (Decidable (∀ f ∈ r.findings, ∀ text ∈ f.strings, Text.Lacks Terminal.escape text))

theorem summaryLine_true (r : Report) :
    r.summaryLine true = r.summaryColour.paint r.summary ++ "\n" := rfl

theorem summaryLine_false (r : Report) : r.summaryLine false = r.summary ++ "\n" := rfl

theorem text_true (r : Report) :
    r.text true =
      String.join (r.findings.map fun f => f.colouredBlock ++ "\n") ++ r.summaryLine true := by
  simp only [text, ↓reduceIte]

theorem text_false (r : Report) :
    r.text false =
      String.join (r.findings.map fun f => f.block ++ "\n") ++ r.summaryLine false := by
  simp only [text, Bool.false_eq_true, ↓reduceIte]

/-- A summary has no control characters. -/
theorem lacks_summary (r : Report) {c : Char} (hc : c.toNat < 32) : Text.Lacks c r.summary := by
  have hnumber : ∀ n : ℕ, Text.Lacks c (toString n) := by
    refine Text.lacks_toString (Bool.eq_false_iff.2 fun hdigit => ?_)
    have hrange : 48 ≤ c.toNat ∧ c.toNat ≤ 57 := Char.isDigit_iff_toNat.1 hdigit
    omega
  unfold summary
  simp only [Text.lacks_append, hnumber, and_true]
  refine ⟨⟨⟨⟨?_, ?_⟩, ?_⟩, ?_⟩, ?_⟩ <;> exact Text.lacks_of_printable hc (by decide)

/-- What a terminal makes of the last line of a report. -/
theorem read_summaryLine (r : Report) :
    Terminal.plain (r.summaryLine true).toList = (r.summaryLine false).toList ∧
      Terminal.stretches (r.summaryLine true).toList =
        [(r.summaryColour.code.toList, r.summary.toList)] := by
  have hsummary : Text.Lacks Terminal.escape r.summary := r.lacks_summary (by decide)
  have hend : Terminal.escape ∉ "\n".toList := by decide
  have hnil : Terminal.tokens [] = [] := by rw [Terminal.tokens]
  have hplain := Terminal.plain_append hend []
  have hstretches := Terminal.stretches_append hend []
  rw [List.append_nil] at hplain hstretches
  rw [summaryLine_true, summaryLine_false, String.toList_append, String.toList_append]
  constructor
  · rw [Terminal.plain_paint _ hsummary, hplain, Terminal.plain, hnil]
    rfl
  · rw [Terminal.stretches_paint _ hsummary, hstretches, Terminal.stretches, hnil]
    rfl

/-- What a terminal makes of the blocks of a report, one after the other. -/
theorem read_blocks {findings : List Finding}
    (h : ∀ f ∈ findings, ∀ text ∈ f.strings, Text.Lacks Terminal.escape text) (rest : List Char) :
    Terminal.plain
        ((String.join (findings.map fun f => f.colouredBlock ++ "\n")).toList ++ rest) =
      (String.join (findings.map fun f => f.block ++ "\n")).toList ++ Terminal.plain rest ∧
    Terminal.stretches
        ((String.join (findings.map fun f => f.colouredBlock ++ "\n")).toList ++ rest) =
      findings.map (fun f => (f.severity.colour.code.toList, f.severity.name.toList)) ++
        Terminal.stretches rest := by
  induction findings with
  | nil => exact ⟨rfl, rfl⟩
  | cons f findings ih =>
    rw [List.forall_mem_cons] at h
    -- each block ends with a line feed, which no colour reaches over
    have hend : Terminal.escape ∉ "\n".toList := by decide
    obtain ⟨hplain, hstretches⟩ := ih h.2
    simp only [List.map_cons, String.join_cons, String.toList_append, List.append_assoc,
      List.cons_append] at hplain hstretches ⊢
    rw [(Finding.read_colouredBlock h.1 _).1, (Finding.read_colouredBlock h.1 _).2,
      Terminal.plain_append hend, Terminal.stretches_append hend, hplain, hstretches]
    exact ⟨rfl, rfl⟩

/-- A coloured report without its colours is the plain one. Its coloured stretches are the
severities of its findings, one for each of them and in its colour, and the summary behind them.

This holds whatever else the texts of the findings say. In the block of a finding the coloured
stretch is the first one that looks like a mention of the severity, and the rest of the block stays
as it is. -/
theorem text_coloured (r : Report) (h : r.IsPlain) :
    Terminal.plain (r.text true).toList = (r.text false).toList ∧
    Terminal.stretches (r.text true).toList =
      r.findings.map (fun f => (f.severity.colour.code.toList, f.severity.name.toList)) ++
        [(r.summaryColour.code.toList, r.summary.toList)] ∧
    ∀ f ∈ r.findings, ∃ before behind,
      Text.IsFirst f.severity.tag.toList f.block.toList before behind ∧
        f.colouredBlock.toList = before ++ (f.severity.colouredTag.toList ++ behind) := by
  obtain ⟨hplain, hstretches⟩ := read_blocks h (r.summaryLine true).toList
  obtain ⟨hplain', hstretches'⟩ := r.read_summaryLine
  rw [hplain'] at hplain
  rw [hstretches'] at hstretches
  rw [text_true, text_false, String.toList_append, String.toList_append]
  exact ⟨hplain, hstretches, fun f _ => f.exists_toList_colouredBlock⟩

/-- Two findings with texts that look like mentions of severities, in the name of a file, in a
message, in a label and in a suggestion. -/
theorem text_coloured_lookalikes :
    let place : Location := ⟨⟨"a  error: b.js"⟩, 3, 5, 20, 4⟩
    let first : Finding :=
      ⟨"AMD001", "amd-function-arity", .error, place, "  error: twice", none,
        [⟨place, "see  error: here"⟩], false⟩
    let second : Finding :=
      ⟨"AMD003", "no-assign-require", .warning, place, "", some "no  warning: needed", [], true⟩
    let r : Report := ⟨[first, second], 1⟩
    r.IsPlain ∧
      Terminal.plain (r.text true).toList = (r.text false).toList ∧
      Terminal.stretches (r.text true).toList =
        [("31".toList, "error".toList), ("33".toList, "warning".toList),
          ("31".toList, "Found 1 error(s), 1 warning(s), 0 info(s) in 1 file(s)".toList)] ∧
      first.colouredBlock.toList =
        "AMD001 amd-function-arity at a  \x1b[31merror\x1b[0m: b.js:3:5\n".toList ++
          "  error:   error: twice\n  = note: see  error: here (3:5)\n".toList := by
  intro place first second r
  -- the name of the file has what looks like the first mention
  have hplain : r.IsPlain := by decide +kernel
  obtain ⟨htext, hstretches, -⟩ := r.text_coloured hplain
  exact ⟨hplain, htext, hstretches.trans (by decide +kernel), by decide +kernel⟩

end Report

end LoaderLint
